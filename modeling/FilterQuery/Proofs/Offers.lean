import FilterQuery.Proofs.Building
import FilterQuery.Proofs.LowerCase
import FilterQuery.Proofs.Selection
import FilterQuery.Proofs.Traversal
import FilterQuery.Proofs.UpperCase
import FilterQuery.Schema.Builtin

/-!
# The selectors that messages offer

An error message about a selector lists the selectors that the schema has. Each entry of the list
is an **offer**: a field and a selection of it that the entry stands for, where the one entry of a
map stands for every key (`Field.Offers`).

An offer is worth something if selecting by it gives the selection it stands for. Building a schema
does not see to that. The list writes the name of a field in lower case and puts a dot behind it,
and a selector is cut at its dots and its first piece put into upper case. So all offers of a field
hold if and only if the field is **readable** (`Field.IsReadable`): its name has no dot and comes
back from lower case, and its attributes have no dots and differ by more than the case of ASCII
letters (`Schema.select_offered_iff`).

* **Fields.** In a proper schema a field is found by its name, so an offer leads to its field if the
  first piece of the offer is the name.
* **Attributes.** Each offer of a composite field is for one attribute. It holds if the name of the
  attribute is one piece and finds the attribute (`select_attribute_iff`), which it does if no
  attribute in front of it has the same name up to ASCII case.
* **Maps.** The offer of a map stands for a selector with any key in place of `*`.
-/

namespace FilterQuery

open Text

namespace Field

variable {field : Field} {entry : String} {a : Attribute}

/-! ### Offers -/

/-- The field lists `entry`, by which `selector` is meant to give `selection`. -/
inductive Offers (field : Field) : String → String → Selection → Prop where
  | scalar {type : ValueType} (hkind : field.kind = .scalar type) :
      Offers field (lower field.name) (lower field.name) ⟨field, field.path, type, none⟩
  | composite {attributes : List Attribute} {a : Attribute}
      (hkind : field.kind = .composite attributes) (ha : a ∈ attributes) :
      Offers field (lower field.name ++ "." ++ a.name) (lower field.name ++ "." ++ a.name)
        ⟨field, field.path.child a.name, a.type, none⟩
  | map {keyMember : String} {valueMember : Option String} {type : ValueType} {key : String}
      (hkind : field.kind = .map keyMember valueMember type) (hkey : key ≠ "")
      (hdot : '.' ∉ key.toList) :
      Offers field (lower field.name ++ ".keyName") (lower field.name ++ "." ++ key)
        ⟨field, field.path, type, some ⟨field.path.child keyMember, key⟩⟩

/-- A field whose name and attributes are read as they are listed. -/
structure IsReadable (field : Field) : Prop where
  name_dot : '.' ∉ field.name.toList
  name_case : upper (lower field.name) = field.name
  attribute_dot : ∀ a ∈ field.attributes, '.' ∉ a.name.toList
  attribute_case : ∀ a ∈ field.attributes, ∀ b ∈ field.attributes,
    equalsIgnoringCase a.name b.name = true → a = b

/-- What a field lists are its offers. -/
theorem mem_selectors_iff :
    entry ∈ field.selectors ↔ ∃ selector selection, field.Offers entry selector selection := by
  unfold selectors
  constructor
  · intro h
    cases hkind : field.kind with
    | scalar type =>
      simp only [hkind, List.mem_singleton] at h
      exact h ▸ ⟨_, _, .scalar hkind⟩
    | composite attributes =>
      simp only [hkind, List.mem_map] at h
      obtain ⟨a, ha, rfl⟩ := h
      exact ⟨_, _, .composite hkind ha⟩
    | map keyMember valueMember type =>
      simp only [hkind, List.mem_singleton] at h
      have hkey : "keyName" ≠ "" ∧ '.' ∉ "keyName".toList := by decide
      exact h ▸ ⟨_, _, .map hkind hkey.1 hkey.2⟩
  · rintro ⟨selector, selection, hoffer⟩
    cases hoffer with
    | scalar hkind => simp [hkind]
    | composite hkind ha => simpa [hkind] using ⟨_, ha, rfl⟩
    | map hkind => simp [hkind]

/-- A complete field offers something. -/
theorem IsComplete.exists_offers (h : field.IsComplete) :
    ∃ entry selector selection, field.Offers entry selector selection := by
  cases hkind : field.kind with
  | scalar type => exact ⟨_, _, _, .scalar hkind⟩
  | composite attributes =>
    cases attributes with
    | nil => exact absurd hkind h.kind
    | cons a attributes => exact ⟨_, _, _, .composite hkind List.mem_cons_self⟩
  | map keyMember valueMember type =>
    exact ⟨_, _, _, .map hkind (by decide : "keyName" ≠ "") (by decide)⟩

/-- The first piece of an offered selector is the name in lower case, if the name has no dot. -/
theorem Offers.split_selector {selector : String} {selection : Selection}
    (h : field.Offers entry selector selection) (hdot : '.' ∉ (lower field.name).toList) :
    ∃ segments, split '.' selector = lower field.name :: segments := by
  cases h with
  | scalar hkind => exact ⟨[], split_of_not_mem hdot⟩
  | composite hkind ha => exact ⟨_, split_append hdot _⟩
  | map hkind hkey => exact ⟨_, split_append hdot _⟩

theorem Offers.field_eq {selector : String} {selection : Selection}
    (h : field.Offers entry selector selection) : selection.field = field := by
  cases h <;> rfl

/-! ### Attributes -/

theorem attributes_of_kind {attributes : List Attribute} (h : field.kind = .composite attributes) :
    field.attributes = attributes := by
  simp [Field.attributes, h]

/-- Each attribute is found by its name if no other one has this name in some case. -/
theorem forall_attribute?_iff :
    (∀ a ∈ field.attributes, field.attribute? a.name = some a) ↔
      ∀ a ∈ field.attributes, ∀ b ∈ field.attributes,
        equalsIgnoringCase a.name b.name = true → a = b := by
  constructor
  · intro h a ha b hb heq
    -- both names find the same attribute
    have hsame : field.attribute? a.name = field.attribute? b.name := by
      simp only [attribute?, equalsIgnoringCase, beq_iff_eq.mp heq]
    have hsome : some a = some b := (h a ha).symm.trans (hsame.trans (h b hb))
    exact Option.some.inj hsome
  · intro h a ha
    have hself : equalsIgnoringCase a.name a.name = true := beq_self_eq_true _
    have hfound : (field.attribute? a.name).isSome := List.find?_isSome.mpr ⟨a, ha, hself⟩
    obtain ⟨b, hb⟩ := Option.isSome_iff_exists.mp hfound
    have heq := List.find?_some hb
    rw [hb, h b (List.mem_of_find?_eq_some hb) a ha heq]

end Field

namespace Schema

variable {schema : Schema} {field : Field} {selector : String} {selection : Selection}

/-- The list of a schema is made of the lists of its fields. -/
theorem mem_selectors_iff {entry : String} :
    entry ∈ schema.selectors ↔ ∃ field ∈ schema.fields, entry ∈ field.selectors := by
  simp only [selectors, List.partition_eq_filter_filter, List.mem_flatMap, List.mem_append,
    List.mem_filter]
  constructor
  · rintro ⟨field, hfield, hentry⟩
    exact ⟨field, hfield.elim And.left And.left, hentry⟩
  · rintro ⟨field, hfield, hentry⟩
    refine ⟨field, ?_, hentry⟩
    rcases Bool.eq_false_or_eq_true field.attributes.isEmpty with h | h
    · exact .inl ⟨hfield, by simp [h]⟩
    · exact .inr ⟨hfield, by simp [h]⟩

/-! ### Selecting by an offer -/

/-- The field that is selected has the first piece of the selector as its name. -/
theorem IsProper.name_of_select (h : schema.IsProper)
    (hselect : schema.select selector = .ok selection) :
    ∃ name segments, split '.' selector = name :: segments ∧
      selection.field.name = upper name := by
  obtain ⟨name, segments, hsplit, hfield⟩ := field?_of_select hselect
  exact ⟨name, segments, hsplit, (h.field?_eq_some_iff.mp hfield).2⟩

/-- A field whose name has a dot is never selected. -/
theorem IsProper.field_of_select (h : schema.IsProper)
    (hselect : schema.select selector = .ok selection) :
    selection.field ∈ schema.fields ∧ '.' ∉ selection.field.name.toList := by
  obtain ⟨name, segments, hsplit, hfound⟩ := field?_of_select hselect
  obtain ⟨hfield, hname⟩ := h.field?_eq_some_iff.mp hfound
  refine ⟨hfield, ?_⟩
  -- the name of the field is the upper case of a piece, and no piece has a dot
  rw [hname, mem_upper_iff (by decide)]
  exact not_mem_of_mem_split (hsplit ▸ List.mem_cons_self)

/-- One attribute is selected by its name if the name has no dot and finds the attribute. -/
theorem select_attribute_iff {name : String} {attributes : List Attribute} {a : Attribute}
    (hname : '.' ∉ name.toList) (hfield : schema.field? name = some field)
    (hkind : field.kind = .composite attributes) :
    schema.select (name ++ "." ++ a.name) =
        .ok ⟨field, field.path.child a.name, a.type, none⟩ ↔
      '.' ∉ a.name.toList ∧ field.attribute? a.name = some a := by
  have hsplit : split '.' (name ++ "." ++ a.name) = name :: split '.' a.name :=
    split_append hname a.name
  constructor
  · intro hselect
    obtain ⟨name', segments, field', hsplit', hfield', hcases⟩ := select_cases hselect
    obtain ⟨rfl, rfl⟩ := List.cons.inj (hsplit.symm.trans hsplit')
    obtain rfl : field = field' := Option.some.inj (hfield.symm.trans hfield')
    rcases hcases with ⟨type, hscalar, -⟩ | ⟨declared, found, -, hfound, hselected⟩ |
      ⟨keyMember, valueMember, type, key, hmap, -⟩
    · simp [hkind] at hscalar
    · obtain ⟨last, hlast, hequal⟩ := Option.map_eq_some_iff.mp hselected
      simp only [Selection.mk.injEq, Path.child, Path.mk.injEq, List.append_cancel_left_eq,
        true_and, and_true] at hequal
      -- the path has grown by one name, so one attribute was found, for one piece
      obtain ⟨b, rfl, hname⟩ := List.map_eq_singleton_iff.mp hequal.1
      obtain rfl : b = last := Option.some.inj hlast
      obtain rfl : b = a := Attribute.ext hname hequal.2
      obtain ⟨piece, hpiece, hattribute⟩ := mapM_eq_some_singleton_iff.mp hfound
      obtain ⟨rfl, hdot⟩ := not_mem_of_split_eq hpiece
      exact ⟨hdot, hattribute⟩
    · simp [hkind] at hmap
  · rintro ⟨hdot, hfound⟩
    rw [split_of_not_mem hdot] at hsplit
    simp [select, hsplit, hfield, hkind, hfound, selectAttributes, Path.child]

/-- The offers of a field of a proper schema hold if the field is readable, and only then. -/
theorem IsProper.forall_offers_iff (h : schema.IsProper) (hfield : field ∈ schema.fields) :
    (∀ entry selector selection, field.Offers entry selector selection →
        schema.select selector = .ok selection) ↔ field.IsReadable := by
  have hdots : '.' ∈ (lower field.name).toList ↔ '.' ∈ field.name.toList :=
    mem_lower_iff (by decide)
  constructor
  · intro hoffers
    -- the field offers something, and what accepts this offer has the name of the field
    obtain ⟨entry, selector, selection, hoffer⟩ := (h.complete field hfield).exists_offers
    have hselect := hoffers entry selector selection hoffer
    obtain ⟨name, segments, hsplit, hname⟩ := h.name_of_select hselect
    obtain ⟨-, hdot⟩ := h.field_of_select hselect
    rw [hoffer.field_eq] at hname hdot
    have hlower : '.' ∉ (lower field.name).toList := fun hmem => hdot (hdots.mp hmem)
    obtain ⟨segments', hsplit'⟩ := hoffer.split_selector hlower
    obtain ⟨rfl, -⟩ := List.cons.inj (hsplit.symm.trans hsplit')
    have hfound : schema.field? (lower field.name) = some field :=
      h.field?_eq_some_iff.mpr ⟨hfield, hname⟩
    -- an attribute is offered too, and the resolution of this offer finds it by name
    have hattributes : ∀ a ∈ field.attributes,
        '.' ∉ a.name.toList ∧ field.attribute? a.name = some a := by
      intro a ha
      cases hkind : field.kind with
      | composite attributes =>
        rw [Field.attributes_of_kind hkind] at ha
        exact (select_attribute_iff hlower hfound hkind).mp
          (hoffers _ _ _ (.composite hkind ha))
      | _ => simp [Field.attributes, hkind] at ha
    exact ⟨hdot, hname.symm, fun a ha => (hattributes a ha).1,
      Field.forall_attribute?_iff.mp fun a ha => (hattributes a ha).2⟩
  · intro hreadable entry selector selection hoffer
    have hlower : '.' ∉ (lower field.name).toList := fun hmem => hreadable.name_dot (hdots.mp hmem)
    have hfound : schema.field? (lower field.name) = some field :=
      h.field?_eq_some_iff.mpr ⟨hfield, hreadable.name_case.symm⟩
    cases hoffer with
    | scalar hkind => simp [select, split_of_not_mem hlower, hfound, hkind]
    | composite hkind ha =>
      rw [← Field.attributes_of_kind hkind] at ha
      exact (select_attribute_iff hlower hfound hkind).mpr
        ⟨hreadable.attribute_dot _ ha,
          Field.forall_attribute?_iff.mpr hreadable.attribute_case _ ha⟩
    -- the name and the key are cut apart at the one dot between them
    | @map keyMember valueMember type key hkind hkey hdot =>
      have hsplit : split '.' (lower field.name ++ "." ++ key) = [lower field.name, key] := by
        rw [← split_of_not_mem hdot]
        exact split_append hlower key
      simp [select, hsplit, hfound, hkind, hkey]

/-- **What the list of selectors is worth.** In a schema that is built, the list is made of the
offers of the fields, and the offers of a field hold if and only if the field is readable. -/
theorem select_offered_iff {entity : String} {fields : List Field}
    (hbuild : build entity fields = .ok schema) :
    (∀ entry, entry ∈ schema.selectors ↔
        ∃ field ∈ schema.fields, ∃ selector selection, field.Offers entry selector selection) ∧
      ∀ field ∈ schema.fields,
        ((∀ entry selector selection, field.Offers entry selector selection →
            schema.select selector = .ok selection) ↔ field.IsReadable) := by
  have hproper := (build_eq_ok_iff_isProper.mp hbuild).2
  refine ⟨fun entry => ?_, fun field hfield => hproper.forall_offers_iff hfield⟩
  rw [mem_selectors_iff]
  exact exists_congr fun field => and_congr_right fun _ => Field.mem_selectors_iff

/-- The version of an assigned distribution set is selected as it is listed. -/
theorem select_offered_iff_target :
    target.select "assignedds.version" =
      .ok ⟨.composite "ASSIGNEDDS" "assignedDistributionSet" distributionSet,
        ⟨["assignedDistributionSet", "version"]⟩, .string, none⟩ := by
  have hfield : Field.composite "ASSIGNEDDS" "assignedDistributionSet" distributionSet ∈
      target.fields := by
    simp [target, ofFields, targetFields]
  refine ((select_offered_iff build_target).2 _ hfield).mpr ?_ "assignedds.version" _ _ ?_
  · exact ⟨by decide, by decide +kernel, by decide, by decide⟩
  · have hversion : ⟨"version", .string⟩ ∈ distributionSet := by simp [distributionSet]
    exact .composite rfl hversion

/-- A field whose name has a dot is listed, and its selector is refused all the same. -/
theorem dotted_name_not_selected :
    build "e" [.scalar "a.b" "x" .string] = .ok (.ofFields "e" [.scalar "a.b" "x" .string]) ∧
      "a.b" ∈ (Schema.ofFields "e" [.scalar "a.b" "x" .string]).selectors ∧
      (Schema.ofFields "e" [.scalar "a.b" "x" .string]).select "a.b" =
        .error (.unsupportedField "a.b" ["a.b"]) :=
  ⟨rfl, by decide, rfl⟩

end Schema

end FilterQuery
