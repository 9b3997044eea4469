import FilterQuery.Proofs.Building
import FilterQuery.Proofs.LetterCase
import FilterQuery.Proofs.Selection
import FilterQuery.Schema.Builtin

/-!
# The rule of selectors

A selector is cut at its dots. The first piece names a field, whatever the case of its letters, and
the other pieces say what of the field is selected: nothing more of a scalar field, attributes of a
composite one, a key of a map (`Field.Yields`). Where the pieces yield nothing, the selector is
rejected, and the rejection tells whether the field is a map (`Schema.Resolves`).

In a schema that is built, this rule is what selecting does (`Schema.select_eq_iff_resolves`).

* **Pieces.** `Field.Yields` has a constructor for each kind of field. The attributes of a composite
  field are the first ones of their names, one for each piece, and the last of them has the type of
  the selection; its path goes through all of them.
* **Fields.** In a proper schema a field is the only one of its name, so the rule can speak of the
  field of that name without an order of the fields.
* **Rejections** list what the schema has, all of it, whatever the selector.
* **Letter case.** All names in the path of a selection are as they are declared, so the path does
  not depend on the case of the letters in the selector (`SameLetters.toOption_select_eq`).
-/

namespace FilterQuery

open Text

/-! ### What the pieces behind a name yield -/

namespace Field

variable {field : Field} {name : String} {segments : List String} {selection : Selection}

/-- The first attribute of the field that has the name up to the case of ASCII letters. -/
def FirstNamed (field : Field) (name : String) (a : Attribute) : Prop :=
  ∃ before after, field.attributes = before ++ a :: after ∧
    asciiLower a.name = asciiLower name ∧ ∀ b ∈ before, asciiLower b.name ≠ asciiLower name

/-- What the pieces behind the name of a field select. The path and the type of a composite field
go from attribute to attribute, and the last one decides the type. -/
inductive Yields (field : Field) : List String → Selection → Prop where
  | scalar {type : ValueType} (hkind : field.kind = .scalar type) :
      Yields field [] ⟨field, field.path, type, none⟩
  | composite {attributes : List Attribute} {segments : List String} {chosen : List Attribute}
      {last : Attribute} (hkind : field.kind = .composite attributes)
      (hchosen : List.Forall₂ field.FirstNamed segments (chosen ++ [last])) :
      Yields field segments
        ⟨field, ⟨field.path.segments ++ (chosen ++ [last]).map Attribute.name⟩, last.type, none⟩
  | map {keyMember : String} {valueMember : Option String} {type : ValueType} {key : String}
      (hkind : field.kind = .map keyMember valueMember type) (hkey : key ≠ "") :
      Yields field [key] ⟨field, field.path, type, some ⟨field.path.child keyMember, key⟩⟩

/-- The attribute that is found is the first one of its name. -/
theorem attribute?_eq_some_iff {a : Attribute} :
    field.attribute? name = some a ↔ field.FirstNamed name a := by
  have hsame : ∀ b : Attribute, equalsIgnoringCase b.name name = false ↔
      asciiLower b.name ≠ asciiLower name := fun b => by
    rw [← Bool.not_eq_true, equalsIgnoringCase_iff]
  simp only [attribute?, List.find?_eq_some_iff_append, equalsIgnoringCase_iff, Bool.not_eq_true',
    hsame, FirstNamed]
  constructor
  · rintro ⟨hname, before, after, hattributes, hbefore⟩
    exact ⟨before, after, hattributes, hname, hbefore⟩
  · rintro ⟨before, after, hattributes, hname, hbefore⟩
    exact ⟨hname, before, after, hattributes, hbefore⟩

theorem mapM_attribute?_eq_some_iff {attributes : List Attribute} :
    segments.mapM field.attribute? = some attributes ↔
      List.Forall₂ field.FirstNamed segments attributes := by
  simp only [mapM_eq_some_iff, attribute?_eq_some_iff]

/-- The pieces of a composite field yield what their attributes select. -/
theorem yields_composite_iff {attributes : List Attribute}
    (hkind : field.kind = .composite attributes) :
    field.Yields segments selection ↔
      (segments.mapM field.attribute?).bind (Schema.selectAttributes field) = some selection := by
  simp only [Option.bind_eq_some_iff, mapM_attribute?_eq_some_iff, Schema.selectAttributes,
    Option.map_eq_some_iff, List.getLast?_eq_some_iff]
  constructor
  · intro h
    cases h with
    | scalar hscalar => simp [hkind] at hscalar
    | composite _ hchosen => exact ⟨_, hchosen, _, ⟨_, rfl⟩, rfl⟩
    | map hmap => simp [hkind] at hmap
  · rintro ⟨_, hchosen, last, ⟨chosen, rfl⟩, rfl⟩
    exact .composite hkind hchosen

/-- Pieces that agree up to the case of ASCII letters yield selections along the same path. -/
theorem Yields.exists_of_map_asciiLower_eq {segments' : List String}
    (h : field.Yields segments selection)
    (hsegments : segments.map asciiLower = segments'.map asciiLower) :
    ∃ other, field.Yields segments' other ∧ other.path = selection.path := by
  cases h with
  | scalar hkind =>
    obtain rfl : segments' = [] := List.map_eq_nil_iff.mp hsegments.symm
    exact ⟨_, .scalar hkind, rfl⟩
  | composite hkind hchosen =>
    rw [← mapM_attribute?_eq_some_iff, mapM_attribute?_eq hsegments,
      mapM_attribute?_eq_some_iff] at hchosen
    exact ⟨_, .composite hkind hchosen, rfl⟩
  | @map keyMember valueMember type key hkind hkey =>
    obtain ⟨key', rfl, hkey'⟩ := List.map_eq_singleton_iff.mp hsegments.symm
    refine ⟨_, .map hkind ?_, rfl⟩
    rintro rfl
    exact hkey (by simpa [asciiLower, String.ofList_inj] using hkey'.symm)

end Field

/-! ### What a selector resolves to -/

namespace Schema

variable {schema : Schema} {field : Field} {selector name : String} {segments : List String}
  {selection : Selection} {answer : Except Rejection Selection}

/-- What a selector means, or why it is rejected. -/
inductive Resolves (schema : Schema) (selector : String) : Except Rejection Selection → Prop where
  /-- No field has the name. -/
  | unknown {name : String} {segments : List String}
      (hsplit : split '.' selector = name :: segments)
      (hname : ∀ field ∈ schema.fields, field.name ≠ upper name) :
      Resolves schema selector (.error (.unsupportedField selector schema.selectors))
  | selected {name : String} {segments : List String} {field : Field} {selection : Selection}
      (hsplit : split '.' selector = name :: segments) (hfield : field ∈ schema.fields)
      (hname : field.name = upper name) (h : field.Yields segments selection) :
      Resolves schema selector (.ok selection)
  /-- A map is selected otherwise than by one key. -/
  | malformed {name : String} {segments : List String} {field : Field}
      (hsplit : split '.' selector = name :: segments) (hfield : field ∈ schema.fields)
      (hname : field.name = upper name) (hmap : field.isMap = true)
      (h : ∀ selection, ¬ field.Yields segments selection) :
      Resolves schema selector (.error (.malformedMapSelector selector))
  /-- Attributes are missing, or there are pieces that are not attributes. -/
  | unsupported {name : String} {segments : List String} {field : Field}
      (hsplit : split '.' selector = name :: segments) (hfield : field ∈ schema.fields)
      (hname : field.name = upper name) (hmap : field.isMap = false)
      (h : ∀ selection, ¬ field.Yields segments selection) :
      Resolves schema selector (.error (.unsupportedField selector schema.selectors))

/-- The rejection of a selector that names a field but selects nothing of it. -/
def refusal (schema : Schema) (field : Field) (selector : String) : Rejection :=
  if field.isMap then .malformedMapSelector selector else schema.unsupported selector

/-- A selector that names no field is not supported. -/
theorem select_of_unknown (hsplit : split '.' selector = name :: segments)
    (hfound : schema.field? name = none) :
    schema.select selector = .error (schema.unsupported selector) := by
  simp only [select, hsplit, hfound]

/-- Once its field is found, a selector means what the pieces behind the name yield. -/
theorem select_of_yields (hsplit : split '.' selector = name :: segments)
    (hfound : schema.field? name = some field) (h : field.Yields segments selection) :
    schema.select selector = .ok selection := by
  unfold select
  simp only [hsplit, hfound]
  cases h with
  | scalar hkind => simp only [hkind, List.isEmpty_nil, if_true]
  | composite hkind hchosen =>
    have hsome := (Field.yields_composite_iff hkind).mp (.composite hkind hchosen)
    simp only [hkind, hsome]
  | map hkind hkey => simp only [hkind, if_neg hkey]

/-- If the pieces yield nothing, the field refuses the selector. -/
theorem select_of_not_yields (hsplit : split '.' selector = name :: segments)
    (hfound : schema.field? name = some field)
    (h : ∀ selection, ¬ field.Yields segments selection) :
    schema.select selector = .error (schema.refusal field selector) := by
  unfold select refusal Field.isMap
  simp only [hsplit, hfound]
  cases hkind : field.kind with
  | scalar type =>
    -- a scalar field is refused for the further segments only
    have hmore : segments.isEmpty = false := by
      refine Bool.eq_false_iff.mpr fun hempty => ?_
      obtain rfl := List.isEmpty_iff.mp hempty
      exact h _ (.scalar hkind)
    simp [hmore]
  | composite attributes =>
    have hnone : (segments.mapM field.attribute?).bind (selectAttributes field) = none :=
      Option.eq_none_iff_forall_ne_some.mpr fun selection hsome =>
        h selection ((Field.yields_composite_iff hkind).mpr hsome)
    simp [hnone]
  | map keyMember valueMember type =>
    simp only [if_true]
    split
    · next key =>
      -- a map is refused a key only if this is empty
      have hkey : key = "" := by
        by_contra hkey
        exact h _ (.map hkind hkey)
      rw [if_pos hkey]
    · rfl

/-- Every selector resolves to what selecting gives. -/
theorem IsProper.resolves_select (h : schema.IsProper) (selector : String) :
    schema.Resolves selector (schema.select selector) := by
  obtain ⟨name, segments, hsplit⟩ := List.exists_cons_of_ne_nil (split_ne_nil '.' selector)
  cases hfound : schema.field? name with
  | none =>
    have hname : ∀ field ∈ schema.fields, field.name ≠ upper name := fun field hfield heq => by
      simp [h.field?_eq_some_iff.mpr ⟨hfield, heq⟩] at hfound
    rw [select_of_unknown hsplit hfound]
    exact .unknown hsplit hname
  | some field =>
    obtain ⟨hfield, hname⟩ := h.field?_eq_some_iff.mp hfound
    by_cases hyields : ∃ selection, field.Yields segments selection
    · obtain ⟨selection, hyields⟩ := hyields
      rw [select_of_yields hsplit hfound hyields]
      exact .selected hsplit hfield hname hyields
    · rw [not_exists] at hyields
      rw [select_of_not_yields hsplit hfound hyields, refusal]
      cases hmap : field.isMap with
      | true => exact .malformed hsplit hfield hname hmap hyields
      | false => exact .unsupported hsplit hfield hname hmap hyields

/-- The rule leaves one answer to every selector. -/
theorem IsProper.select_eq_of_resolves (h : schema.IsProper)
    (hresolves : schema.Resolves selector answer) : schema.select selector = answer := by
  cases hresolves with
  | @unknown name segments hsplit hname =>
    have hfound : schema.field? name = none :=
      Option.eq_none_iff_forall_ne_some.mpr fun field hfound =>
        hname field (h.field?_eq_some_iff.mp hfound).1 (h.field?_eq_some_iff.mp hfound).2
    exact select_of_unknown hsplit hfound
  | selected hsplit hfield hname hyields =>
    exact select_of_yields hsplit (h.field?_eq_some_iff.mpr ⟨hfield, hname⟩) hyields
  | malformed hsplit hfield hname hmap hnone =>
    rw [select_of_not_yields hsplit (h.field?_eq_some_iff.mpr ⟨hfield, hname⟩) hnone, refusal,
      if_pos hmap]
  | unsupported hsplit hfield hname hmap hnone =>
    rw [select_of_not_yields hsplit (h.field?_eq_some_iff.mpr ⟨hfield, hname⟩) hnone, refusal,
      hmap]
    rfl

/-! ### Letter case -/

/-- The selectors name a field by the same letters, and go on with the same letters up to the case
of those in ASCII. -/
def SameLetters (s t : String) : Prop :=
  ∃ name segments name' segments', split '.' s = name :: segments ∧
    split '.' t = name' :: segments' ∧ upper name = upper name' ∧
    segments.map asciiLower = segments'.map asciiLower

/-- Selectors of the same letters select along the same path, or both select nothing. -/
theorem SameLetters.toOption_select_eq {s t : String} (h : SameLetters s t) :
    (schema.select s).toOption.map Selection.path =
      (schema.select t).toOption.map Selection.path := by
  obtain ⟨name, segments, name', segments', hs, ht, hname, hsegments⟩ := h
  have hfield : schema.field? name = schema.field? name' := by
    rw [field?_eq_find?, field?_eq_find?, hname]
  cases hfound : schema.field? name with
  | none =>
    rw [select_of_unknown hs hfound, select_of_unknown ht (hfield ▸ hfound)]
    rfl
  | some field =>
    by_cases hyields : ∃ selection, field.Yields segments selection
    · obtain ⟨selection, hyields⟩ := hyields
      obtain ⟨other, hother, hpath⟩ := hyields.exists_of_map_asciiLower_eq hsegments
      rw [select_of_yields hs hfound hyields, select_of_yields ht (hfield ▸ hfound) hother]
      exact congrArg some hpath.symm
    · -- what the other segments lead to, these lead to as well
      have hnone : ∀ selection, ¬ field.Yields segments' selection := by
        intro selection hselection
        obtain ⟨other, hother, -⟩ := hselection.exists_of_map_asciiLower_eq hsegments.symm
        exact hyields ⟨other, hother⟩
      rw [select_of_not_yields hs hfound (not_exists.mp hyields),
        select_of_not_yields ht (hfield ▸ hfound) hnone]
      rfl

/-- **The rule of selectors.** In a schema that is built no two fields share a name, every selector
means what it resolves to and is rejected as the rule has it, and selectors of the same letters
select along the same path. -/
theorem select_eq_iff_resolves {entity : String} {fields : List Field}
    (hbuild : build entity fields = .ok schema) :
    (∀ f ∈ schema.fields, ∀ g ∈ schema.fields, f.name = g.name → f = g) ∧
      (∀ selector answer, schema.select selector = answer ↔ schema.Resolves selector answer) ∧
      ∀ s t, SameLetters s t → (schema.select s).toOption.map Selection.path =
        (schema.select t).toOption.map Selection.path := by
  have hproper := (build_eq_ok_iff_isProper.mp hbuild).2
  refine ⟨?_, fun selector answer => ⟨?_, hproper.select_eq_of_resolves⟩, fun s t h => ?_⟩
  · exact fun f hf g hg hname => List.inj_on_of_nodup_map hproper.nodup hf hg hname
  · rintro rfl
    exact hproper.resolves_select selector
  · exact h.toOption_select_eq

/-- Attributes below each other are selected in any letter case and spelt as they are declared, and
a map is not selected by two keys. -/
theorem select_eq_iff_resolves_target :
    build "target" targetFields = .ok target ∧
      target.Resolves "assignedDS.NAME.Version" (.ok
        ⟨.composite "ASSIGNEDDS" "assignedDistributionSet" distributionSet,
          ⟨["assignedDistributionSet", "name", "version"]⟩, .string, none⟩) ∧
      target.Resolves "attribute.k.x" (.error (.malformedMapSelector "attribute.k.x")) ∧
      (target.select "METADATA.K").toOption.map Selection.path =
        (target.select "metadata.k").toOption.map Selection.path := by
  obtain ⟨-, hselect, hcase⟩ := select_eq_iff_resolves build_target
  exact ⟨build_target, (hselect _ _).mp rfl, (hselect _ _).mp rfl,
    hcase _ _ ⟨"METADATA", ["K"], "metadata", ["k"], rfl, rfl, by decide, by decide⟩⟩

end Schema

end FilterQuery
