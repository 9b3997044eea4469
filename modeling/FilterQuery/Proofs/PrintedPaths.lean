import FilterQuery.Proofs.AsciiCase
import FilterQuery.Proofs.Backends
import FilterQuery.Proofs.Definitions
import FilterQuery.Proofs.Offers
import FilterQuery.Proofs.PredicateTree
import FilterQuery.Proofs.SingleComparison

/-!
# Paths that are printed

The texts of a predicate write its paths with dots. Such a text is read back as the path if the
path is **printable**, that is, made of **segments**: names that are not empty and have no dot
(`Path.ofText_text_eq_iff`).

* **Fields.** The path of a field is read from a text and so it is printable. But the names of
  attributes and of the members of a map are put behind it as they are declared, and building a
  schema does not look at them.
* **Queries.** The paths in the predicate of a query are those of the selections of its comparisons
  (`Query.path_mem_parts_iff`). This is an equivalence, so it serves both directions of what
  follows: no other path has to be printable, and each of these paths is printed by some query.
* **Definitions.** All paths that are printed are printable if and only if all fields that can be
  selected put segments behind their paths (`SchemaDefinition.forall_ofText_text_eq_iff`). An
  attribute whose name has a dot does no harm, because a selector that would name it is cut at the
  dot. A field whose own name has a dot cannot be selected at all.
-/

namespace FilterQuery

open Text

/-! ### Texts of paths -/

namespace Path

variable {path : Path} {dotted name : String}

/-- A name that takes one place in the text of a path. -/
def IsSegment (name : String) : Prop := name ≠ "" ∧ '.' ∉ name.toList

/-- A path whose text shows where its names begin and end. -/
def IsPrintable (path : Path) : Prop := ∀ segment ∈ path.segments, IsSegment segment

theorem isPrintable_ofText (dotted : String) : (ofText dotted).IsPrintable := fun _ hsegment =>
  ⟨ne_empty_of_mem_ofText hsegment, not_mem_of_mem_split (List.mem_filter.mp hsegment).1⟩

theorem isPrintable_child_iff :
    (path.child name).IsPrintable ↔ path.IsPrintable ∧ IsSegment name := by
  simp only [IsPrintable, segments_child, List.forall_mem_append, List.forall_mem_singleton]

/-- A path is read back from its text if it is printable, and only then. -/
theorem ofText_text_eq_iff : ofText path.text = path ↔ path.IsPrintable := by
  constructor
  · intro h
    exact h ▸ isPrintable_ofText path.text
  · intro h
    rcases path with ⟨segments⟩
    cases segments with
    | nil => rfl
    | cons first rest =>
      have hsplit : split '.' (join "." (first :: rest)) = first :: rest :=
        split_join (List.cons_ne_nil _ _) fun segment hsegment => (h segment hsegment).2
      have hfilter : (first :: rest).filter (· ≠ "") = first :: rest :=
        List.filter_eq_self.mpr fun segment hsegment => decide_eq_true (h segment hsegment).1
      rw [ofText, text, hsplit, hfilter]

end Path

/-! ### Paths of predicates -/

/-- The paths in the condition of a selection: to the values and, in a map, to its entries and
their keys. -/
def Selection.paths (selection : Selection) : List Path :=
  match selection.key? with
  | some key => [selection.path, key.path, selection.valuePath]
  | none => [selection.valuePath]

/-- The operation of an operator is on the values at the given path and at no other. -/
theorem Operator.path_mem_parts_iff {op : Operator} {path other : Path} {values : List Value}
    {p : Predicate} (h : op.operation? .standard path values = some p) :
    .path other ∈ p.parts ↔ other = path := by
  unfold operation? at h
  split at h
  all_goals cases h
  case h_1 value =>
    unfold Backend.same
    split <;> simp [Backend.standard, Backend.matching, Predicate.parts]
  all_goals simp [Backend.standard, Backend.matching, Predicate.parts]

variable {schema : Schema} {c : Comparison} {query : Query} {path : Path}

/-- The paths in the condition of a comparison are those of its selection. -/
theorem Comparison.path_mem_parts_iff {p : Predicate}
    (h : c.compile .standard schema = .ok (some p)) :
    .path path ∈ p.parts ↔
      ∃ selection, schema.select c.selector = .ok selection ∧ path ∈ selection.paths := by
  obtain ⟨selection, values, hselect, -, -, hcompiled⟩ := compile_eq_ok_iff.mp h
  obtain ⟨test, htest, rfl⟩ := Option.map_eq_some_iff.mp hcompiled.symm
  have hpath : .path path ∈ (Backend.standard.bindEntry selection test).parts ↔
      path ∈ selection.paths := by
    unfold Backend.bindEntry Selection.paths
    cases selection.key? with
    | none => simpa using Operator.path_mem_parts_iff htest
    | some key =>
      simp [Backend.standard, Predicate.parts, Predicate.partsOf,
        Operator.path_mem_parts_iff htest]
  simp [hpath, hselect]

namespace Query

/-- A comparison of the query with a known operator looks along the path. -/
def Uses (schema : Schema) (query : Query) (path : Path) : Prop :=
  ∃ c ∈ query.leaves, c.operator.isOther = false ∧
    ∃ selection, schema.select c.selector = .ok selection ∧ path ∈ selection.paths

theorem exists_mem_singleton_uses_iff :
    (∃ member ∈ [query], member.Uses schema path) ↔ query.Uses schema path := by
  simp only [List.mem_singleton, exists_eq_left]

/-- A group uses the paths that its members use. -/
theorem uses_iff_of_leaves {members : List Query} (h : query.leaves = leavesOf members) :
    query.Uses schema path ↔ ∃ member ∈ members, member.Uses schema path := by
  simp only [Uses, h, leavesOf_eq_flatMap, List.mem_flatMap]
  constructor
  · rintro ⟨c, ⟨member, hmember, hc⟩, huses⟩
    exact ⟨member, hmember, c, hc, huses⟩
  · rintro ⟨member, hmember, c, hc, huses⟩
    exact ⟨c, ⟨member, hmember, hc⟩, huses⟩

/-- The paths in the conditions of a query are those that it uses. -/
theorem path_mem_flatMap_iff {predicates : List Predicate}
    (h : query.conditions .standard schema = .ok predicates) :
    .path path ∈ predicates.flatMap Predicate.parts ↔ query.Uses schema path := by
  rw [← exists_mem_singleton_uses_iff]
  -- the statement is about lists of queries, so that the members of a group are an instance
  refine conditions_induction (motive := fun queries predicates =>
    .path path ∈ predicates.flatMap Predicate.parts ↔
      ∃ member ∈ queries, member.Uses schema path) ?nil ?cons ?comparison ?and ?or h
  case nil => simp
  case cons =>
    intro member members first rest hfirst hrest
    rw [List.flatMap_append, List.mem_append, hfirst, hrest, exists_mem_singleton_uses_iff,
      List.exists_mem_cons_iff]
  case comparison =>
    intro c compiled hcompiled
    have hknown := Comparison.isSome_of_compile hcompiled
    -- a comparison that compiles to nothing has an unknown operator and uses no path
    cases compiled with
    | none =>
      have hop : c.operator.isOther = true := by simpa using hknown.symm
      simp [Uses, leaves, hop]
    | some p =>
      have hop : c.operator.isOther = false := by simpa using hknown
      simp [Uses, leaves, hop, Comparison.path_mem_parts_iff hcompiled]
  case and =>
    intro members contributed hmembers
    rw [List.flatMap_singleton, exists_mem_singleton_uses_iff, uses_iff_of_leaves rfl, ← hmembers]
    exact iff_of_eq (congrArg _ (group_eq_flatMap rfl Predicate.parts_and contributed))
  case or =>
    intro members contributed hmembers
    rw [List.flatMap_singleton, exists_mem_singleton_uses_iff, uses_iff_of_leaves rfl, ← hmembers]
    exact iff_of_eq (congrArg _ (group_eq_flatMap rfl Predicate.parts_or contributed))

/-- The paths in the predicate of a query are those that it uses. -/
theorem path_mem_parts_iff {p : Predicate} (h : query.compile .standard schema = .ok p) :
    .path path ∈ p.parts ↔ query.Uses schema path := by
  obtain ⟨predicates, hpredicates, h⟩ := bind_eq_ok_iff.mp h
  rw [← path_mem_flatMap_iff hpredicates]
  split at h
  · cases h
    rw [List.flatMap_singleton]
  · cases h
    exact iff_of_eq (congrArg _ (group_eq_flatMap rfl Predicate.parts_and predicates))

end Query

/-!
### Names behind the path of a field

The path of a field is read from a text and is printable by itself. What a selection puts behind it
are names from the schema, each taken as one name whatever characters it has.
-/

/-- A field that puts segments behind its path. An attribute whose name has a dot is never put
there. -/
structure Field.IsPrintable (field : Field) : Prop where
  attribute_name : ∀ a ∈ field.attributes, a.name ≠ ""
  keyMember : ∀ member ∈ field.keyMember?, Path.IsSegment member
  valueMember : ∀ member ∈ field.valueMember?, Path.IsSegment member

theorem mem_asciiLower_iff {mark : Char} (hmark : mark.isAlpha = false) {s : String} :
    mark ∈ (asciiLower s).toList ↔ mark ∈ s.toList := by
  simp only [toList_asciiLower, List.mem_map, toLower_eq_iff hmark, exists_eq_right]

/-- The attribute that a name finds has this name in some case. -/
theorem Field.of_attribute?_eq_some {field : Field} {name : String} {a : Attribute}
    (h : field.attribute? name = some a) :
    a ∈ field.attributes ∧ asciiLower a.name = asciiLower name :=
  ⟨List.mem_of_find?_eq_some h, equalsIgnoringCase_iff.mp (by simpa using List.find?_some h)⟩

namespace Schema

variable {selector : String} {selection : Selection} {field : Field}

/-- The paths of a selection are printable if the path of its field is, and the field puts segments
behind it. -/
theorem isPrintable_of_select (h : schema.select selector = .ok selection)
    (hpath : selection.field.path.IsPrintable) (hfield : selection.field.IsPrintable) :
    ∀ path ∈ selection.paths, path.IsPrintable := by
  obtain ⟨name, segments, field, hsplit, -, hcases⟩ := select_cases h
  rcases hcases with ⟨type, hkind, -, rfl⟩ | ⟨declared, attributes, hkind, hfound, hselected⟩ |
    ⟨keyMember, valueMember, type, key, hkind, -, -, rfl⟩
  · simpa [Selection.paths, Selection.valuePath, Field.valueMember?, hkind] using hpath
  · obtain ⟨last, -, rfl⟩ := Option.map_eq_some_iff.mp hselected
    have hattributes : ∀ name ∈ attributes.map Attribute.name, Path.IsSegment name := by
      refine List.forall_mem_map.mpr fun a ha => ?_
      obtain ⟨piece, hpiece, ha⟩ := exists_mem_of_mapM_eq_some hfound ha
      obtain ⟨hmem, hname⟩ := Field.of_attribute?_eq_some ha
      refine ⟨hfield.attribute_name a hmem, ?_⟩
      -- the name is a piece of the selector but for the case of its letters
      rw [← mem_asciiLower_iff rfl, hname, mem_asciiLower_iff rfl]
      exact not_mem_of_mem_split (hsplit ▸ List.mem_cons_of_mem _ hpiece)
    have happend : Path.IsPrintable ⟨field.path.segments ++ attributes.map Attribute.name⟩ :=
      List.forall_mem_append.mpr ⟨hpath, hattributes⟩
    simpa [Selection.paths, Selection.valuePath, Field.valueMember?, hkind] using happend
  · have hkey : (field.path.child keyMember).IsPrintable :=
      Path.isPrintable_child_iff.mpr ⟨hpath, hfield.keyMember _ (by simp [Field.keyMember?, hkind])⟩
    have hvalue : (Selection.valuePath ⟨field, field.path, type,
        some ⟨field.path.child keyMember, key⟩⟩).IsPrintable := by
      unfold Selection.valuePath
      split
      · next member hmember =>
        exact Path.isPrintable_child_iff.mpr ⟨hpath, hfield.valueMember _ hmember⟩
      · exact hpath
    simp only [Selection.paths, List.forall_mem_cons]
    exact ⟨hpath, hkey, hvalue, List.forall_mem_nil _⟩

/-- If the paths of all selections are printable, then a field that can be selected puts segments
behind its path. -/
theorem IsProper.isPrintable_of_forall_select (hproper : schema.IsProper)
    (hfield : field ∈ schema.fields) (hdot : '.' ∉ field.name.toList)
    (h : ∀ selector selection, schema.select selector = .ok selection →
      ∀ path ∈ selection.paths, path.IsPrintable) : field.IsPrintable := by
  have hlabel : '.' ∉ field.label.toList := fun hmem =>
    hdot ((mem_upper_iff (by decide)).mpr hmem)
  have hfound : schema.field? field.label = some field :=
    hproper.field?_eq_some_iff.mpr ⟨hfield, rfl⟩
  cases hkind : field.kind with
  | scalar type =>
    constructor <;> simp [Field.attributes, Field.keyMember?, Field.valueMember?, hkind]
  | composite attributes =>
    refine ⟨fun a ha hempty => ?_, by simp [Field.keyMember?, hkind],
      by simp [Field.valueMember?, hkind]⟩
    -- the first attribute without a name is selected by the name of the field and a dot
    have hsome : (field.attribute? a.name).isSome :=
      List.find?_isSome.mpr ⟨a, ha, equalsIgnoringCase_iff.mpr rfl⟩
    obtain ⟨b, hb⟩ := Option.isSome_iff_exists.mp hsome
    have hname : b.name = "" := by
      simpa [hempty, asciiLower] using (Field.of_attribute?_eq_some hb).2
    have hselect : schema.select (field.label ++ "." ++ b.name) =
        .ok ⟨field, field.path.child b.name, b.type, none⟩ :=
      (select_attribute_iff hlabel hfound hkind).mpr
        ⟨by simp [hname], by rwa [hname, ← hempty]⟩
    have hpath : (field.path.child b.name).IsPrintable := h _ _ hselect _
      (by simp [Selection.paths, Selection.valuePath, Field.valueMember?, hkind])
    exact (Path.isPrintable_child_iff.mp hpath).2.1 hname
  | map keyMember valueMember type =>
    have hselect : schema.select (field.label ++ "." ++ "k") =
        .ok ⟨field, field.path, type, some ⟨field.path.child keyMember, "k"⟩⟩ := by
      have hsplit : split '.' (field.label ++ "." ++ "k") = [field.label, "k"] :=
        split_append hlabel "k"
      simp [select, hsplit, hfound, hkind]
    have hpaths := h _ _ hselect
    simp only [Selection.paths, List.forall_mem_cons] at hpaths
    obtain ⟨-, hkey, hvalue, -⟩ := hpaths
    refine ⟨by simp [Field.attributes, hkind], ?_, ?_⟩
    · simpa [Field.keyMember?, hkind] using (Path.isPrintable_child_iff.mp hkey).2
    · intro member hmember
      simp only [Selection.valuePath, Option.mem_def.mp hmember] at hvalue
      exact (Path.isPrintable_child_iff.mp hvalue).2

end Schema

/-! ### Queries along the paths of a selection -/

/-- Without a converter, some argument can be put in an ordering. -/
theorem Selection.exists_coerceOrdered {selection : Selection}
    (hconverter : selection.field.converter = none) (selector : String) :
    ∃ argument value, selection.coerceOrdered selector argument = .ok value := by
  unfold coerceOrdered
  rw [hconverter]
  cases selection.type with
  | boolean => exact ⟨"true", .boolean true, rfl⟩
  | int32 => exact ⟨"0", .int32 0, rfl⟩
  | int64 => exact ⟨"0", .int64 0, rfl⟩
  | float64 => exact ⟨"0", _, rfl⟩
  | string => exact ⟨"", _, rfl⟩
  | enumeration type => exact ⟨"", _, rfl⟩

/-- Each path of a selection without a converter is in the predicate of some query. -/
theorem Query.exists_compile_paths {selector : String} {selection : Selection}
    (hselect : schema.select selector = .ok selection)
    (hconverter : selection.field.converter = none) :
    ∃ query p, Query.compile .standard schema query = .ok p ∧
      ∀ path ∈ selection.paths, .path path ∈ p.parts := by
  obtain ⟨argument, value, hvalue⟩ := Selection.exists_coerceOrdered hconverter selector
  have hread : Comparison.read ⟨selector, .greater, [argument]⟩ selection argument = .ok value :=
    hvalue
  obtain ⟨p, hcompile, -⟩ := exists_compile_single hselect (.inr (.inr rfl)) hread
  exact ⟨_, p, hcompile, fun path hpath => (path_mem_parts_iff hcompile).mpr
    ⟨_, List.mem_singleton_self _, rfl, selection, hselect, hpath⟩⟩

namespace SchemaDefinition

variable {definition : SchemaDefinition}

/-- **Printed paths.** In the predicates of the queries that compile against a schema, every path
is read back from its text if and only if each field whose name has no dot puts segments behind its
path: its attributes have names, and its key and value members have names without dots. -/
theorem forall_ofText_text_eq_iff (h : definition.toSchema = .ok schema) :
    (∀ query p, Query.compile .standard schema query = .ok p →
        ∀ path, .path path ∈ p.parts → Path.ofText path.text = path) ↔
      ∀ field ∈ schema.fields, '.' ∉ field.name.toList → field.IsPrintable := by
  have hproper := isProper_of_toSchema h
  have hdefined : ∀ field ∈ schema.fields, field.path.IsPrintable ∧ field.converter = none := by
    obtain ⟨-, rfl⟩ := toSchema_eq_ok_iff.mp h
    exact List.forall_mem_map.mpr fun field _ => ⟨Path.isPrintable_ofText field.path, rfl⟩
  constructor
  · intro hprinted field hfield hdot
    refine hproper.isPrintable_of_forall_select hfield hdot fun selector selection hselect => ?_
    obtain ⟨query, p, hcompile, hpaths⟩ :=
      Query.exists_compile_paths hselect (hdefined _ (hproper.field_of_select hselect).1).2
    intro path hpath
    exact Path.ofText_text_eq_iff.mp (hprinted query p hcompile path (hpaths path hpath))
  · intro hprintable query p hcompile path hpath
    obtain ⟨c, -, -, selection, hselect, hmem⟩ := (Query.path_mem_parts_iff hcompile).mp hpath
    obtain ⟨hfield, hdot⟩ := hproper.field_of_select hselect
    exact Path.ofText_text_eq_iff.mpr
      (Schema.isPrintable_of_select hselect (hdefined _ hfield).1 (hprintable _ hfield hdot)
        path hmem)

/-- The members of the entries of a map are segments, so all paths into the map are read back. -/
theorem forall_ofText_text_eq_iff_map :
    (SchemaDefinition.mk "target" [⟨"meta", "info..metadata", .int64, [],
        some ⟨"key", some "value"⟩⟩]).toSchema =
      .ok (.ofFields "target" [.map "meta" "info.metadata" "key" (some "value") .int64]) ∧
    ∀ query p, Query.compile .standard
        (.ofFields "target" [.map "meta" "info.metadata" "key" (some "value") .int64]) query =
          .ok p →
      ∀ path, .path path ∈ p.parts → Path.ofText path.text = path := by
  have hschema : (SchemaDefinition.mk "target" [⟨"meta", "info..metadata", .int64, [],
        some ⟨"key", some "value"⟩⟩]).toSchema =
      .ok (.ofFields "target" [.map "meta" "info.metadata" "key" (some "value") .int64]) := rfl
  refine ⟨hschema, (forall_ofText_text_eq_iff hschema).mpr ?_⟩
  refine List.forall_mem_singleton.mpr fun _ => ⟨by decide, ?_, ?_⟩
  · rintro _ ⟨⟩
    exact ⟨by decide, by decide⟩
  · rintro _ ⟨⟩
    exact ⟨by decide, by decide⟩

/-- A key member with a dot in its name makes a schema, in which the text of the path to the keys
is that of another path. -/
theorem dotted_member_not_readBack :
    (SchemaDefinition.mk "e" [⟨"meta", "meta", .string, [],
        some ⟨"key.name", some "value"⟩⟩]).toSchema =
      .ok (.ofFields "e" [.map "meta" "meta" "key.name" (some "value") .string]) ∧
    Query.compile .standard (.ofFields "e" [.map "meta" "meta" "key.name" (some "value") .string])
        (.comparison ⟨"meta.k", .equal, ["v"]⟩) =
      .ok (.entry ⟨["meta"]⟩ (.and [.equal ⟨["meta", "key.name"]⟩ (.string "k"),
        .like ⟨["meta", "value"]⟩ "V"])) ∧
    Path.ofText (Path.text ⟨["meta", "key.name"]⟩) = ⟨["meta", "key", "name"]⟩ :=
  ⟨rfl, rfl, by decide⟩

end SchemaDefinition

end FilterQuery
