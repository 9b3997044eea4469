import FilterQuery.Proofs.LoweredQueries
import FilterQuery.Proofs.Failure

/-!
# What letter case has no influence on

Field names, attributes, constants, truth values, numbers and patterns do not depend on the case of
ASCII letters, while the keys of map fields, converters and the texts that orderings and memberships
compare do. Comparisons that **agree in** the latter and otherwise differ in letter case compile to
the same condition, or both to none (`toOption_compile_eq`), and so do the queries made of them.

Rejections quote the text as it was written, so the results are compared without their errors.

* **Selectors** that differ in letter case select the same field, path and type. The key of a map is
  part of what is selected, so it has to agree.
* **Arguments.** What a type reads of an argument is known up to the letters of a text
  (`Value.asciiLower`), and equality and patterns do not look at these. The name of the selector
  appears in the error only.
* **Queries** of one shape are compared leaf by leaf. Scanning and parsing commute with lowering, so
  texts that differ in letter case are of one shape to begin with
  (`Query.compileText_eq_ok_iff_of_asciiLower_eq`).
-/

namespace FilterQuery

open Text

/-!
### Selections

The name of a field and those of its attributes are compared without regard to ASCII case, so the
one part of a selector whose spelling counts is the key of a map.
-/

theorem Field.attribute?_asciiLower (field : Field) (name : String) :
    field.attribute? (asciiLower name) = field.attribute? name := by
  simp only [attribute?, equalsIgnoringCase_asciiLower]

/-- Names that agree up to the case of ASCII letters find the same attributes. -/
theorem Field.mapM_attribute?_eq {field : Field} {names names' : List String}
    (h : names.map asciiLower = names'.map asciiLower) :
    names.mapM field.attribute? = names'.mapM field.attribute? := by
  have hsame : ∀ names : List String,
      (names.map asciiLower).mapM field.attribute? = names.mapM field.attribute? := by
    intro names
    rw [List.mapM_map]
    simp only [Function.comp_def, field.attribute?_asciiLower]
  rw [← hsame names, h, hsame]

namespace Schema

variable {schema : Schema} {s t : String}

theorem field?_asciiLower (schema : Schema) (name : String) :
    schema.field? (asciiLower name) = schema.field? name := by
  rw [field?_eq_find?, upper_asciiLower, field?_eq_find?]

/-- The key in a selector of a map field. -/
def keySegment? (schema : Schema) (selector : String) : Option String :=
  match split '.' selector with
  | [name, key] => if (schema.field? name).any Field.isMap then some key else none
  | _ => none

/-- Selectors that differ in letter case, but not in a key, mean the same. -/
theorem toOption_select_eq (h : asciiLower s = asciiLower t)
    (hkey : schema.keySegment? s = schema.keySegment? t) :
    (schema.select s).toOption = (schema.select t).toOption := by
  have hpieces : (split '.' s).map asciiLower = (split '.' t).map asciiLower := by
    rw [← split_asciiLower (by decide), h, split_asciiLower (by decide)]
  unfold select
  unfold keySegment? at hkey
  -- the rest of the argument is about any two lists of pieces
  revert hkey hpieces
  generalize split '.' s = pieces
  generalize split '.' t = pieces'
  intro hkey hpieces
  match pieces, pieces' with
  | [], [] => rfl
  | name :: segments, name' :: segments' =>
    obtain ⟨hname, hsegments⟩ := List.cons.inj hpieces
    have hfield : schema.field? name = schema.field? name' :=
      eq_of_asciiLower_eq schema.field?_asciiLower hname
    simp only [hfield] at hkey ⊢
    cases hfound : schema.field? name' with
    | none => rfl
    | some field =>
      simp only
      cases hkind : field.kind with
      | scalar type =>
        -- whether there are further pieces does not depend on letter case
        have hempty : segments.isEmpty = segments'.isEmpty := by
          rw [← List.isEmpty_map (f := asciiLower), hsegments, List.isEmpty_map]
        simp only [hempty]
        cases segments'.isEmpty <;> rfl
      | composite declared =>
        simp only [Field.mapM_attribute?_eq hsegments]
        cases (segments'.mapM field.attribute?).bind (selectAttributes field) <;> rfl
      | map keyMember valueMember type =>
        have hmap : field.isMap = true := by simp [Field.isMap, hkind]
        match segments, segments', hsegments, hkey with
        | [], [], _, _ => rfl
        | [key], [key'], _, hkey =>
          -- the key is the one piece that is not folded, and it is the same by hypothesis
          have hsame : key = key' := by simpa [hfield, hfound, hmap] using hkey
          simp only [hsame]
          split <;> rfl
        | _ :: _ :: _, _ :: _ :: _, _, _ => rfl
        | [_], _ :: _ :: _, hlength, _ => exact absurd (congrArg List.length hlength) (by simp)
        | _ :: _ :: _, [_], hlength, _ => exact absurd (congrArg List.length hlength) (by simp)

end Schema

/-! ### Arguments -/

namespace Selection

variable {selection : Selection}

theorem toOption_readAs (type : ValueType) (selector argument : String) :
    (readAs type selector argument).toOption = Value.ofText? type argument :=
  Option.ext fun _ => toOption_eq_some_iff.trans readAs_eq_ok_iff

/-- The selector has a part in nothing but the rejection. -/
theorem toOption_coerce_eq (selection : Selection) (selector other argument : String) :
    (selection.coerce selector argument).toOption = (selection.coerce other argument).toOption := by
  unfold coerce
  split
  · split <;> rfl
  · split <;> rfl
  · rw [toOption_readAs, toOption_readAs]

/-- The same for orderings: the selector is in the error only. -/
theorem toOption_coerceOrdered_eq (selection : Selection) (selector other argument : String) :
    (selection.coerceOrdered selector argument).toOption =
      (selection.coerceOrdered other argument).toOption := by
  unfold coerceOrdered
  split
  · rfl
  · rfl
  · rw [toOption_readAs, toOption_readAs]

/-- Without a converter, a lowered argument stands for the lowered value. -/
theorem toOption_coerce_asciiLower (h : selection.field.converter = none)
    (selector argument : String) :
    (selection.coerce selector (asciiLower argument)).toOption =
      (selection.coerce selector argument).toOption.map Value.asciiLower := by
  have hread : ∀ type : ValueType, (readAs type selector (asciiLower argument)).toOption =
      (readAs type selector argument).toOption.map Value.asciiLower := by
    intro type
    rw [toOption_readAs, toOption_readAs, Value.ofText?_asciiLower]
  unfold coerce
  cases htype : selection.type with
  | enumeration type =>
    have hconstant : type.constant? (asciiLower argument) = type.constant? argument := by
      simp only [EnumType.constant?, equalsIgnoringCase_asciiLower]
    simp only [hconstant]
    cases type.constant? argument <;> rfl
  | _ =>
    simp only [h]
    exact hread _

end Selection

namespace Backend

variable {π : Type} (b : Backend π)

/-- The pattern of an argument does not depend on the case of its ASCII letters. -/
theorem pattern_asciiLower (argument : String) :
    b.pattern (asciiLower argument) = b.pattern argument := by
  rw [← String.toList_inj, pattern, pattern, toList_upper, toList_upper, replace, replace,
    String.toList_ofList, String.toList_ofList, toList_asciiLower, List.flatMap_map,
    List.flatMap_assoc, List.flatMap_assoc]
  have hwildcard : ∀ c : Char, c.toLower = queryWildcard ↔ c = queryWildcard := fun c =>
    toLower_eq_iff (by decide)
  refine List.flatMap_congr fun c _ => ?_
  simp only [hwildcard]
  split
  · rfl
  · simp only [List.flatMap_singleton, upperChar_toLower]

theorem matching_asciiLower (path : Path) (value : Value) :
    b.matching path value.asciiLower = b.matching path value := by
  cases value with
  | string s => exact congrArg (b.like path) (b.pattern_asciiLower s)
  | _ => rfl

theorem same_asciiLower (path : Path) (value : Value) :
    b.same path value.asciiLower = b.same path value := by
  cases value with
  | string s => exact b.matching_asciiLower path (.string s)
  | _ => rfl

end Backend

/-! ### Comparisons -/

/-- An equality or a pattern match takes an argument in any letter case. -/
theorem Operator.operation?_map_asciiLower {π : Type} {b : Backend π} {op : Operator}
    (hop : op = equal ∨ op = like) (path : Path) (values : List Value) :
    op.operation? b path (values.map Value.asciiLower) = op.operation? b path values := by
  match values with
  | [] => rcases hop with rfl | rfl <;> rfl
  | [value] =>
    rcases hop with rfl | rfl
    · exact congrArg some (b.same_asciiLower path value)
    · exact congrArg some (b.matching_asciiLower path value)
  | _ :: _ :: _ => rcases hop with rfl | rfl <;> rfl

namespace Comparison

variable {π : Type} {b : Backend π} {schema : Schema} {c d : Comparison} {selection : Selection}

/-- The comparisons have the same key if they select from a map field, and the same arguments if
the operator compares these as they are spelt. -/
structure AgreesIn (schema : Schema) (c d : Comparison) : Prop where
  key : schema.keySegment? c.selector = schema.keySegment? d.selector
  arguments : c.operator ≠ .equal → c.operator ≠ .like → c.arguments = d.arguments

theorem lower_eq_lower_iff : c.lower = d.lower ↔ asciiLower c.selector = asciiLower d.selector ∧
    c.operator = d.operator ∧ c.arguments.map asciiLower = d.arguments.map asciiLower := by
  simp [lower]

theorem taken_lower (c : Comparison) : c.lower.taken = c.taken.map asciiLower := by
  unfold taken lower
  cases c.operator <;> simp only [List.map_take, List.map_nil]

/-- A lowered argument is read as the lowered value. -/
theorem toOption_read_lower (hop : c.operator = .equal ∨ c.operator = .like)
    (hconverter : selection.field.converter = none) (argument : String) :
    (c.lower.read selection (asciiLower argument)).toOption =
      (c.read selection argument).toOption.map Value.asciiLower := by
  have hordering : c.operator.isOrdering = false := by
    rcases hop with hop | hop
    all_goals
      rw [hop]
      rfl
  have hordering' : c.lower.operator.isOrdering = false := hordering
  unfold read
  rw [hordering, hordering', if_neg Bool.false_ne_true, if_neg Bool.false_ne_true,
    selection.toOption_coerce_eq _ c.selector, Selection.toOption_coerce_asciiLower hconverter]

theorem toOption_values_lower (hop : c.operator = .equal ∨ c.operator = .like)
    (hconverter : selection.field.converter = none) :
    (c.lower.values selection).toOption =
      (c.values selection).toOption.map (List.map Value.asciiLower) := by
  rw [values_eq_mapM, values_eq_mapM, toOption_mapM, toOption_mapM, taken_lower, List.mapM_map,
    ← mapM_map_eq]
  simp only [Function.comp_def, toOption_read_lower hop hconverter]

/-- What is read from an argument hangs on the operator alone. -/
theorem toOption_read_eq (hoperator : c.operator = d.operator) (argument : String) :
    (c.read selection argument).toOption = (d.read selection argument).toOption := by
  unfold read
  rw [hoperator]
  split
  · exact selection.toOption_coerceOrdered_eq c.selector d.selector argument
  · exact selection.toOption_coerce_eq c.selector d.selector argument

/-- The values are those of the arguments, whatever the selector. -/
theorem toOption_values_eq (hoperator : c.operator = d.operator)
    (harguments : c.arguments = d.arguments) :
    (c.values selection).toOption = (d.values selection).toOption := by
  have htaken : c.taken = d.taken := by
    unfold taken
    rw [hoperator, harguments]
  rw [values_eq_mapM, values_eq_mapM, toOption_mapM, toOption_mapM, htaken]
  simp only [toOption_read_eq hoperator]

/-- On one selection, comparisons that differ in letter case but agree in what is compared as it is
spelt have the same operation. -/
theorem map_operation?_eq (hlower : c.lower = d.lower) (hagrees : c.AgreesIn schema d)
    (hconverter : selection.field.converter = none) (path : Path) :
    (c.values selection).toOption.map (c.operator.operation? b path) =
      (d.values selection).toOption.map (d.operator.operation? b path) := by
  obtain ⟨-, hoperator, -⟩ := lower_eq_lower_iff.mp hlower
  by_cases hop : c.operator = .equal ∨ c.operator = .like
  · have hfolded : ∀ e : Comparison, e.operator = .equal ∨ e.operator = .like →
        (e.values selection).toOption.map (e.operator.operation? b path) =
          (e.lower.values selection).toOption.map (e.operator.operation? b path) := by
      intro e he
      rw [toOption_values_lower he hconverter, Option.map_map]
      refine congrArg (Option.map · _) (funext fun values => ?_)
      exact (Operator.operation?_map_asciiLower he path values).symm
    rw [hfolded c hop, hfolded d (hoperator ▸ hop), hlower, hoperator]
  · obtain ⟨hequal, hlike⟩ := not_or.mp hop
    rw [toOption_values_eq hoperator (hagrees.arguments hequal hlike), hoperator]

/-- Comparisons that differ in letter case but agree in what is compared as it is spelt compile to
the same condition, if any, in a field without a converter. -/
theorem toOption_compile_eq (hlower : c.lower = d.lower) (hagrees : c.AgreesIn schema d)
    (hconverter : ∀ selection, schema.select c.selector = .ok selection →
      selection.field.converter = none) :
    (c.compile b schema).toOption = (d.compile b schema).toOption := by
  obtain ⟨hselector, -, harguments⟩ := lower_eq_lower_iff.mp hlower
  have hselect := Schema.toOption_select_eq hselector hagrees.key
  have hempty : c.arguments = [] ↔ d.arguments = [] := by
    rw [← List.map_eq_nil_iff (f := asciiLower), harguments, List.map_eq_nil_iff]
  rw [compile_eq, compile_eq, toOption_bind, toOption_bind, ← hselect]
  cases hfound : (schema.select c.selector).toOption with
  | none => rfl
  | some selection =>
    have hoperation := map_operation?_eq (b := b) hlower hagrees
      (hconverter selection (toOption_eq_some_iff.mp hfound)) selection.valuePath
    have hbound := congrArg (Option.map (Option.map (b.bindEntry selection))) hoperation
    rw [Option.map_map, Option.map_map] at hbound
    simp only [Option.bind_some, hempty]
    split
    · rfl
    · rw [toOption_map, toOption_map]
      exact hbound

end Comparison

/-!
### Queries

Two queries of one shape are gone through at once, and their comparisons are paired as they come. A
result is compared without its error, since the errors name selectors and arguments as they are
spelled.
-/

namespace Query

variable {π : Type} {b : Backend π} {schema : Schema} {f : Comparison → Comparison}

/-- Queries of one shape have the same number of leaves. -/
theorem length_leaves_eq {query other : Query} (h : query.map f = other.map f) :
    query.leaves.length = other.leaves.length := by
  rw [← List.length_map (f := f), ← leaves_map, h, leaves_map, List.length_map]

/-- The two comparisons compile to the same condition, or both to none. -/
def CompileAlike (b : Backend π) (schema : Schema) (c d : Comparison) : Prop :=
  (c.compile b schema).toOption = (d.compile b schema).toOption

/-- Members of one shape whose leaves compile alike contribute the same conditions. -/
theorem toOption_conditionsOf_eq {members others : List Query}
    (ih : ∀ member ∈ members, ∀ other : Query, member.map f = other.map f →
      List.Forall₂ (CompileAlike b schema) member.leaves other.leaves →
      (member.conditions b schema).toOption = (other.conditions b schema).toOption)
    (hshape : mapAll f members = mapAll f others)
    (hleaves : List.Forall₂ (CompileAlike b schema) (leavesOf members) (leavesOf others)) :
    (conditionsOf b schema members).toOption = (conditionsOf b schema others).toOption := by
  induction members generalizing others with
  | nil =>
    cases others with
    | nil => rfl
    | cons other others => cases hshape
  | cons member members ihmembers =>
    cases others with
    | nil => cases hshape
    | cons other others =>
      obtain ⟨hmember, hmembers⟩ := List.forall_mem_cons.mp ih
      obtain ⟨hfirst, hrest⟩ := List.cons.inj hshape
      obtain ⟨hleaf, hothers⟩ := forall₂_of_append (length_leaves_eq hfirst) hleaves
      simp only [conditionsOf, toOption_bind, hmember other hfirst hleaf,
        ihmembers hmembers hrest hothers]

/-- Queries of one shape whose leaves compile alike contribute the same conditions. -/
theorem toOption_conditions_eq {query other : Query} (hshape : query.map f = other.map f)
    (hleaves : List.Forall₂ (CompileAlike b schema) query.leaves other.leaves) :
    (query.conditions b schema).toOption = (other.conditions b schema).toOption := by
  induction query generalizing other with
  | comparison c =>
    cases other with
    | comparison d =>
      obtain ⟨halike, -⟩ := List.forall₂_cons.mp hleaves
      have hsame : (c.compile b schema).toOption = (d.compile b schema).toOption := halike
      simp only [conditions, toOption_bind, hsame]
    | and members | or members => cases hshape
  | and members ih =>
    cases other with
    | comparison d | or others => cases hshape
    | and others =>
      have hmembers := toOption_conditionsOf_eq (fun m hm _ => ih m hm) (and.inj hshape) hleaves
      simp only [conditions, toOption_bind, hmembers]
  | or members ih =>
    cases other with
    | comparison d | and others => cases hshape
    | or others =>
      have hmembers := toOption_conditionsOf_eq (fun m hm _ => ih m hm) (or.inj hshape) hleaves
      simp only [conditions, toOption_bind, hmembers]

theorem toOption_compile_eq {query other : Query} (hshape : query.map f = other.map f)
    (hleaves : List.Forall₂ (CompileAlike b schema) query.leaves other.leaves) :
    (query.compile b schema).toOption = (other.compile b schema).toOption := by
  have hconditions := toOption_conditions_eq hshape hleaves
  simp only [compile, toOption_bind, hconditions]

/-- Leaves that differ in letter case but agree in what is compared as it is spelt compile
alike. -/
theorem forall₂_compileAlike {query other : Query} (hlower : query.lower = other.lower)
    (hagrees : List.Forall₂ (Comparison.AgreesIn schema) query.leaves other.leaves)
    (hconverter : ∀ c ∈ query.leaves, ∀ selection, schema.select c.selector = .ok selection →
      selection.field.converter = none) :
    List.Forall₂ (CompileAlike b schema) query.leaves other.leaves := by
  have hleaves : List.Forall₂ (fun c d : Comparison => c.lower = d.lower) query.leaves
      other.leaves := by
    have hmap : query.leaves.map Comparison.lower = other.leaves.map Comparison.lower := by
      rw [← leaves_map, ← leaves_map]
      exact congrArg leaves hlower
    rw [← List.forall₂_eq_eq_eq, List.forall₂_map_left_iff, List.forall₂_map_right_iff] at hmap
    exact hmap
  have hboth := (List.forall₂_and_left _ _).mpr ⟨hconverter, hagrees⟩
  exact hleaves.mp (fun c d hcd h => Comparison.toOption_compile_eq hcd h.2 h.1) hboth

end Query

/-- **Letter case.** Two texts that differ in the case of ASCII letters only are both no queries, or
they are queries that differ in the case of the letters of selectors and arguments only. If these
queries agree in the keys of map fields and in the arguments of all comparisons but equalities and
pattern matches, and no field that is selected has a converter, then the texts compile to the same
condition or both to none. -/
theorem Query.compileText_eq_ok_iff_of_asciiLower_eq {s t : String}
    (h : asciiLower s = asciiLower t) :
    ((∃ e e', ofText s = .error e ∧ ofText t = .error e') ∨
      ∃ q r, ofText s = .ok q ∧ ofText t = .ok r ∧ q.lower = r.lower) ∧
    ∀ {π : Type} (b : Backend π) (schema : Schema),
      (∀ q r, ofText s = .ok q → ofText t = .ok r →
        List.Forall₂ (Comparison.AgreesIn schema) q.leaves r.leaves ∧
          ∀ c ∈ q.leaves, ∀ selection, schema.select c.selector = .ok selection →
            selection.field.converter = none) →
      ∀ condition, compileText b schema s = .ok condition ↔
        compileText b schema t = .ok condition := by
  have hread : (ofText s).toOption.map lower = (ofText t).toOption.map lower := by
    rw [← ofText_asciiLower, h, ofText_asciiLower]
  unfold compileText
  cases hs : ofText s with
  | error e =>
    cases ht : ofText t with
    | error e' => exact ⟨.inl ⟨e, e', rfl, rfl⟩, fun b schema _ condition => by simp⟩
    | ok r =>
      rw [hs, ht] at hread
      cases hread
  | ok q =>
    cases ht : ofText t with
    | error e' =>
      rw [hs, ht] at hread
      cases hread
    | ok r =>
      rw [hs, ht] at hread
      have hlower : q.lower = r.lower := Option.some.inj hread
      refine ⟨.inr ⟨q, r, rfl, rfl, hlower⟩, fun b schema hagrees condition => ?_⟩
      obtain ⟨hleaves, hconverter⟩ := hagrees q r rfl rfl
      -- both texts are read, so the queries have one shape and leaves that compile alike
      have halike : List.Forall₂ (CompileAlike b schema) q.leaves r.leaves :=
        forall₂_compileAlike hlower hleaves hconverter
      exact eq_ok_iff_of_toOption_eq (toOption_compile_eq hlower halike) condition

theorem Query.compileText_eq_ok_iff_of_asciiLower_eq_target :
    asciiLower "UpdateStatus==in_sync and (name==Ab* OR attribute.os=IN=(Linux))" =
        asciiLower "updatestatus==IN_SYNC AND (NAME==aB* or ATTRIBUTE.os=in=(Linux))" ∧
      compileText .standard .target
          "updatestatus==IN_SYNC AND (NAME==aB* or ATTRIBUTE.os=in=(Linux))" =
        .ok (.and [.equal ⟨["updateStatus"]⟩ (.constant "IN_SYNC"),
          .or [.like ⟨["name"]⟩ "AB%", .entry ⟨["controllerAttributes"]⟩
            (.and [.equal ⟨["controllerAttributes", "key"]⟩ (.string "os"),
              .isIn ⟨["controllerAttributes", "value"]⟩ [.string "Linux"]])]]) := by
  have hlower : asciiLower "UpdateStatus==in_sync and (name==Ab* OR attribute.os=IN=(Linux))" =
      asciiLower "updatestatus==IN_SYNC AND (NAME==aB* or ATTRIBUTE.os=in=(Linux))" :=
    congrArg String.ofList (by simp)
  refine ⟨hlower, ?_⟩
  have hq : ofText "UpdateStatus==in_sync and (name==Ab* OR attribute.os=IN=(Linux))" =
      .ok (and [comparison ⟨"UpdateStatus", .equal, ["in_sync"]⟩,
        or [comparison ⟨"name", .equal, ["Ab*"]⟩,
          comparison ⟨"attribute.os", .isIn, ["Linux"]⟩]]) := by
    with_unfolding_all rfl
  have hr : ofText "updatestatus==IN_SYNC AND (NAME==aB* or ATTRIBUTE.os=in=(Linux))" =
      .ok (and [comparison ⟨"updatestatus", .equal, ["IN_SYNC"]⟩,
        or [comparison ⟨"NAME", .equal, ["aB*"]⟩,
          comparison ⟨"ATTRIBUTE.os", .isIn, ["Linux"]⟩]]) := by
    with_unfolding_all rfl
  have hcompile := (compileText_eq_ok_iff_of_asciiLower_eq hlower).2 .standard .target
  rw [hq, hr] at hcompile
  refine (hcompile ?_ _).mp ?_
  · rintro q r ⟨⟩ ⟨⟩
    constructor
    · refine .cons ⟨by decide, ?_⟩ (.cons ⟨by decide, ?_⟩ (.cons ⟨by decide, ?_⟩ .nil)) <;> simp
    · have hnone : ∀ c ∈ [Comparison.mk "UpdateStatus" .equal ["in_sync"],
          ⟨"name", .equal, ["Ab*"]⟩, ⟨"attribute.os", .isIn, ["Linux"]⟩],
          (Schema.target.select c.selector).toOption.all (·.field.converter.isNone) = true := by
        decide
      intro c hc selection hselection
      have hfound := hnone c hc
      rw [hselection] at hfound
      simpa [Except.toOption] using hfound
  · rw [compileText, hq]
    rfl

end FilterQuery
