import FilterQuery.Proofs.Compilation
import FilterQuery.Proofs.QueryTree
import FilterQuery.Proofs.Selection
import FilterQuery.Schema.Builtin

/-!
# Independence of the backend

A predicate is a record of the operations that built it, so it can be **replayed** in any other
backend: each of its parts becomes the operation that it came from. To compile a query to a backend
with the standard wildcard is to compile it to a predicate and to replay that
(`Query.compile_eq_map_replay`). Rejections are the same in all backends.

What makes this work is the shape of the predicates that queries compile to. A negation is the
complement of a membership, and an entry holds the condition on its key in front of one comparison.
Other predicates are no records of operations: an entry of other parts, for one, loses its scope
when it is replayed.

* **Replaying** is a recursion on predicates (`Predicate.replay`), which on groups is the operation
  of the group on the replayed members (`replay_and`, `replay_or`).
* **Shapes.** `Predicate.IsBuilt` has a constructor for each shape that is compiled to: tests,
  complements of memberships, bound entries and groups. All conditions of a query are of these
  shapes (`isBuilt_of_mem_conditions`).
* **Induction.** A comparison replays to what it compiles to, since its operation does and binding
  an entry does; groups follow by the induction over queries and their conditions.
-/

namespace FilterQuery

variable {π : Type} {b : Backend π}

/-! ### Predicates as records of operations -/

namespace Predicate

/-- A comparison of the values that a path leads to, or the complement of a membership. -/
inductive IsTest : Predicate → Prop where
  | equal (path : Path) (value : Value) : IsTest (equal path value)
  | notEqual (path : Path) (value : Value) : IsTest (notEqual path value)
  | like (path : Path) (pattern : String) : IsTest (like path pattern)
  | greater (path : Path) (value : Value) : IsTest (greater path value)
  | greaterOrEqual (path : Path) (value : Value) : IsTest (greaterOrEqual path value)
  | less (path : Path) (value : Value) : IsTest (less path value)
  | lessOrEqual (path : Path) (value : Value) : IsTest (lessOrEqual path value)
  | isIn (path : Path) (values : List Value) : IsTest (isIn path values)
  | notIn (path : Path) (values : List Value) : IsTest (not (isIn path values))

/-- The shape of the predicates that queries compile to. -/
inductive IsBuilt : Predicate → Prop where
  | always : IsBuilt always
  | test {p : Predicate} (h : p.IsTest) : IsBuilt p
  /-- The key of an entry is matched before its value is tested. -/
  | entry (path : Path) (keyMember key : String) {p : Predicate} (h : p.IsTest) :
      IsBuilt (entry path (and [equal (path.child keyMember) (.string key), p]))
  | and {ps : List Predicate} (h : ∀ p ∈ ps, IsBuilt p) : IsBuilt (and ps)
  | or {ps : List Predicate} (h : ∀ p ∈ ps, IsBuilt p) : IsBuilt (or ps)

mutual

/-- The predicate in another backend, part by part. No operation makes an entry of other parts than
a key and a value; such an entry loses its scope. -/
def replay (b : Backend π) : Predicate → π
  | always => b.always
  | equal path value => b.equal path value
  | notEqual path value => b.notEqual path value
  | like path pattern => b.like path pattern
  | greater path value => b.greater path value
  | greaterOrEqual path value => b.greaterOrEqual path value
  | less path value => b.less path value
  | lessOrEqual path value => b.lessOrEqual path value
  | isIn path values => b.isIn path values
  | not (isIn path values) => b.notIn path values
  | not p => b.not (replay b p)
  | and ps => b.and (replayAll b ps)
  | or ps => b.or (replayAll b ps)
  | entry path (and [key, value]) => b.mapEntry path (replay b key) (replay b value)
  | entry _ p => replay b p

/-- The predicates in another backend, one by one. -/
def replayAll (b : Backend π) : List Predicate → List π
  | [] => []
  | p :: ps => replay b p :: replayAll b ps

end

theorem replayAll_eq_map (ps : List Predicate) : replayAll b ps = ps.map (replay b) := by
  induction ps with
  | nil => rfl
  | cons p ps ih => rw [replayAll, ih, List.map_cons]

theorem replay_and (ps : List Predicate) : (and ps).replay b = b.and (ps.map (·.replay b)) := by
  rw [replay, replayAll_eq_map]

theorem replay_or (ps : List Predicate) : (or ps).replay b = b.or (ps.map (·.replay b)) := by
  rw [replay, replayAll_eq_map]

end Predicate

/-! ### Comparisons -/

theorem Backend.pattern_eq_standard (hwildcard : b.wildcard = Pattern.wildcard)
    (argument : String) : b.pattern argument = Backend.standard.pattern argument := by
  rw [pattern, pattern, hwildcard]
  rfl

namespace Operator

/-- Equality is a test, also where it is a match against a pattern. -/
theorem isTest_same (path : Path) (value : Value) :
    (Backend.standard.same path value).IsTest := by
  unfold Backend.same
  split
  · exact .like _ _
  · exact .equal _ _

/-- The operation of an operator is a test, whatever its values. -/
theorem isTest_of_operation? {op : Operator} {path : Path} {values : List Value} {p : Predicate}
    (h : op.operation? .standard path values = some p) : p.IsTest := by
  unfold operation? at h
  split at h
  all_goals cases h
  · exact isTest_same path _
  · exact .notEqual _ _
  · exact .like _ _
  · exact .greater _ _
  · exact .greaterOrEqual _ _
  · exact .less _ _
  · exact .lessOrEqual _ _
  · exact .isIn _ _
  · exact .notIn _ _

/-- Equality is replayed as equality, whether it compares or matches. -/
theorem replay_same (hwildcard : b.wildcard = Pattern.wildcard) (path : Path) (value : Value) :
    (Backend.standard.same path value).replay b = b.same path value := by
  unfold Backend.same
  split
  · rw [Backend.matching, Backend.matching, b.pattern_eq_standard hwildcard]
    rfl
  · rfl

/-- The operation of an operator in a backend is the one in predicates, replayed. -/
theorem operation?_eq_map (hwildcard : b.wildcard = Pattern.wildcard) (op : Operator) (path : Path)
    (values : List Value) :
    op.operation? b path values = (op.operation? .standard path values).map (·.replay b) := by
  unfold operation?
  split
  case h_1 value => exact congrArg some (replay_same hwildcard path value).symm
  case h_3 value =>
    rw [Backend.matching, b.pattern_eq_standard hwildcard]
    rfl
  all_goals rfl

end Operator

theorem Backend.replay_bindEntry (selection : Selection) (p : Predicate) :
    (Backend.standard.bindEntry selection p).replay b = b.bindEntry selection (p.replay b) := by
  unfold bindEntry
  cases selection.key? <;> rfl

namespace Comparison

variable {schema : Schema} {c : Comparison}

/-- To compile a comparison is to compile it to a predicate and to replay that. -/
theorem compile_eq_map (hwildcard : b.wildcard = Pattern.wildcard) :
    c.compile b schema = (c.compile .standard schema).map (Option.map (·.replay b)) := by
  rw [compile_eq, compile_eq]
  cases schema.select c.selector with
  | error _ => rfl
  | ok selection =>
    change (if _ then _ else _) = Except.map _ (if _ then _ else _)
    split
    · rfl
    · cases c.values selection with
      | error _ => rfl
      | ok values =>
        refine congrArg Except.ok ?_
        simp only [Operator.operation?_eq_map hwildcard, Option.map_map, Function.comp_def,
          Backend.replay_bindEntry]

/-- A comparison compiles to a predicate of one of the shapes. -/
theorem isBuilt_of_compile {p : Predicate} (h : c.compile .standard schema = .ok (some p)) :
    p.IsBuilt := by
  obtain ⟨selection, values, hselect, -, -, hcompiled⟩ := compile_eq_ok_iff.mp h
  obtain ⟨test, htest, rfl⟩ := Option.map_eq_some_iff.mp hcompiled.symm
  have hleaf := Operator.isTest_of_operation? htest
  rcases Schema.key?_cases hselect with ⟨hkey, -⟩ | ⟨keyMember, _, _, key, -, hkey⟩
  · rw [Backend.bindEntry, hkey]
    exact .test hleaf
  · rw [Backend.bindEntry, hkey]
    exact .entry selection.path keyMember key hleaf

end Comparison

/-! ### Queries -/

namespace Query

variable {schema : Schema} {query : Query} {predicates : List Predicate}

theorem replay_group {combine : List π → π} {connect : List Predicate → Predicate}
    (h : ∀ ps, (connect ps).replay b = combine (ps.map (·.replay b))) (ps : List Predicate) :
    (Backend.standard.group connect ps).replay b = b.group combine (ps.map (·.replay b)) := by
  cases ps with
  | nil => rfl
  | cons p ps => exact h (p :: ps)

/-- What is listed of a group is what is listed of its members. -/
theorem group_eq_flatMap {α : Type} {f : Predicate → List α} (halways : f .always = [])
    {connect : List Predicate → Predicate} (hconnect : ∀ ps, f (connect ps) = ps.flatMap f)
    (ps : List Predicate) : f (Backend.standard.group connect ps) = ps.flatMap f := by
  cases ps with
  | nil => exact halways
  | cons p ps => exact hconnect (p :: ps)

/-- If the conditions of the members are replayed, those of the list are. -/
theorem conditionsOf_eq_map {members : List Query}
    (h : ∀ member ∈ members, member.conditions b schema =
      (member.conditions .standard schema).map (List.map (·.replay b))) :
    conditionsOf b schema members =
      (conditionsOf .standard schema members).map (List.map (·.replay b)) := by
  induction members with
  | nil => rfl
  | cons member members ih =>
    obtain ⟨hmember, hmembers⟩ := List.forall_mem_cons.mp h
    rw [conditionsOf, conditionsOf, hmember, ih hmembers]
    cases member.conditions .standard schema with
    | error _ => rfl
    | ok first =>
      cases conditionsOf .standard schema members with
      | error _ => rfl
      | ok rest => exact congrArg Except.ok List.map_append.symm

/-- The conditions of a query are the replayed conditions in the standard backend. -/
theorem conditions_eq_map (hwildcard : b.wildcard = Pattern.wildcard) :
    query.conditions b schema =
      (query.conditions .standard schema).map (List.map (·.replay b)) := by
  induction query with
  | comparison c =>
    rw [conditions, conditions, Comparison.compile_eq_map hwildcard]
    cases c.compile .standard schema with
    | error _ => rfl
    | ok compiled => cases compiled <;> rfl
  | and members ih =>
    rw [conditions, conditions, conditionsOf_eq_map ih]
    cases conditionsOf .standard schema members with
    | error _ => rfl
    | ok ps => exact congrArg (fun p => Except.ok [p]) (replay_group Predicate.replay_and ps).symm
  | or members ih =>
    rw [conditions, conditions, conditionsOf_eq_map ih]
    cases conditionsOf .standard schema members with
    | error _ => rfl
    | ok ps => exact congrArg (fun p => Except.ok [p]) (replay_group Predicate.replay_or ps).symm

theorem isBuilt_group {connect : List Predicate → Predicate}
    (hconnect : (connect predicates).IsBuilt) :
    (Backend.standard.group connect predicates).IsBuilt := by
  cases predicates with
  | nil => exact .always
  | cons => exact hconnect

/-- All conditions that a query contributes are of the shapes. -/
theorem isBuilt_of_mem_conditions (h : query.conditions .standard schema = .ok predicates) :
    ∀ p ∈ predicates, p.IsBuilt := by
  refine conditions_induction (motive := fun _ predicates => ∀ p ∈ predicates, p.IsBuilt)
    ?nil ?cons ?comparison ?and ?or h
  case nil => exact List.forall_mem_nil _
  case cons => exact fun _ _ _ _ hfirst hrest => List.forall_mem_append.mpr ⟨hfirst, hrest⟩
  case comparison =>
    intro c compiled hcompiled p hp
    rw [Option.mem_toList] at hp
    exact Comparison.isBuilt_of_compile (hp ▸ hcompiled)
  case and => exact fun _ _ h => List.forall_mem_singleton.mpr (isBuilt_group (.and h))
  case or => exact fun _ _ h => List.forall_mem_singleton.mpr (isBuilt_group (.or h))

/-- **Independence of the backend.** To compile a query to a backend with the standard wildcard is
to compile it to a predicate and to replay that; a rejection is the same in both. In the predicate,
only memberships are negated, and an entry holds the condition on its key and one comparison. -/
theorem compile_eq_map_replay (hwildcard : b.wildcard = Pattern.wildcard) :
    query.compile b schema = (query.compile .standard schema).map (·.replay b) ∧
      ∀ p, query.compile .standard schema = .ok p → p.IsBuilt := by
  constructor
  · unfold compile
    rw [conditions_eq_map hwildcard]
    cases query.conditions .standard schema with
    | error _ => rfl
    | ok conditions =>
      -- one condition stands for itself, others are grouped
      rcases conditions with _ | ⟨first, _ | ⟨second, rest⟩⟩
      · rfl
      · rfl
      · exact congrArg Except.ok (Predicate.replay_and (first :: second :: rest)).symm
  · intro p h
    obtain ⟨conditions, hconditions, h⟩ := bind_eq_ok_iff.mp h
    have hbuilt := isBuilt_of_mem_conditions hconditions
    split at h
    · cases h
      exact hbuilt _ List.mem_cons_self
    · cases h
      exact isBuilt_group (.and hbuilt)

/-- A backend that keeps the defaults gets the complement of a membership as a negation, and an
entry of a map as a conjunction. -/
theorem compile_eq_map_replay_tracing :
    (Backend.tracing '%').wildcard = Pattern.wildcard ∧
      Query.compile (.tracing '%') Schema.target
          (.or [.comparison ⟨"attribute.os", .notIn, ["linux", "bsd"]⟩,
            .comparison ⟨"name", .equal, ["ab*"]⟩]) =
        .ok ("or[and[eq[controllerAttributes.key|string:os]|" ++
          "not[in[controllerAttributes.value|string:linux|string:bsd]]]|like[name|AB%]]") := by
  exact ⟨rfl, (compile_eq_map_replay rfl).1.trans rfl⟩

end Query

end FilterQuery
