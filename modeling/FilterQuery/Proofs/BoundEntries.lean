import FilterQuery.Proofs.Backends
import FilterQuery.Proofs.EntryPaths

/-!
# What binding an entry adds

A comparison on a map asks for a key and for a value. The standard backend binds both to one entry
of the map; a backend that keeps the default asks for either anywhere in the map. Both conditions
are about what the entries hold, so a question is answered with yes for the map if it is for some
entry (`Predicate.selects_eq_any_entryScopes`), and its negation holds if it does for all entries.

* **Where both agree.** With one entry at most there is nothing to bind: what some entry holds and
  what the other holds are held by the same entry.
* **Where binding is stronger.** With several entries the key may be in one and the value in
  another, so a bound entry is the stronger condition wherever a question is asked about the value
  (`Comparison.selects_unbound`). The converse fails on a map with two such entries.
* **The exception.** The complement of a membership negates its question, so without binding it
  asks for all values and not for the value of one entry. Neither condition implies the other then.

The backend without binding (`Backend.unbound`) builds predicates as the standard one does, but for
the one operation that makes an entry. So the two conditions differ in this operation alone.
-/

namespace FilterQuery

open Json

/-- The backend that builds predicates and binds no entries: in a map it keeps the default. -/
def Backend.unbound : Backend Predicate where
  wildcard := Pattern.wildcard
  equal := .equal
  notEqual := .notEqual
  like := .like
  greater := .greater
  greaterOrEqual := .greaterOrEqual
  less := .less
  lessOrEqual := .lessOrEqual
  isIn := .isIn
  not := .not
  and := .and
  or := .or
  always := .always

/-! ### Questions about entries -/

/-- The scopes inside the entries that a path leads to. -/
def Json.entryScopes (document : Json) (path : Path) : List Scope :=
  (document.reach path.segments).map (Scope.enter ⟨document, none⟩ path)

section

variable {document : Json} {path : Path}

namespace Predicate

variable {key value : Predicate} {names : List String} {accepts : Json → Bool}

theorem selects_entry (p : Predicate) :
    (entry path p).selects document = (document.entryScopes path).any p.holds :=
  List.any_map.symm

/-- A question about what the entries hold is answered with yes if it is for some entry. -/
theorem selects_eq_any_entryScopes
    (h : value.question? = some ⟨⟨path.segments ++ names⟩, accepts⟩) :
    value.selects document = (document.entryScopes path).any value.holds := by
  have hentry : (entry path value).selects document = value.selects document :=
    holds_entry_of_reach h (Scope.reach_append_of_bound?_eq_none rfl)
  rw [← hentry, selects_entry]

/-- The negation of such a question holds if it does for all entries. -/
theorem selects_not_eq_all_entryScopes
    (h : value.question? = some ⟨⟨path.segments ++ names⟩, accepts⟩) :
    (not value).selects document = (document.entryScopes path).all (not value).holds := by
  rw [selects, holds]
  exact (congrArg Bool.not (selects_eq_any_entryScopes h)).trans List.not_any_eq_all_not

theorem holds_pair (scope : Scope) :
    (and [key, value]).holds scope = (key.holds scope && value.holds scope) := by
  simp [holds, holdAll]

/-- Where there is one entry at most, both conditions can only be met by that one. -/
theorem selects_entry_eq_selects_pair (hone : (document.entryScopes path).length ≤ 1)
    (hkey : key.selects document = (document.entryScopes path).any key.holds)
    (hvalue : value.selects document = (document.entryScopes path).any value.holds ∨
      value.selects document = (document.entryScopes path).all value.holds) :
    (entry path (and [key, value])).selects document = (and [key, value]).selects document := by
  have hpair : (and [key, value]).selects document =
      (key.selects document && value.selects document) := holds_pair _
  rw [selects_entry, hpair, hkey]
  generalize document.entryScopes path = scopes at hone hvalue
  match scopes, hone with
  | [], _ => rfl
  | [scope], _ =>
    have hscope : value.selects document = value.holds scope := by simpa using hvalue
    simp [holds_pair, hscope]

/-- An entry that meets both conditions shows that each is met by some entry. -/
theorem selects_pair_of_selects_entry
    (hkey : key.selects document = (document.entryScopes path).any key.holds)
    (hvalue : value.selects document = (document.entryScopes path).any value.holds)
    (h : (entry path (and [key, value])).selects document = true) :
    (and [key, value]).selects document = true := by
  rw [selects_entry, List.any_eq_true] at h
  obtain ⟨scope, hscope, hboth⟩ := h
  obtain ⟨hfirst, hsecond⟩ := Bool.and_eq_true_iff.mp (holds_pair scope ▸ hboth)
  refine (holds_pair _).trans (Bool.and_eq_true_iff.mpr ⟨?_, ?_⟩)
  · exact hkey.trans (List.any_eq_true.mpr ⟨scope, hscope, hfirst⟩)
  · exact hvalue.trans (List.any_eq_true.mpr ⟨scope, hscope, hsecond⟩)

end Predicate

end

/-! ### Comparisons on maps -/

/-- An operator asks a question, unless it is the complement of a membership. -/
theorem Operator.question?_of_operation? {op : Operator} {path : Path} {values : List Value}
    {leaf : Predicate} (h : op.operation? .standard path values = some leaf) :
    (∃ accepts, leaf.question? = some ⟨path, accepts⟩) ∨
      op = .notIn ∧ leaf = .not (.isIn path values) := by
  unfold operation? at h
  split at h
  all_goals cases h
  case h_1 value =>
    unfold Backend.same
    split <;> exact .inl ⟨_, rfl⟩
  case h_9 => exact .inr ⟨rfl, rfl⟩
  all_goals exact .inl ⟨_, rfl⟩

namespace Comparison

variable {schema : Schema} {c : Comparison} {selection : Selection} {key : MapKey}
  {bound : Predicate}

/-- A comparison on a map compiles to a condition on the key and one on the value, whether these
are bound to an entry or not. -/
theorem exists_compile_map (hselect : schema.select c.selector = .ok selection)
    (hkey : selection.key? = some key) (h : c.compile .standard schema = .ok (some bound)) :
    ∃ values value, c.operator.operation? .standard selection.valuePath values = some value ∧
      bound = .entry selection.path (.and [.equal key.path (.string key.key), value]) ∧
      c.compile .unbound schema =
        .ok (some (.and [.equal key.path (.string key.key), value])) := by
  obtain ⟨selection', values, hselect', harguments, hvalues, hcompiled⟩ := compile_eq_ok_iff.mp h
  cases hselect.symm.trans hselect'
  obtain ⟨value, hvalue, hbound⟩ := Option.map_eq_some_iff.mp hcompiled.symm
  -- the backends differ in nothing but entries
  have hunbound : c.operator.operation? .unbound selection.valuePath values = some value := hvalue
  refine ⟨values, value, hvalue, ?_, ?_⟩
  · rw [← hbound, Backend.bindEntry, hkey]
    rfl
  · refine compile_eq_ok_iff.mpr ⟨selection, values, hselect, harguments, hvalues, ?_⟩
    rw [hunbound, Option.map_some, Backend.bindEntry, hkey]
    rfl

/-- **Binding entries.** A comparison on a map compiles to a condition on the key and one on the
value, in an entry or, without binding, in a conjunction. They select the same documents among those
with at most one entry in the map. Whatever a bound entry selects, the conjunction does as well,
unless the operator is the complement of a membership. -/
theorem selects_unbound (hselect : schema.select c.selector = .ok selection)
    (hkey : selection.key? = some key) (h : c.compile .standard schema = .ok (some bound)) :
    ∃ value, bound = .entry selection.path (.and [.equal key.path (.string key.key), value]) ∧
      c.compile .unbound schema =
        .ok (some (.and [.equal key.path (.string key.key), value])) ∧
      ∀ document,
        ((document.reach selection.path.segments).length ≤ 1 → bound.selects document =
          (Predicate.and [.equal key.path (.string key.key), value]).selects document) ∧
        (c.operator ≠ .notIn → bound.selects document = true →
          (Predicate.and [.equal key.path (.string key.key), value]).selects document = true) := by
  obtain ⟨values, value, hvalue, rfl, hunbound⟩ := exists_compile_map hselect hkey h
  obtain ⟨hnone, -⟩ | ⟨keyMember, valueMember, _, name, hkind, hname⟩ := Schema.key?_cases hselect
  · cases hkey.symm.trans hnone
  · obtain rfl : key = _ := Option.some.inj (hkey.symm.trans hname)
    -- both conditions are about what the entries hold
    have hvaluePath : selection.valuePath = ⟨selection.path.segments ++ valueMember.toList⟩ :=
      congrArg Path.mk (selection.segments_valuePath hkind)
    rw [hvaluePath] at hvalue
    have hkeys : ∀ document,
        (Predicate.equal (selection.path.child keyMember) (.string name)).selects document =
          (document.entryScopes selection.path).any
            (Predicate.equal (selection.path.child keyMember) (.string name)).holds :=
      fun document => Predicate.selects_eq_any_entryScopes rfl
    refine ⟨value, rfl, hunbound, fun document => ⟨fun hone => ?_, fun hop hselects => ?_⟩⟩
    · refine Predicate.selects_entry_eq_selects_pair ?_ (hkeys document) ?_
      · rwa [Json.entryScopes, List.length_map]
      · rcases Operator.question?_of_operation? hvalue with ⟨accepts, hquestion⟩ | ⟨-, rfl⟩
        · exact .inl (Predicate.selects_eq_any_entryScopes hquestion)
        · exact .inr (Predicate.selects_not_eq_all_entryScopes rfl)
    · rcases Operator.question?_of_operation? hvalue with ⟨accepts, hquestion⟩ | ⟨hnotIn, -⟩
      · exact Predicate.selects_pair_of_selects_entry (hkeys document)
          (Predicate.selects_eq_any_entryScopes hquestion) hselects
      · exact absurd hnotIn hop

/-- A device with the attribute that is asked for is found with and without binding. -/
theorem selects_unbound_attribute : ∃ bound conjunction,
    Comparison.compile .standard Schema.target ⟨"attribute.os", .isIn, ["linux", "bsd"]⟩ =
      .ok (some bound) ∧
    Comparison.compile .unbound Schema.target ⟨"attribute.os", .isIn, ["linux", "bsd"]⟩ =
      .ok (some conjunction) ∧
    ∀ document, bound.selects document = true → conjunction.selects document = true := by
  obtain ⟨value, -, hunbound, hselects⟩ := selects_unbound select_target_attribute rfl
    (rfl : Comparison.compile .standard Schema.target
      ⟨"attribute.os", .isIn, ["linux", "bsd"]⟩ = .ok (some _))
  exact ⟨_, _, rfl, hunbound, fun document => (hselects document).2 (by decide)⟩

/-- The complement of a membership is the exception: in the entry with the key the value is not one
of those listed, while in another entry it is. -/
example :
    let key : Predicate := .equal ⟨["attributes", "key"]⟩ (.string "os")
    let value : Predicate := .not (.isIn ⟨["attributes", "value"]⟩ [.string "arm"])
    let document : Json := .object [("attributes", .array [
      .object [("key", .string "os"), ("value", .string "linux")],
      .object [("key", .string "cpu"), ("value", .string "arm")]])]
    (Predicate.entry ⟨["attributes"]⟩ (.and [key, value])).selects document = true ∧
      (Predicate.and [key, value]).selects document = false := by
  decide +kernel

end Comparison

end FilterQuery
