import FilterQuery.Proofs.Compilation
import FilterQuery.Proofs.QueryTree
import FilterQuery.Schema.Builtin

/-!
# Why a query is rejected

Compiling goes through the comparisons of a query in the order of the text and stops at the first
one that is rejected (`Query.compile_eq_error_iff`). Groups, empty ones and ignored operators
included, have no rejections of their own, and the backend has no say in the matter. Within a
comparison the selector comes first, then the presence of an argument, then the arguments that the
operator takes, again up to the first one that is rejected.

* **The first failure** of a list of steps is one notion (`FirstFailure`), for the arguments of a
  comparison as well as for the comparisons of a query. To go through a list is to fail with it
  (`mapM_eq_error_iff`).
* **Comparisons.** `Comparison.Rejected` has one constructor for each stage, in the order in which
  the stages are gone through.
* **Queries.** The **outcome** of compiling is its rejection, if there is one. It is that of going
  through the comparisons from left to right, since a group fails with the first of its members that
  fails and adds nothing to it (`Query.outcome_conditions`).
-/

namespace FilterQuery

/-! ### Comparisons -/

namespace Comparison

variable {π : Type} {b : Backend π} {schema : Schema} {c : Comparison} {e : Rejection}

/-- The value of one of the arguments that the operator takes. -/
def read (c : Comparison) (selection : Selection) (argument : String) : Except Rejection Value :=
  if c.operator.isOrdering then selection.coerceOrdered c.selector argument
  else selection.coerce c.selector argument

/-- A comparison is rejected on its own account. -/
inductive Rejected (schema : Schema) (c : Comparison) (e : Rejection) : Prop where
  | selector (h : schema.select c.selector = .error e)
  | missing {selection : Selection} (hselect : schema.select c.selector = .ok selection)
      (harguments : c.arguments = []) (h : e = .missingArgument c.selector)
  /-- The first argument that has no value, among those that the operator takes. -/
  | argument {selection : Selection} (hselect : schema.select c.selector = .ok selection)
      (harguments : c.arguments ≠ []) (h : FirstFailure (c.read selection) c.taken e)

theorem values_eq_mapM (selection : Selection) :
    c.values selection = c.taken.mapM (c.read selection) := by
  unfold values read
  cases c.operator.isOrdering <;> rfl

/-- A comparison is rejected for one of the reasons, and for no other. -/
theorem rejected_iff : c.compile b schema = .error e ↔ c.Rejected schema e := by
  rw [compile_eq, bind_eq_error_iff]
  constructor
  · rintro (hselect | ⟨selection, hselect, hrest⟩)
    · exact .selector hselect
    · -- the arguments are read only if there are any; the first one that fails is the reason
      split at hrest
      · next harguments =>
        exact .missing hselect harguments (Except.error.inj hrest).symm
      · next harguments =>
        refine .argument hselect harguments (mapM_eq_error_iff.mp ?_)
        rw [← values_eq_mapM]
        cases hvalues : c.values selection with
        | ok values => simp [hvalues, Except.map] at hrest
        | error _ => simpa [hvalues, Except.map] using hrest
  · rintro (hselect | ⟨hselect, harguments, rfl⟩ | ⟨hselect, harguments, hfailure⟩)
    · exact .inl hselect
    · exact .inr ⟨_, hselect, if_pos harguments⟩
    · refine .inr ⟨_, hselect, ?_⟩
      rw [if_neg harguments, values_eq_mapM, mapM_eq_error_iff.mpr hfailure]
      rfl

end Comparison

/-! ### Queries -/

/-- What is left of a result without its value: whether it is one, and the error if not. -/
def outcome {ε α : Type} (x : Except ε α) : Except ε Unit := x.map fun _ => ()

section

variable {ε α β γ : Type} {e : ε}

theorem outcome_eq_error_iff {x : Except ε α} : outcome x = .error e ↔ x = .error e := by
  cases x <;> simp [outcome, Except.map]

theorem outcome_bind_pure (x : Except ε α) (f : α → β) :
    outcome (x >>= fun a => pure (f a)) = outcome x := by
  cases x <;> rfl

/-- Two steps that do not depend on each other have their outcomes one after the other. -/
theorem outcome_bind_bind (x : Except ε α) (y : Except ε β) (f : α → β → γ) :
    outcome (x >>= fun a => y >>= fun b => pure (f a b)) = outcome x >>= fun _ => outcome y := by
  cases x <;> cases y <;> rfl

end

namespace Query

variable {π : Type} {b : Backend π} {schema : Schema} {query : Query} {e : Rejection}

/-- The outcome of several members is that of all their comparisons in order. -/
theorem outcome_conditionsOf {members : List Query}
    (h : ∀ member ∈ members, outcome (member.conditions b schema) =
      outcome (member.leaves.mapM (Comparison.compile b schema))) :
    outcome (conditionsOf b schema members) =
      outcome ((leavesOf members).mapM (Comparison.compile b schema)) := by
  induction members with
  | nil => rfl
  | cons member members ih =>
    obtain ⟨hmember, hmembers⟩ := List.forall_mem_cons.mp h
    rw [conditionsOf, leavesOf, List.mapM_append, outcome_bind_bind, outcome_bind_bind, hmember,
      ih hmembers]

/-- Compiling a query goes as compiling its comparisons one after the other. -/
theorem outcome_conditions : outcome (query.conditions b schema) =
    outcome (query.leaves.mapM (Comparison.compile b schema)) := by
  induction query with
  | comparison c =>
    rw [conditions, leaves, List.mapM_cons, List.mapM_nil, outcome_bind_pure]
    exact (outcome_bind_pure _ _).symm
  | and members ih =>
    rw [conditions, leaves, outcome_bind_pure, outcome_conditionsOf ih]
  | or members ih =>
    rw [conditions, leaves, outcome_bind_pure, outcome_conditionsOf ih]

/-- Joining the conditions has no say in the outcome. -/
theorem outcome_compile : outcome (query.compile b schema) =
    outcome (query.conditions b schema) := by
  unfold compile
  cases query.conditions b schema with
  | error _ => rfl
  | ok conditions =>
    -- one condition stands for itself, and no number of conditions is rejected
    rcases conditions with _ | ⟨_, _ | _⟩ <;> rfl

/-- **The first rejection.** A query is rejected with the rejection of the first of its comparisons
that is rejected, in the order of the text and whatever the backend. The rejection of a comparison
is that of its selector, or else that it has no argument, or else that of the first argument to be
rejected among those that its operator takes. -/
theorem compile_eq_error_iff :
    (query.compile b schema = .error e ↔
      FirstFailure (Comparison.compile b schema) query.leaves e) ∧
    ∀ c : Comparison, c.compile b schema = .error e ↔ c.Rejected schema e := by
  refine ⟨?_, fun c => Comparison.rejected_iff⟩
  rw [← outcome_eq_error_iff, outcome_compile, outcome_conditions, outcome_eq_error_iff,
    mapM_eq_error_iff]

/-- An unknown operator takes none of its arguments, and nothing behind the first bad argument is
looked at. -/
example : Query.compile .standard Schema.target
    (.or [.and [.comparison ⟨"createdat", .other "=x=", ["late"]⟩],
      .comparison ⟨"createdat", .isIn, ["1", "late", "early"]⟩,
      .comparison ⟨"bogus", .equal, ["1"]⟩]) =
    .error (.invalidArgument "late" "createdat" .int64) := by
  rfl

end Query

end FilterQuery
