import FilterQuery.Query.Basic
import FilterQuery.Query.Token
import Mathlib.Data.List.Basic

/-!
# Queries as trees

Induction over a query goes from the members of a group to the group (`Query.induction`). The
**leaves** of a query are its comparisons in the order of the text, and a query is **composed of**
comparisons of some kind if its leaves are of that kind and each of its groups has a member.

The functions on queries are defined together with functions on lists of members. Each of the latter
is compared with the map or the join of the former here, so that later proofs are about lists
(`leavesOf_eq_flatMap`, `mapAll_eq_map`). The two kinds of groups are one by their connective
(`Query.group`), and what is said of groups is said for both at once.
-/

namespace FilterQuery.Query

/-- Induction over the tree of a query. -/
@[elab_as_elim, induction_eliminator]
theorem induction {motive : Query → Prop} (comparison : ∀ c, motive (comparison c))
    (and : ∀ members, (∀ member ∈ members, motive member) → motive (and members))
    (or : ∀ members, (∀ member ∈ members, motive member) → motive (or members))
    (query : Query) : motive query :=
  @Query.rec motive (fun members => ∀ member ∈ members, motive member) comparison and or
    (fun _ h => absurd h List.not_mem_nil)
    (fun _ _ hhead htail => List.forall_mem_cons.mpr ⟨hhead, htail⟩) query

/-! ### Leaves -/

mutual

/-- The comparisons of a query. -/
def leaves : Query → List Comparison
  | comparison c => [c]
  | and members => leavesOf members
  | or members => leavesOf members

/-- The comparisons of some queries, in their order. -/
def leavesOf : List Query → List Comparison
  | [] => []
  | member :: members => leaves member ++ leavesOf members

end

theorem leavesOf_eq_flatMap (members : List Query) : leavesOf members = members.flatMap leaves := by
  induction members with
  | nil => rfl
  | cons member members ih => rw [leavesOf, ih, List.flatMap_cons]

theorem leavesOf_append (first second : List Query) :
    leavesOf (first ++ second) = leavesOf first ++ leavesOf second := by
  simp only [leavesOf_eq_flatMap, List.flatMap_append]

/-! ### Mapping the leaves -/

mutual

/-- The query with every comparison replaced. -/
def map (f : Comparison → Comparison) : Query → Query
  | comparison c => comparison (f c)
  | and members => and (mapAll f members)
  | or members => or (mapAll f members)

/-- The queries with every comparison replaced. -/
def mapAll (f : Comparison → Comparison) : List Query → List Query
  | [] => []
  | member :: members => map f member :: mapAll f members

end

theorem mapAll_eq_map (f : Comparison → Comparison) (members : List Query) :
    mapAll f members = members.map (map f) := by
  induction members with
  | nil => rfl
  | cons member members ih => rw [mapAll, ih, List.map_cons]

/-- Mapping keeps the leaves in their places. -/
theorem leaves_map (f : Comparison → Comparison) (query : Query) :
    (query.map f).leaves = query.leaves.map f := by
  induction query with
  | comparison c => rfl
  | and members ih | or members ih =>
    rw [map, leaves, leaves, leavesOf_eq_flatMap, leavesOf_eq_flatMap, mapAll_eq_map,
      List.flatMap_map, List.map_flatMap]
    exact List.flatMap_congr ih

/-! ### Groups -/

/-- The group of some queries by a connective. -/
def group : Connective → List Query → Query
  | .and, members => and members
  | .or, members => or members

/-- Whether a query is a group by the connective. -/
def isGroup : Connective → Query → Bool
  | .and, and _ => true
  | .or, or _ => true
  | _, _ => false

/-- The members that a query has as a group by the connective, or itself if it is none. -/
def parts : Connective → Query → List Query
  | .and, and members => members
  | .or, or members => members
  | _, query => [query]

theorem parts_of_isGroup_eq_false {connective : Connective} {query : Query}
    (h : query.isGroup connective = false) : parts connective query = [query] := by
  cases connective <;> cases query <;> simp_all [parts, isGroup]

theorem eq_group_parts {connective : Connective} {query : Query}
    (h : query.isGroup connective = true) :
    query = group connective (parts connective query) := by
  cases connective <;> cases query <;> simp_all [parts, isGroup, group]

/-- A query is made of comparisons of some kind in groups that have members. -/
inductive ComposedOf (kind : Comparison → Prop) : Query → Prop where
  | comparison {c : Comparison} (h : kind c) : ComposedOf kind (comparison c)
  | and {members : List Query} (hne : members ≠ [])
      (h : ∀ member ∈ members, ComposedOf kind member) : ComposedOf kind (and members)
  | or {members : List Query} (hne : members ≠ [])
      (h : ∀ member ∈ members, ComposedOf kind member) : ComposedOf kind (or members)

end FilterQuery.Query
