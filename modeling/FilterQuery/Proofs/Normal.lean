import FilterQuery.Proofs.QueryTree

/-!
# Normal forms

A query is **normal** if each of its groups has at least two members, none of which is a group by
the same connective. To **normalize** a query, from its leaves up, is to splice groups into groups
by the same connective and to put a single member in place of its group.

* **Parts.** A group by a connective has its members as **parts**, and any other query is its own
  part. The members of a normal form are the parts of the normal forms of the members
  (`normalizeParts_eq_flatMap`); they are no groups by the connective, as normal queries are flat.
* **Normal forms are normal** if the groups of the query have members
  (`isNormal_normalize`). An empty group stays what it is, and is not normal.
* **The parser** joins what it has read of a group by another rule than the normal form: one list of
  members at a time, with groups that are normal already. On those both rules agree
  (`join_map_normalize`).
* **Leaves.** The comparisons and their order are kept (`leaves_normalize`).
-/

namespace FilterQuery.Query

variable {connective : Connective} {query : Query} {members : List Query}

/-- The group of some queries by a connective, or the only one of them. -/
def collapse (connective : Connective) : List Query → Query
  | [query] => query
  | members => group connective members

mutual

/-- The normal form of a query. -/
def normalize : Query → Query
  | comparison c => comparison c
  | and members => collapse .and (normalizeParts .and members)
  | or members => collapse .or (normalizeParts .or members)

/-- The normal forms of some queries, spliced into a group by the connective. -/
def normalizeParts (connective : Connective) : List Query → List Query
  | [] => []
  | member :: members => parts connective (normalize member) ++ normalizeParts connective members

end

theorem normalize_group : (group connective members).normalize =
    collapse connective (normalizeParts connective members) := by
  cases connective <;> rfl

theorem normalizeParts_eq_flatMap :
    normalizeParts connective members = members.flatMap fun m => parts connective m.normalize := by
  induction members with
  | nil => rfl
  | cons member members ih => rw [normalizeParts, ih, List.flatMap_cons]

theorem normalizeParts_append (first second : List Query) :
    normalizeParts connective (first ++ second) =
      normalizeParts connective first ++ normalizeParts connective second := by
  simp only [normalizeParts_eq_flatMap, List.flatMap_append]

/-- A query without trivial nesting. -/
inductive IsNormal : Query → Prop where
  | comparison (c : Comparison) : IsNormal (comparison c)
  | and {members : List Query} (htwo : 2 ≤ members.length)
      (h : ∀ member ∈ members, IsNormal member)
      (hflat : ∀ member ∈ members, member.isGroup .and = false) : IsNormal (and members)
  | or {members : List Query} (htwo : 2 ≤ members.length)
      (h : ∀ member ∈ members, IsNormal member)
      (hflat : ∀ member ∈ members, member.isGroup .or = false) : IsNormal (or members)

theorem isNormal_group (htwo : 2 ≤ members.length) (h : ∀ member ∈ members, member.IsNormal)
    (hflat : ∀ member ∈ members, member.isGroup connective = false) :
    (group connective members).IsNormal := by
  cases connective
  · exact .and htwo h hflat
  · exact .or htwo h hflat

/-! ### Parts of normal queries -/

theorem collapse_of_two_le (htwo : 2 ≤ members.length) :
    collapse connective members = group connective members := by
  match members, htwo with
  | _ :: _ :: _, _ => rfl

/-- The parts of a normal query are normal and no groups by the connective themselves. -/
theorem IsNormal.of_mem_parts (h : query.IsNormal) {part : Query}
    (hpart : part ∈ parts connective query) :
    part.IsNormal ∧ part.isGroup connective = false := by
  cases hgroup : query.isGroup connective with
  | false =>
    rw [parts_of_isGroup_eq_false hgroup, List.mem_singleton] at hpart
    exact hpart ▸ ⟨h, hgroup⟩
  | true => cases h <;> cases connective <;> simp_all [isGroup, parts]

/-- A normal query has parts. -/
theorem IsNormal.parts_ne_nil (h : query.IsNormal) : parts connective query ≠ [] := by
  cases hgroup : query.isGroup connective with
  | false => simp [parts_of_isGroup_eq_false hgroup]
  | true =>
    intro hnil
    cases h <;> cases connective <;> simp_all [isGroup, parts]

/-- A normal query is the collapse of its parts. -/
theorem IsNormal.collapse_parts (h : query.IsNormal) :
    collapse connective (parts connective query) = query := by
  cases hgroup : query.isGroup connective with
  | false => rw [parts_of_isGroup_eq_false hgroup, collapse]
  | true =>
    have htwo : 2 ≤ (parts connective query).length := by
      cases h <;> cases connective <;> simp_all [isGroup, parts]
    rw [collapse_of_two_le htwo, ← eq_group_parts hgroup]

/-- A member that takes the place of its group is normal as the group is. -/
theorem isNormal_collapse (hne : members ≠ []) (h : ∀ member ∈ members, member.IsNormal)
    (hflat : ∀ member ∈ members, member.isGroup connective = false) :
    (collapse connective members).IsNormal := by
  match members, hne with
  | [query], _ => exact h query List.mem_cons_self
  | first :: second :: rest, _ =>
    exact isNormal_group (by simp) h hflat

/-- The parts of a collapse are what was collapsed. -/
theorem parts_collapse (hflat : ∀ member ∈ members, member.isGroup connective = false) :
    parts connective (collapse connective members) = members := by
  match members, hflat with
  | [], _ => cases connective <;> rfl
  | [query], hflat => exact parts_of_isGroup_eq_false (hflat query List.mem_cons_self)
  | _ :: _ :: _, _ => cases connective <;> rfl

/-! ### Normal forms are normal -/

/-- The parts of the normal forms of queries are normal and no groups by the connective. -/
theorem of_mem_normalizeParts (h : ∀ member ∈ members, member.normalize.IsNormal) {part : Query}
    (hpart : part ∈ normalizeParts connective members) :
    part.IsNormal ∧ part.isGroup connective = false := by
  rw [normalizeParts_eq_flatMap] at hpart
  obtain ⟨member, hmember, hpart⟩ := List.mem_flatMap.mp hpart
  exact (h member hmember).of_mem_parts hpart

/-- A group with members keeps some parts, since the parts of a normal query are never none. -/
theorem normalizeParts_ne_nil (hne : members ≠ [])
    (h : ∀ member ∈ members, member.normalize.IsNormal) :
    normalizeParts connective members ≠ [] := by
  obtain ⟨first, rest, rfl⟩ := List.exists_cons_of_ne_nil hne
  rw [normalizeParts]
  exact List.append_ne_nil_of_left_ne_nil (h first List.mem_cons_self).parts_ne_nil _

/-- A query whose groups have members has a normal form that is normal. -/
theorem isNormal_normalize {kind : Comparison → Prop} (h : query.ComposedOf kind) :
    query.normalize.IsNormal := by
  have hcollapse : ∀ (connective : Connective) (members : List Query), members ≠ [] →
      (∀ member ∈ members, member.normalize.IsNormal) →
      (collapse connective (normalizeParts connective members)).IsNormal :=
    fun connective members hne hmembers =>
      isNormal_collapse (normalizeParts_ne_nil hne hmembers)
        (fun part hpart => (of_mem_normalizeParts hmembers hpart).1)
        fun part hpart => (of_mem_normalizeParts hmembers hpart).2
  induction h with
  | comparison _ => exact .comparison _
  | and hne _ ih => exact hcollapse .and _ hne ih
  | or hne _ ih => exact hcollapse .or _ hne ih

/-- Normal queries are their own normal forms. -/
theorem IsNormal.normalize_eq (h : query.IsNormal) : query.normalize = query := by
  -- the members of a normal group are no groups of its kind, so each is its own only part
  have hparts : ∀ (connective : Connective) (members : List Query),
      (∀ member ∈ members, member.normalize = member) →
      (∀ member ∈ members, member.isGroup connective = false) →
      normalizeParts connective members = members := by
    intro connective members hself hflat
    induction members with
    | nil => rfl
    | cons member members ih =>
      rw [List.forall_mem_cons] at hself hflat
      rw [normalizeParts, hself.1, parts_of_isGroup_eq_false hflat.1, ih hself.2 hflat.2,
        List.singleton_append]
  induction h with
  | comparison _ => rfl
  | and htwo _ hflat ih => rw [normalize, hparts .and _ ih hflat, collapse_of_two_le htwo, group]
  | or htwo _ hflat ih => rw [normalize, hparts .or _ ih hflat, collapse_of_two_le htwo, group]

/-! ### Joined groups -/

/-- The group of some queries as the parser joins them. -/
def join : Connective → List Query → Query
  | .and, members => joinAnd members
  | .or, members => joinOr members

/-- Two members or more are joined to a group of their parts. -/
theorem join_of_two_le (htwo : 2 ≤ members.length) :
    join connective members = group connective (members.flatMap (parts connective)) := by
  have hconjuncts : conjuncts = parts .and := by
    funext query
    cases query <;> rfl
  have hdisjuncts : disjuncts = parts .or := by
    funext query
    cases query <;> rfl
  match members, htwo with
  | _ :: _ :: _, _ =>
    cases connective
    · rw [join, joinAnd, hconjuncts]
      · rfl
      · simp
    · rw [join, joinOr, hdisjuncts]
      · rfl
      · simp

/-- Normal queries are joined to the collapse of their parts. -/
theorem join_eq_collapse (h : ∀ member ∈ members, member.IsNormal) :
    join connective members = collapse connective (members.flatMap (parts connective)) := by
  match members, h with
  | [], _ => cases connective <;> rfl
  | [query], h =>
    rw [List.flatMap_singleton, (h query List.mem_cons_self).collapse_parts]
    cases connective <;> rfl
  | first :: second :: rest, h =>
    -- each of the members has a part at least, so the joined group has two
    have hlength : ∀ member ∈ first :: second :: rest, 0 < (parts connective member).length :=
      fun member hmember => List.length_pos_iff.mpr (h member hmember).parts_ne_nil
    have hfirst := hlength first (by simp)
    have hsecond := hlength second (by simp)
    have htwo : 2 ≤ ((first :: second :: rest).flatMap (parts connective)).length := by
      simp only [List.flatMap_cons, List.length_append]
      omega
    rw [join_of_two_le (by simp), collapse_of_two_le htwo]

/-- The join of the normal forms of some queries is the normal form of their group. -/
theorem join_map_normalize (h : ∀ member ∈ members, member.normalize.IsNormal) :
    join connective (members.map normalize) = (group connective members).normalize := by
  rw [join_eq_collapse (by simpa using h), normalize_group, normalizeParts_eq_flatMap,
    List.flatMap_map]

/-! ### Leaves -/

theorem leavesOf_parts : leavesOf (parts connective query) = query.leaves := by
  cases connective <;> cases query <;> simp [parts, leaves, leavesOf]

/-- Leaving out a group keeps the leaves. -/
theorem leaves_collapse : (collapse connective members).leaves = leavesOf members := by
  unfold collapse
  split
  · simp [leavesOf]
  · cases connective <;> rfl

/-- Normalizing keeps the leaves and their order. -/
theorem leaves_normalize (query : Query) : query.normalize.leaves = query.leaves := by
  have hparts : ∀ (connective : Connective) (members : List Query),
      (∀ member ∈ members, member.normalize.leaves = member.leaves) →
      leavesOf (normalizeParts connective members) = leavesOf members := by
    intro connective members hmembers
    induction members with
    | nil => rfl
    | cons member members ih =>
      rw [normalizeParts, leavesOf_append, leavesOf_parts, leavesOf,
        hmembers member List.mem_cons_self,
        ih fun other hother => hmembers other (List.mem_cons_of_mem _ hother)]
  induction query with
  | comparison c => rfl
  | and members ih => rw [normalize, leaves_collapse, leaves, hparts .and members ih]
  | or members ih => rw [normalize, leaves_collapse, leaves, hparts .or members ih]

theorem mem_leavesOf {c : Comparison} {member : Query} (hmember : member ∈ members)
    (hc : c ∈ member.leaves) : c ∈ leavesOf members := by
  rw [leavesOf_eq_flatMap]
  exact List.mem_flatMap.mpr ⟨member, hmember, hc⟩

/-- A normal query is composed of its leaves. -/
theorem IsNormal.composedOf {kind : Comparison → Prop} (h : query.IsNormal)
    (hkind : ∀ c ∈ query.leaves, kind c) : query.ComposedOf kind := by
  have hne : ∀ {members : List Query}, 2 ≤ members.length → members ≠ [] := by
    rintro members htwo rfl
    cases htwo
  induction h with
  | comparison c => exact .comparison (hkind c (List.mem_singleton_self c))
  | and htwo _ _ ih =>
    exact .and (hne htwo) fun member hmember =>
      ih member hmember fun c hc => hkind c (mem_leavesOf hmember hc)
  | or htwo _ _ ih =>
    exact .or (hne htwo) fun member hmember =>
      ih member hmember fun c hc => hkind c (mem_leavesOf hmember hc)

end FilterQuery.Query
