import FilterQuery.Proofs.PredicateTree
import FilterQuery.Proofs.Reaching
import Mathlib.Logic.Relation

/-!
# The layout of arrays

A path looks into every array on its way, so it does not see how arrays are laid out: in which order
the items stand, whether they are gathered in arrays of their own, whether a value is an array of
one item, and what holds `null` or nothing at all. Documents that differ in the **layout** of their
arrays only (`Json.Rearranged`) reach the same values, except that an object that is reached may be
laid out differently in its turn (`Json.Alike`).

* **Changes.** `Json.Rearranges` has a constructor for each change, and one for each place where it
  may be made; `Json.Rearranged` is the equivalence that the changes generate.
* **A change is not seen.** Where a path reaches a value before the change, it reaches one like it
  behind the change, and the other way round (`Rearranges.reflects`). One induction over the changes
  shows both directions.
* **Tests.** No test of a predicate looks into an object, so like values answer it alike. An entry
  does look into the object that it binds, but what it binds is again an object of another layout:
  scopes are compared by what they bind (`Scope.Rearranged`).

So every predicate, whatever its entries and negations, selects a document in all of its layouts or
in none (`Predicate.selects_eq_of_rearranged`).
-/

namespace FilterQuery

namespace Json

/-! ### Changes of layout -/

/-- Nothing is reached from the value. -/
def IsVoid (value : Json) : Prop := value = null ∨ value = array []

/-- One change of layout, somewhere in a document. -/
inductive Rearranges : Json → Json → Prop where
  | permute {items items' : List Json} (h : items.Perm items') :
      Rearranges (array items) (array items')
  /-- An item that is an array gives way to its items. -/
  | splice (before items after : List Json) :
      Rearranges (array (before ++ array items :: after)) (array (before ++ items ++ after))
  | wrap (value : Json) : Rearranges value (array [value])
  | dropNull (before after : List Json) :
      Rearranges (array (before ++ null :: after)) (array (before ++ after))
  | dropMember {members : List (String × Json)} {name : String} {value : Json}
      (hvalue : members.lookup name = some value) (hvoid : value.IsVoid) :
      Rearranges (object members) (object (members.filter (·.1 ≠ name)))
  | item (before after : List Json) {value value' : Json} (h : Rearranges value value') :
      Rearranges (array (before ++ value :: after)) (array (before ++ value' :: after))
  | member (before after : List (String × Json)) (name : String) {value value' : Json}
      (h : Rearranges value value') :
      Rearranges (object (before ++ (name, value) :: after))
        (object (before ++ (name, value') :: after))

/-- Two values differ in layout only, by any number of changes in either direction. -/
def Rearranged (value value' : Json) : Prop := Relation.EqvGen Rearranges value value'

/-- Two values that are reached are the same, or objects that differ in layout. -/
inductive Alike : Json → Json → Prop where
  | same (value : Json) : Alike value value
  | objects {members members' : List (String × Json)}
      (h : Rearranged (object members) (object members')) :
      Alike (object members) (object members')

/-- Along any names, the second value reaches what the first one does. -/
def Reflects (value value' : Json) : Prop :=
  ∀ ⦃names found⦄, ReachedAlong found names value →
    ∃ found', ReachedAlong found' names value' ∧ Alike found found'

variable {value value' : Json} {members members' : List (String × Json)}

theorem IsVoid.not_reachedAlong (h : value.IsVoid) {names : List String} {found : Json} :
    ¬ ReachedAlong found names value := by
  rcases h with rfl | rfl
  · exact not_reachedAlong_null
  · simp [reachedAlong_array_iff]

namespace Alike

theorem rearranged (h : Alike value value') : Rearranged value value' := by
  cases h with
  | same => exact .refl _
  | objects h => exact h

theorem symm (h : Alike value value') : Alike value' value := by
  cases h with
  | same => exact .same _
  | objects h => exact .objects (.symm _ _ h)

theorem trans {value'' : Json} (h : Alike value value') (h' : Alike value' value'') :
    Alike value value'' := by
  cases h with
  | same => exact h'
  | objects h =>
    cases h' with
    | same => exact .objects h
    | objects h' => exact .objects (.trans _ _ _ h h')

end Alike

namespace Reflects

theorem refl (value : Json) : Reflects value value :=
  fun _ found h => ⟨found, h, .same found⟩

theorem trans {value'' : Json} (h : Reflects value value') (h' : Reflects value' value'') :
    Reflects value value'' := by
  intro names found hfound
  obtain ⟨found', hfound', halike⟩ := h hfound
  obtain ⟨found'', hfound'', halike'⟩ := h' hfound'
  exact ⟨found'', hfound'', halike.trans halike'⟩

/-- An array reflects in a value if its items do. -/
theorem of_items {items : List Json} (h : ∀ item ∈ items, Reflects item value) :
    Reflects (array items) value := by
  intro names found hfound
  obtain ⟨item, hitem, hfound⟩ := reachedAlong_array_iff.mp hfound
  exact h item hitem hfound

/-- A value reflects in an array if it does in an item. -/
theorem into_item {items : List Json} {item : Json} (hitem : item ∈ items)
    (h : Reflects value item) : Reflects value (array items) := by
  intro names found hfound
  obtain ⟨found', hfound', halike⟩ := h hfound
  exact ⟨found', .item hitem hfound', halike⟩

/-- The items around those that change take no part. -/
theorem of_inner {before after inner inner' : List Json}
    (h : ∀ item ∈ inner, Reflects item (array (before ++ inner' ++ after))) :
    Reflects (array (before ++ inner ++ after)) (array (before ++ inner' ++ after)) := by
  refine .of_items fun item hitem => ?_
  rcases List.mem_append.mp hitem with hitem | hafter
  · rcases List.mem_append.mp hitem with hbefore | hinner
    · exact .into_item (by simp [hbefore]) (.refl item)
    · exact h item hinner
  · exact .into_item (by simp [hafter]) (.refl item)

/-- An object reflects in an object of another layout if its members do, those without content
aside. -/
theorem of_members (hlayout : Rearranged (object members) (object members'))
    (h : ∀ name value, members.lookup name = some value → value.IsVoid ∨
      ∃ value', members'.lookup name = some value' ∧ Reflects value value') :
    Reflects (object members) (object members') := by
  intro names found hfound
  cases names with
  | nil =>
    obtain rfl := reachedAlong_nil_object_iff.mp hfound
    exact ⟨object members', .here rfl rfl, .objects hlayout⟩
  | cons name names =>
    obtain ⟨value, hvalue, hfound⟩ := reachedAlong_cons_object_iff.mp hfound
    rcases h name value hvalue with hvoid | ⟨value', hvalue', hreflects⟩
    · exact absurd hfound hvoid.not_reachedAlong
    · obtain ⟨found', hfound', halike⟩ := hreflects hfound
      exact ⟨found', .member hvalue' hfound', halike⟩

end Reflects

/-!
### A change of layout is not seen

One direction at a time: what the first value reaches along some names, the second one reaches too.
Objects are found in their own layouts, since a change may be inside them, so they are the same up
to layout only.
-/

theorem lookup_filter_ne (members : List (String × Json)) (name other : String) :
    (members.filter (·.1 ≠ name)).lookup other =
      if other = name then none else members.lookup other := by
  induction members with
  | nil => simp
  | cons member members ih => grind

/-- What a member that is replaced reflects in, the object does. -/
theorem reflects_member {before after : List (String × Json)} {name : String}
    (hlayout : Rearranged (object (before ++ (name, value) :: after))
      (object (before ++ (name, value') :: after))) (h : Reflects value value') :
    Reflects (object (before ++ (name, value) :: after))
      (object (before ++ (name, value') :: after)) := by
  refine .of_members hlayout fun other found hfound => .inr ?_
  rw [List.lookup_append, List.lookup_cons] at hfound ⊢
  cases hbefore : before.lookup other with
  | some first =>
    rw [hbefore] at hfound
    exact ⟨found, hfound, .refl found⟩
  | none =>
    rw [hbefore, Option.none_or] at hfound
    rw [Option.none_or]
    cases hname : other == name with
    | true =>
      rw [hname] at hfound
      obtain rfl := Option.some.inj hfound
      exact ⟨value', rfl, h⟩
    | false =>
      rw [hname] at hfound
      exact ⟨found, hfound, .refl found⟩

/-- Each layout reflects in the other. -/
theorem Rearranges.reflects (h : Rearranges value value') :
    Reflects value value' ∧ Reflects value' value := by
  induction h with
  | permute h =>
    exact ⟨.of_items fun item hitem => .into_item (h.mem_iff.mp hitem) (.refl item),
      .of_items fun item hitem => .into_item (h.mem_iff.mpr hitem) (.refl item)⟩
  -- an inner array holds the items that stood in its place, and no others
  | splice before items after =>
    rw [List.append_cons]
    constructor
    · refine .of_inner (List.forall_mem_singleton.mpr (.of_items fun item hitem => ?_))
      exact .into_item (by simp [hitem]) (.refl item)
    · refine .of_inner fun item hitem => ?_
      exact .into_item (by simp) (.into_item hitem (.refl item))
  | wrap value =>
    exact ⟨.into_item (List.mem_singleton_self value) (.refl value),
      .of_items (List.forall_mem_singleton.mpr (.refl value))⟩
  -- nothing is reached in the null, so neither layout has more than the other
  | dropNull before after =>
    have hnull : Reflects null (array (before ++ [] ++ after)) :=
      fun _ _ hfound => absurd hfound not_reachedAlong_null
    have hdrop := Reflects.of_inner (List.forall_mem_singleton.mpr hnull)
    have hadd := @Reflects.of_inner before after [] [null] nofun
    rw [List.append_nil, ← List.append_cons] at hdrop hadd
    exact ⟨hdrop, hadd⟩
  -- the members with the name are gone, and no path through them reached a thing
  | @dropMember members name value hvalue hvoid =>
    have hlayout : Rearranged (object members) (object (members.filter (·.1 ≠ name))) :=
      .rel _ _ (.dropMember hvalue hvoid)
    constructor
    · refine .of_members hlayout fun other found hfound => ?_
      rw [lookup_filter_ne]
      by_cases hname : other = name
      · obtain rfl := Option.some.inj (hvalue.symm.trans (hname ▸ hfound))
        exact .inl hvoid
      · rw [if_neg hname]
        exact .inr ⟨found, hfound, .refl found⟩
    · refine .of_members (.symm _ _ hlayout) fun other found hfound => ?_
      rw [lookup_filter_ne] at hfound
      split at hfound
      · cases hfound
      · exact .inr ⟨found, hfound, .refl found⟩
  -- the change is in an item or in a member, and the hypothesis is about this inner value
  | @item before after value value' _ ih =>
    rw [List.append_cons, List.append_cons before value']
    constructor
    · exact .of_inner (List.forall_mem_singleton.mpr (.into_item (by simp) ih.1))
    · exact .of_inner (List.forall_mem_singleton.mpr (.into_item (by simp) ih.2))
  | @member before after name value value' h ih =>
    have hlayout : Rearranged (object (before ++ (name, value) :: after))
        (object (before ++ (name, value') :: after)) :=
      .rel _ _ (.member before after name h)
    exact ⟨reflects_member hlayout ih.1, reflects_member (.symm _ _ hlayout) ih.2⟩

/-- A document and its layouts reflect each other. -/
theorem Rearranged.reflects (h : Rearranged value value') :
    Reflects value value' ∧ Reflects value' value := by
  induction h with
  | rel _ _ h => exact h.reflects
  | refl value => exact ⟨.refl value, .refl value⟩
  | symm _ _ _ ih => exact ih.symm
  | trans _ _ _ _ _ ih ih' => exact ⟨ih.1.trans ih'.1, ih'.2.trans ih.2⟩

end Json

/-! ### Tests look into no object -/

open Json

theorem Value.compareJson?_object (value : Value) (members : List (String × Json)) :
    value.compareJson? (object members) = none := by
  cases value <;> rfl

theorem Value.equalsJson_object (value : Value) (members : List (String × Json)) :
    value.equalsJson (object members) = false := by
  cases value <;> rfl

/-- A question has the same answer at all objects. -/
theorem Predicate.accepts_eq_of_alike {p : Predicate} {question : Question} {json json' : Json}
    (h : p.question? = some question) (halike : Alike json json') :
    question.accepts json = question.accepts json' := by
  cases halike with
  | same => rfl
  | objects =>
    cases p <;> cases h <;>
      simp [Value.equalsJson_object, Value.compareJson?_object, likeJson, plainText?]

/-! ### Scopes -/

/-- Two scopes differ in the layout of the document and of the bound element only. -/
inductive Scope.Rearranged : Scope → Scope → Prop where
  | outside {document document' : Json} (hdocument : document.Rearranged document') :
      Rearranged ⟨document, none⟩ ⟨document', none⟩
  | inside {document document' element element' : Json} (boundary : List String)
      (hdocument : document.Rearranged document') (helement : element.Rearranged element') :
      Rearranged ⟨document, some (boundary, element)⟩ ⟨document', some (boundary, element')⟩

namespace Scope.Rearranged

variable {scope scope' : Scope} (h : scope.Rearranged scope')
include h

theorem symm : scope'.Rearranged scope := by
  cases h with
  | outside hdocument => exact .outside (.symm _ _ hdocument)
  | inside boundary hdocument helement =>
    exact .inside boundary (.symm _ _ hdocument) (.symm _ _ helement)

theorem enter (path : Path) {element element' : Json} (helement : element.Rearranged element') :
    (scope.enter path element).Rearranged (scope'.enter path element') := by
  cases h with
  | outside hdocument => exact .inside path.segments hdocument helement
  | inside _ hdocument _ => exact .inside path.segments hdocument helement

/-- What a path reaches in one of the scopes is reached in the other, but for its layout. -/
theorem exists_alike {path : Path} {found : Json} (hfound : found ∈ scope.reach path) :
    ∃ found' ∈ scope'.reach path, Json.Alike found found' := by
  have hreflects : ∀ {value value' : Json} {names : List String}, value.Rearranged value' →
      found ∈ value.reach names → ∃ found' ∈ value'.reach names, Json.Alike found found' := by
    intro value value' names hvalue hfound
    obtain ⟨found', hfound', halike⟩ := hvalue.reflects.1 (mem_reach_iff.mp hfound)
    exact ⟨found', mem_reach_iff.mpr hfound', halike⟩
  cases h with
  | outside hdocument => exact hreflects hdocument hfound
  | inside boundary hdocument helement =>
    unfold reach at hfound ⊢
    dsimp only at hfound ⊢
    split at hfound
    · next hprefix =>
      rw [if_pos hprefix]
      exact hreflects helement hfound
    · next hprefix =>
      rw [if_neg hprefix]
      exact hreflects hdocument hfound

/-- Tests that agree on values of different layout find a value in both scopes or in none. -/
theorem any_reach_eq (path : Path) {test test' : Json → Bool}
    (htest : ∀ json json', Json.Alike json json' → test json = test' json') :
    (scope.reach path).any test = (scope'.reach path).any test' := by
  rw [Bool.eq_iff_iff, List.any_eq_true, List.any_eq_true]
  constructor
  · rintro ⟨json, hjson, hpasses⟩
    obtain ⟨json', hjson', halike⟩ := h.exists_alike hjson
    exact ⟨json', hjson', htest json json' halike ▸ hpasses⟩
  · rintro ⟨json', hjson', hpasses⟩
    obtain ⟨json, hjson, halike⟩ := h.symm.exists_alike hjson'
    exact ⟨json, hjson, (htest json json' halike.symm).symm ▸ hpasses⟩

end Scope.Rearranged

/-! ### Predicates -/

namespace Predicate

/-- A predicate holds in like scopes or in neither. -/
theorem holds_eq_of_rearranged {p : Predicate} {scope scope' : Scope}
    (h : scope.Rearranged scope') : p.holds scope = p.holds scope' := by
  induction p using question_induction generalizing scope scope' with
  | always => rfl
  | question p question hquestion =>
    rw [holds_of_question? hquestion, holds_of_question? hquestion]
    exact h.any_reach_eq question.path fun json json' => accepts_eq_of_alike hquestion
  | not p ih => rw [holds, holds, ih h]
  | and ps ih =>
    rw [holds, holds, holdAll_eq_all, holdAll_eq_all, Bool.eq_iff_iff, List.all_eq_true,
      List.all_eq_true]
    exact forall₂_congr fun p hp => by rw [ih p hp h]
  | or ps ih =>
    rw [holds, holds, holdAny_eq_any, holdAny_eq_any, Bool.eq_iff_iff, List.any_eq_true,
      List.any_eq_true]
    exact exists_congr fun p => and_congr_right fun hp => by rw [ih p hp h]
  | entry path p ih =>
    -- the elements that the entry binds are alike, and so are the scopes inside it
    rw [holds, holds]
    exact h.any_reach_eq path fun element element' halike => ih (h.enter path halike.rearranged)

/-- **Layout of arrays.** A predicate selects a document in all layouts of its arrays or in none. -/
theorem selects_eq_of_rearranged {document document' : Json} (h : document.Rearranged document')
    (p : Predicate) : p.selects document = p.selects document' :=
  holds_eq_of_rearranged (.outside h)

/-- The parts of a disk may be gathered in arrays of their own, in another order and next to
`null`. -/
theorem selects_eq_of_rearranged_disks : ∃ document document' : Json,
    document = .object [
      ("disks", .object [("parts", .array [.array [.string "a"], .null, .string "b"])]),
      ("tags", .array [])] ∧
    document' = .object [
      ("disks", .array [.object [("parts", .array [.string "b", .string "a"])]])] ∧
    document.Rearranged document' ∧
    ∀ p : Predicate, p.selects document = p.selects document' := by
  have hdocument : Json.Rearranged
      (.object [("disks", .object [("parts", .array [.array [.string "a"], .null, .string "b"])]),
        ("tags", .array [])])
      (.object [("disks", .array [.object [("parts", .array [.string "b", .string "a"])]])]) := by
    let nested := Json.object [("parts", .array [.array [.string "a"], .null, .string "b"])]
    have htags : Rearranges (.object [("disks", nested), ("tags", .array [])])
        (.object [("disks", nested)]) :=
      .dropMember (rfl : List.lookup "tags" _ = some (.array [])) (.inr rfl)
    have hnull : Rearranges (.array [.array [.string "a"], .null, .string "b"])
        (.array [.array [.string "a"], .string "b"]) :=
      .dropNull [.array [.string "a"]] [.string "b"]
    have hsplice : Rearranges (.array [.array [.string "a"], .string "b"])
        (.array [.string "a", .string "b"]) :=
      .splice [] [.string "a"] [.string "b"]
    have hswap : Rearranges (.array [.string "a", .string "b"])
        (.array [.string "b", .string "a"]) :=
      .permute (.swap _ _ _)
    have hparts : ∀ {parts parts' : Json}, Rearranges parts parts' →
        Rearranges (.object [("disks", .object [("parts", parts)])])
          (.object [("disks", .object [("parts", parts')])]) :=
      fun h => .member [] [] "disks" (.member [] [] "parts" h)
    refine .trans _ _ _ (.rel _ _ htags) ?_
    refine .trans _ _ _ (.rel _ _ (hparts hnull)) ?_
    refine .trans _ _ _ (.rel _ _ (hparts hsplice)) ?_
    refine .trans _ _ _ (.rel _ _ (hparts hswap)) ?_
    exact .rel _ _ (.member [] [] "disks" (.wrap _))
  exact ⟨_, _, rfl, rfl, hdocument, selects_eq_of_rearranged hdocument⟩

end Predicate

end FilterQuery
