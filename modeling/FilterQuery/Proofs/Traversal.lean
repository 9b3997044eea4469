import Mathlib.Data.List.Forall2

/-!
# Going through lists

Selecting the attributes of a path, reading the arguments of a comparison and compiling the members
of a group all go through a list with a step that may fail, and stop where it does. This module has
what is said of such steps whatever they do.

* **Related lists.** A relation between items is one between lists of them, item by item
  (`List.Forall₂`); what is on one side has its partner on the other (`exists_of_forall₂_of_mem`).
* **Two steps.** One step after the other succeeds if both do (`bind_eq_ok_iff`), and fails with the
  first that fails (`bind_eq_error_iff`).
* **Many steps.** Going through a list succeeds if the step gives each item its image, one by one
  and in order: `mapM_eq_some_iff` for steps without an error, `mapM_eq_ok_iff` for those with one.
  What is known of one item and its image follows for the whole lists.
* **Failure.** Going through a list fails with the first failure (`mapM_eq_error_iff`): the step
  succeeds on the items in front of some item and fails there (`FirstFailure`). This item is the
  first one of the list, or the rest is cut at it (`exists_split_cons_iff`).
* **Without the error.** Where the error does not matter, a result is looked at as an option
  (`toOption_bind`, `toOption_mapM`).
-/

namespace FilterQuery

/-! ### Related lists -/

section Relations

variable {α β : Type} {R : α → β → Prop}

/-- What stands on the right of a relation between lists has something on the left. -/
theorem exists_of_forall₂_of_mem {items : List α} {images : List β}
    (h : List.Forall₂ R items images) {image : β} (himage : image ∈ images) :
    ∃ item ∈ items, R item image := by
  induction h with
  | nil => cases himage
  | @cons item first items _ hfirst _ ih =>
    rcases List.mem_cons.mp himage with rfl | himage
    · exact ⟨item, List.mem_cons_self, hfirst⟩
    · obtain ⟨other, hother, hrelated⟩ := ih himage
      exact ⟨other, List.mem_cons_of_mem _ hother, hrelated⟩

/-- Two pairs of lists of the same lengths are related if they are one after the other. -/
theorem forall₂_of_append {first second : List α} {first' second' : List β}
    (hlength : first.length = first'.length)
    (h : List.Forall₂ R (first ++ second) (first' ++ second')) :
    List.Forall₂ R first first' ∧ List.Forall₂ R second second' := by
  have htake := List.forall₂_take_append _ _ _ h
  have hdrop := List.forall₂_drop_append _ _ _ h
  rw [← hlength, List.take_left] at htake
  rw [← hlength, List.drop_left] at hdrop
  exact ⟨htake, hdrop⟩

end Relations

/-! ### Two steps -/

section Results

variable {ε α β : Type}

/-- A sequence of two steps succeeds if both of them do. -/
theorem bind_eq_ok_iff {x : Except ε α} {f : α → Except ε β} {b : β} :
    x >>= f = .ok b ↔ ∃ a, x = .ok a ∧ f a = .ok b := by
  cases x <;> simp [bind, Except.bind]

/-- A sequence of two steps fails if the first of them does, or else the second. -/
theorem bind_eq_error_iff {x : Except ε α} {f : α → Except ε β} {e : ε} :
    x >>= f = .error e ↔ x = .error e ∨ ∃ a, x = .ok a ∧ f a = .error e := by
  cases x <;> simp [bind, Except.bind]

/-! ### Results without their errors -/

variable {x y : Except ε α}

theorem toOption_bind (x : Except ε α) (f : α → Except ε β) :
    (x >>= f).toOption = x.toOption.bind fun a => (f a).toOption := by
  cases x <;> rfl

theorem toOption_map (x : Except ε α) (f : α → β) : (x.map f).toOption = x.toOption.map f := by
  cases x <;> rfl

/-- A result is a success if something is left of it without its error. -/
theorem toOption_eq_some_iff {a : α} : x.toOption = some a ↔ x = .ok a := by
  cases x <;> simp [Except.toOption]

/-- Results that agree but for their errors are successes with the same values. -/
theorem eq_ok_iff_of_toOption_eq (h : x.toOption = y.toOption) (a : α) : x = .ok a ↔ y = .ok a := by
  rw [← toOption_eq_some_iff, h, toOption_eq_some_iff]

end Results

/-! ### Steps without an error -/

section Options

variable {α β γ : Type} {f : α → Option β} {items : List α} {images : List β}

/-- **Traversal.** Each item has its image, one by one. -/
theorem mapM_eq_some_iff :
    items.mapM f = some images ↔
      List.Forall₂ (fun item image => f item = some image) items images := by
  induction items generalizing images with
  | nil => simp [eq_comm]
  | cons item items ih =>
    rw [List.mapM_cons, List.forall₂_cons_left_iff]
    simp only [Option.bind_eq_bind, Option.bind_eq_some_iff, ih]
    constructor
    · rintro ⟨image, himage, rest, hrest, heq⟩
      exact ⟨image, rest, himage, hrest, (Option.some.inj heq).symm⟩
    · rintro ⟨image, rest, himage, hrest, rfl⟩
      exact ⟨image, himage, rest, hrest, rfl⟩

/-- There is one image if there is one item, which has it. -/
theorem mapM_eq_some_singleton_iff {image : β} :
    items.mapM f = some [image] ↔ ∃ item, items = [item] ∧ f item = some image := by
  simp [mapM_eq_some_iff, List.forall₂_cons_right_iff, and_comm]

/-- Each image is that of an item. -/
theorem exists_mem_of_mapM_eq_some (h : items.mapM f = some images) {image : β}
    (himage : image ∈ images) : ∃ item ∈ items, f item = some image :=
  exists_of_forall₂_of_mem (mapM_eq_some_iff.mp h) himage

theorem mapM_map_eq (f : α → Option β) (g : β → γ) (items : List α) :
    (items.mapM fun item => (f item).map g) = (items.mapM f).map (List.map g) := by
  induction items with
  | nil => rfl
  | cons item items ih =>
    rw [List.mapM_cons, List.mapM_cons, ih]
    cases f item <;> cases items.mapM f <;> rfl

end Options

/-! ### Steps with an error -/

section Steps

variable {ε α β : Type} {step : α → Except ε β} {items : List α} {images : List β}

theorem toOption_mapM (step : α → Except ε β) (items : List α) :
    (items.mapM step).toOption = items.mapM fun item => (step item).toOption := by
  induction items with
  | nil => rfl
  | cons item items ih =>
    rw [List.mapM_cons, List.mapM_cons, toOption_bind]
    refine congrArg (Option.bind _) (funext fun first => ?_)
    rw [toOption_bind, ih]
    rfl

/-- **Traversal.** The step succeeds on each item with its image, one by one. -/
theorem mapM_eq_ok_iff :
    items.mapM step = .ok images ↔
      List.Forall₂ (fun item image => step item = .ok image) items images := by
  rw [← toOption_eq_some_iff, toOption_mapM, mapM_eq_some_iff]
  simp only [toOption_eq_some_iff]

/-- The image of an item is among the images. -/
theorem mem_of_mapM_eq_ok (h : items.mapM step = .ok images) {item : α} (hitem : item ∈ items)
    {image : β} (himage : step item = .ok image) : image ∈ images := by
  induction mapM_eq_ok_iff.mp h with
  | nil => cases hitem
  | cons hfirst hrest ih =>
    rcases List.mem_cons.mp hitem with rfl | hitem
    · cases hfirst.symm.trans himage
      exact List.mem_cons_self
    · exact List.mem_cons_of_mem _ (ih (mapM_eq_ok_iff.mpr hrest) hitem)

end Steps

/-! ### The item where a list is cut -/

/-- A list is cut at its first item, or at one of the others behind the first. -/
theorem exists_split_cons_iff {α : Type} {first : α} {items : List α}
    {P : List α → α → List α → Prop} :
    (∃ before item after, first :: items = before ++ item :: after ∧ P before item after) ↔
      P [] first items ∨
        ∃ before item after, items = before ++ item :: after ∧ P (first :: before) item after := by
  constructor
  · rintro ⟨before, item, after, hitems, h⟩
    rcases List.cons_eq_append_iff.mp hitems with ⟨rfl, hfirst⟩ | ⟨rest, rfl, hrest⟩
    · cases hfirst
      exact .inl h
    · exact .inr ⟨rest, item, after, hrest, h⟩
  · rintro (h | ⟨before, item, after, rfl, h⟩)
    · exact ⟨[], first, items, rfl, h⟩
    · exact ⟨first :: before, item, after, rfl, h⟩

/-! ### The first failure -/

/-- The step succeeds on some items in front and fails on the next one with the given error. -/
def FirstFailure {ε α β : Type} (step : α → Except ε β) (items : List α) (e : ε) : Prop :=
  ∃ before item after, items = before ++ item :: after ∧
    (∀ other ∈ before, ∃ b, step other = .ok b) ∧ step item = .error e

section Failures

variable {ε α β : Type} {step : α → Except ε β} {e : ε}

/-- The first failure is at the first item, or behind it if that item succeeds. -/
theorem firstFailure_cons_iff {item : α} {items : List α} :
    FirstFailure step (item :: items) e ↔
      step item = .error e ∨ (∃ b, step item = .ok b) ∧ FirstFailure step items e := by
  unfold FirstFailure
  rw [exists_split_cons_iff]
  refine or_congr (by simp) ?_
  constructor
  · rintro ⟨before, failing, after, hitems, hbefore, hfailing⟩
    obtain ⟨hfirst, hrest⟩ := List.forall_mem_cons.mp hbefore
    exact ⟨hfirst, before, failing, after, hitems, hrest, hfailing⟩
  · rintro ⟨hfirst, before, failing, after, hitems, hrest, hfailing⟩
    exact ⟨before, failing, after, hitems, List.forall_mem_cons.mpr ⟨hfirst, hrest⟩, hfailing⟩

/-- Going through a list fails with the first failure. -/
theorem mapM_eq_error_iff {items : List α} :
    items.mapM step = .error e ↔ FirstFailure step items e := by
  induction items with
  | nil => simp [FirstFailure, pure, Except.pure]
  | cons item items ih =>
    rw [List.mapM_cons, firstFailure_cons_iff, bind_eq_error_iff, ← ih]
    refine or_congr_right ?_
    constructor
    · rintro ⟨b, hb, hrest⟩
      rcases bind_eq_error_iff.mp hrest with hrest | ⟨bs, -, hpure⟩
      · exact ⟨⟨b, hb⟩, hrest⟩
      · cases hpure
    · rintro ⟨⟨b, hb⟩, hrest⟩
      exact ⟨b, hb, bind_eq_error_iff.mpr (.inl hrest)⟩

end Failures

end FilterQuery
