/-!
# Cutting and replacing at a character

A dotted name is cut at every dot, and the wildcard of a query is replaced by the wildcard of the
store. Cutting keeps empty pieces, so that joining the pieces gives the text back (`join_split`).

In the other direction, pieces without the mark are found again when they are joined and cut
(`split_join`), as long as there is a piece at least: the empty text is one piece that is empty. No
piece has the mark in it (`not_mem_of_mem_split`). The lemmas are about lists of characters first
and about strings by them.
-/

namespace FilterQuery.Text

/-- The pieces between the occurrences of `mark`, empty pieces included. -/
def splitChars (mark : Char) : List Char → List (List Char)
  | [] => [[]]
  | c :: rest =>
    if c = mark then [] :: splitChars mark rest
    else match splitChars mark rest with
      | [] => [[c]]
      | piece :: pieces => (c :: piece) :: pieces

/-- The pieces of a text between the occurrences of `mark`, empty pieces included. -/
def split (mark : Char) (s : String) : List String :=
  (splitChars mark s.toList).map String.ofList

/-- The texts with `separator` between neighbours. -/
def join (separator : String) : List String → String
  | [] => ""
  | [s] => s
  | s :: rest => s ++ separator ++ join separator rest

/-- There is a piece at least, even of nothing. -/
theorem splitChars_ne_nil (mark : Char) (cs : List Char) : splitChars mark cs ≠ [] := by
  cases cs with
  | nil => simp [splitChars]
  | cons c rest =>
    rw [splitChars]
    split
    · simp
    · split <;> simp

theorem split_ne_nil (mark : Char) (s : String) : split mark s ≠ [] := by
  simp [split, splitChars_ne_nil]

theorem toList_join_cons (separator s : String) {rest : List String} (h : rest ≠ []) :
    (join separator (s :: rest)).toList =
      s.toList ++ separator.toList ++ (join separator rest).toList := by
  cases rest with
  | nil => exact absurd rfl h
  | cons t rest => simp [join]

/-- The pieces of some characters, joined again, give them back. -/
theorem toList_join_splitChars (mark : Char) (cs : List Char) :
    (join (String.singleton mark) ((splitChars mark cs).map String.ofList)).toList = cs := by
  induction cs with
  | nil => simp [splitChars, join]
  | cons c rest ih =>
    have hne := splitChars_ne_nil mark rest
    rw [splitChars]
    split
    · next h =>
      subst h
      rw [List.map_cons, toList_join_cons _ _ (by simpa using hne), ih]
      simp
    · split
      · next h => exact absurd h hne
      · next piece pieces h =>
        rw [h] at ih
        cases pieces with
        | nil => simpa [join] using ih
        | cons next pieces =>
          rw [List.map_cons, toList_join_cons _ _ (by simp)] at ih ⊢
          simpa using ih

/-- The pieces, joined again, give the text back. -/
theorem join_split (mark : Char) (s : String) : join (String.singleton mark) (split mark s) = s :=
  String.toList_injective (toList_join_splitChars mark s.toList)

/-- Characters without the mark are one piece. -/
theorem splitChars_of_not_mem {mark : Char} {cs : List Char} (h : mark ∉ cs) :
    splitChars mark cs = [cs] := by
  induction cs with
  | nil => rfl
  | cons c rest ih =>
    have hc : c ≠ mark := Ne.symm (List.ne_of_not_mem_cons h)
    rw [splitChars, if_neg hc, ih (List.not_mem_of_not_mem_cons h)]

/-- What stands before the first mark is the first piece. -/
theorem splitChars_append {mark : Char} {cs : List Char} (h : mark ∉ cs) (rest : List Char) :
    splitChars mark (cs ++ mark :: rest) = cs :: splitChars mark rest := by
  induction cs with
  | nil => simp [splitChars]
  | cons c cs ih =>
    have hc : c ≠ mark := Ne.symm (List.ne_of_not_mem_cons h)
    rw [List.cons_append, splitChars, if_neg hc, ih (List.not_mem_of_not_mem_cons h)]

/-- No piece has the mark. -/
theorem not_mem_of_mem_splitChars {mark : Char} {cs piece : List Char}
    (h : piece ∈ splitChars mark cs) : mark ∉ piece := by
  induction cs generalizing piece with
  | nil => simp_all [splitChars]
  | cons c rest ih =>
    rw [splitChars] at h
    split at h
    · rcases List.mem_cons.mp h with rfl | h
      · simp
      · exact ih h
    · next hc =>
      split at h
      · next hnil => exact absurd hnil (splitChars_ne_nil mark rest)
      · next first pieces hpieces =>
        rcases List.mem_cons.mp h with rfl | h
        · have hfirst : mark ∉ first := ih (hpieces ▸ List.mem_cons_self)
          exact List.not_mem_cons_of_ne_of_not_mem (Ne.symm hc) hfirst
        · exact ih (hpieces ▸ List.mem_cons_of_mem _ h)

/-- A text without the mark is its only piece. -/
theorem split_of_not_mem {mark : Char} {s : String} (h : mark ∉ s.toList) : split mark s = [s] := by
  simp [split, splitChars_of_not_mem h]

/-- What stands before the first mark is the first piece. -/
theorem split_append {mark : Char} {s : String} (h : mark ∉ s.toList) (t : String) :
    split mark (s ++ String.singleton mark ++ t) = s :: split mark t := by
  simp [split, splitChars_append h]

/-- The mark is in none of the pieces. -/
theorem not_mem_of_mem_split {mark : Char} {s piece : String} (h : piece ∈ split mark s) :
    mark ∉ piece.toList := by
  obtain ⟨cs, hcs, rfl⟩ := List.mem_map.mp h
  rw [String.toList_ofList]
  exact not_mem_of_mem_splitChars hcs

/-- Only a text without the mark is one piece. -/
theorem not_mem_of_split_eq {mark : Char} {s piece : String} (h : split mark s = [piece]) :
    piece = s ∧ mark ∉ s.toList := by
  have hjoin := join_split mark s
  rw [h] at hjoin
  exact ⟨hjoin, hjoin ▸ not_mem_of_mem_split (h ▸ List.mem_singleton_self piece)⟩

/-- Texts without the mark, joined by it, are the pieces of what they are joined to. -/
theorem split_join {mark : Char} {pieces : List String} (hne : pieces ≠ [])
    (h : ∀ piece ∈ pieces, mark ∉ piece.toList) :
    split mark (join (String.singleton mark) pieces) = pieces := by
  induction pieces with
  | nil => exact absurd rfl hne
  | cons piece pieces ih =>
    obtain ⟨hpiece, hpieces⟩ := List.forall_mem_cons.mp h
    cases pieces with
    | nil => exact split_of_not_mem hpiece
    | cons next pieces =>
      have hjoin : join (String.singleton mark) (piece :: next :: pieces) =
          piece ++ String.singleton mark ++ join (String.singleton mark) (next :: pieces) := rfl
      rw [hjoin, split_append hpiece, ih (List.cons_ne_nil _ _) hpieces]

/-- The text with every `mark` replaced by `new`. -/
def replace (mark : Char) (new : List Char) (s : String) : String :=
  String.ofList (s.toList.flatMap fun c => if c = mark then new else [c])

end FilterQuery.Text
