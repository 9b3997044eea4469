import FilterQuery.Predicate.Pattern

/-!
# The language of a pattern

A text **fills** a pattern if it comes from the pattern by putting a run of characters in the place
of each mark and leaving every other character as it is. Matching decides filling (`isMatch_iff`).

* **Filling** is a relation on characters with a predicate for the marks, so that it serves for the
  marks of a query and for the wildcards of a backend alike. It is taken apart at the first
  character of the pattern (`fills_cons_keep_iff`, `fills_cons_mark_iff`).
* **One stretch.** Matching goes from wildcard to wildcard. A stretch of other characters is
  compared at one place of the text (`compareStretch`), with three outcomes: the next wildcard is
  reached, the text is exhausted, or they differ.
* **The scan** never goes back behind the latest wildcard. That loses nothing: a stretch between two
  wildcards that fits somewhere leaves the longest rest where it fits first (`seek_iff`).
-/

namespace FilterQuery.Pattern

/-- The text comes from the pattern by putting a run of characters for each mark. -/
inductive Fills (isMark : Char → Bool) : List Char → List Char → Prop where
  | nil : Fills isMark [] []
  | keep {c : Char} {pattern text : List Char} (hc : isMark c = false)
      (h : Fills isMark pattern text) : Fills isMark (c :: pattern) (c :: text)
  | run {c : Char} {pattern text : List Char} (run : List Char) (hc : isMark c = true)
      (h : Fills isMark pattern text) : Fills isMark (c :: pattern) (run ++ text)

/-- Whether a character is the wildcard. -/
def isWildcard (c : Char) : Bool := c = wildcard

theorem isWildcard_wildcard : isWildcard wildcard = true := rfl

theorem all_wildcard_iff {cs : List Char} :
    cs.all (· = wildcard) = true ↔ ∀ c ∈ cs, isWildcard c = true := by
  simp [isWildcard]

section

variable {isMark : Char → Bool} {c : Char} {pattern text : List Char}

/-- The empty pattern is filled by the empty text. -/
@[simp]
theorem fills_nil_iff : Fills isMark [] text ↔ text = [] := by
  constructor
  · rintro ⟨⟩
    rfl
  · rintro rfl
    exact .nil

/-- Another character than a mark stands in the text as well. -/
theorem fills_cons_keep_iff (hc : isMark c = false) :
    Fills isMark (c :: pattern) text ↔ ∃ rest, text = c :: rest ∧ Fills isMark pattern rest := by
  constructor
  · intro h
    cases h with
    | keep _ h => exact ⟨_, rfl, h⟩
    | run _ hmark _ => simp [hc] at hmark
  · rintro ⟨rest, rfl, h⟩
    exact .keep hc h

/-- A mark is filled by any run, so the rest of the pattern is filled by some end of the text. -/
theorem fills_cons_mark_iff (hc : isMark c = true) :
    Fills isMark (c :: pattern) text ↔ ∃ rest, rest <:+ text ∧ Fills isMark pattern rest := by
  constructor
  · intro h
    cases h with
    | keep hkeep _ => simp [hc] at hkeep
    | run run _ h => exact ⟨_, List.suffix_append run _, h⟩
  · rintro ⟨rest, ⟨run, rfl⟩, h⟩
    exact .run run hc h

/-- Characters in front that are no marks stay as they are. -/
theorem fills_append_iff {stretch : List Char} (hs : ∀ c ∈ stretch, isMark c = false) :
    Fills isMark (stretch ++ pattern) text ↔
      ∃ rest, text = stretch ++ rest ∧ Fills isMark pattern rest := by
  induction stretch generalizing text with
  | nil => simp
  | cons c stretch ih =>
    obtain ⟨hc, hstretch⟩ := List.forall_mem_cons.mp hs
    rw [List.cons_append, fills_cons_keep_iff hc]
    constructor
    · rintro ⟨tail, rfl, htail⟩
      obtain ⟨rest, rfl, hrest⟩ := (ih hstretch).mp htail
      exact ⟨rest, rfl, hrest⟩
    · rintro ⟨rest, rfl, h⟩
      exact ⟨stretch ++ rest, rfl, (ih hstretch).mpr ⟨rest, rfl, h⟩⟩

/-- Marks may be exchanged for other marks. -/
theorem fills_map_iff {isMark' : Char → Bool} {f : Char → Char}
    (hmark : ∀ c, isMark' (f c) = isMark c) (hkeep : ∀ c, isMark c = false → f c = c) :
    Fills isMark' (pattern.map f) text ↔ Fills isMark pattern text := by
  induction pattern generalizing text with
  | nil => simp
  | cons c pattern ih =>
    rw [List.map_cons]
    cases hc : isMark c with
    | false =>
      rw [fills_cons_keep_iff (by rw [hmark, hc]), fills_cons_keep_iff hc, hkeep c hc]
      simp only [ih]
    | true =>
      rw [fills_cons_mark_iff (by rw [hmark, hc]), fills_cons_mark_iff hc]
      simp only [ih]

/-- Whether a character is a mark matters for the characters of the pattern alone. -/
theorem fills_congr {isMark' : Char → Bool} (h : ∀ c ∈ pattern, isMark' c = isMark c) :
    Fills isMark' pattern text ↔ Fills isMark pattern text := by
  induction pattern generalizing text with
  | nil => simp
  | cons c pattern ih =>
    obtain ⟨hhead, htail⟩ := List.forall_mem_cons.mp h
    cases hc : isMark c with
    | false =>
      rw [fills_cons_keep_iff (by rw [hhead, hc]), fills_cons_keep_iff hc]
      simp only [ih htail]
    | true =>
      rw [fills_cons_mark_iff (by rw [hhead, hc]), fills_cons_mark_iff hc]
      simp only [ih htail]

/-- Without marks, the pattern is the only text that fills it. -/
theorem fills_iff_eq (h : ∀ c ∈ pattern, isMark c = false) :
    Fills isMark pattern text ↔ text = pattern := by
  rw [← List.append_nil pattern, fills_append_iff h]
  simp

/-- The marks may all be left out. -/
theorem fills_filter (pattern : List Char) :
    Fills isMark pattern (pattern.filter (!isMark ·)) := by
  induction pattern with
  | nil => exact .nil
  | cons c pattern ih =>
    cases hc : isMark c with
    | false => simpa [hc] using Fills.keep hc ih
    | true => simpa [hc] using Fills.run [] hc ih

/-- The empty text fills just the patterns of marks alone. -/
theorem fills_empty_iff : Fills isMark pattern [] ↔ ∀ c ∈ pattern, isMark c = true := by
  induction pattern with
  | nil => simp
  | cons c pattern ih =>
    cases hc : isMark c with
    | false => simp [fills_cons_keep_iff hc, hc]
    | true => simp [fills_cons_mark_iff hc, hc, ih]

/-- A character that is no mark occurs in the text at least as often as in the pattern. -/
theorem count_le_of_fills (h : Fills isMark pattern text) (hc : isMark c = false) :
    pattern.count c ≤ text.count c := by
  induction h with
  | nil => exact Nat.le_refl _
  | keep _ _ ih =>
    rw [List.count_cons, List.count_cons]
    exact Nat.add_le_add_right ih _
  | @run d _ _ run hd _ ih =>
    have hne : d ≠ c := by
      rintro rfl
      simp [hc] at hd
    rw [List.count_cons_of_ne hne, List.count_append]
    exact Nat.le_trans ih (Nat.le_add_left _ _)

/-- The characters that are no marks all find a place in the text. -/
theorem length_keep_le_of_fills (h : Fills isMark pattern text) :
    (pattern.filter (!isMark ·)).length ≤ text.length := by
  induction h with
  | nil => exact Nat.le_refl _
  | keep hc _ ih => simpa [hc] using ih
  | run run hc _ ih =>
    rw [List.length_append]
    simpa [hc] using Nat.le_add_left_of_le ih

end

/-! ### One stretch -/

variable {pattern text : List Char}

/-- A text that is exhausted is the start of the pattern. -/
theorem compareStretch_exhausted {rest : List Char}
    (h : compareStretch pattern text = .exhausted rest) :
    pattern = text ++ rest ∧ ∀ c ∈ text, isWildcard c = false := by
  fun_induction compareStretch pattern text with
  | case1 pattern => simpa using h
  | case2 => simp at h
  | case3 => simp at h
  | case4 pattern c text hc ih =>
    obtain ⟨rfl, htext⟩ := ih h
    exact ⟨rfl, List.forall_mem_cons.mpr ⟨by simpa [isWildcard] using hc, htext⟩⟩
  | case5 => simp at h

/-- At a wildcard the text in front of it is the stretch. -/
theorem compareStretch_reached {pattern' text' : List Char}
    (h : compareStretch pattern text = .reached pattern' text') :
    ∃ stretch, (∀ c ∈ stretch, isWildcard c = false) ∧
      pattern = stretch ++ wildcard :: pattern' ∧ text = stretch ++ text' := by
  fun_induction compareStretch pattern text with
  | case1 => simp at h
  | case2 => simp at h
  | case3 pattern c text =>
    obtain ⟨rfl, rfl⟩ := Stretch.reached.inj h
    exact ⟨[], by simp, rfl, rfl⟩
  | case4 pattern c text hc ih =>
    obtain ⟨stretch, hs, rfl, rfl⟩ := ih h
    have hcs : ∀ d ∈ c :: stretch, isWildcard d = false :=
      List.forall_mem_cons.mpr ⟨by simpa [isWildcard] using hc, hs⟩
    exact ⟨c :: stretch, hcs, rfl, rfl⟩
  | case5 => simp at h

/-- Where a stretch differs the text does not fill the pattern. -/
theorem not_fills_of_compareStretch_differs (h : compareStretch pattern text = .differs) :
    ¬ Fills isWildcard pattern text := by
  fun_induction compareStretch pattern text with
  | case1 => simp at h
  | case2 => simp
  | case3 => simp at h
  | case4 pattern c text hc ih =>
    rw [fills_cons_keep_iff (by simpa [isWildcard] using hc)]
    rintro ⟨rest, hrest, hfills⟩
    obtain ⟨-, rfl⟩ := List.cons.inj hrest
    exact ih h hfills
  | case5 p pattern t text hp hne =>
    rw [fills_cons_keep_iff (by simpa [isWildcard] using hp)]
    rintro ⟨rest, hrest, -⟩
    exact hne (List.cons.inj hrest).1.symm

/-- A text that is used up fills the pattern if what is left of that is made of wildcards. -/
theorem fills_of_exhausted {rest : List Char} (h : compareStretch pattern text = .exhausted rest)
    (hrest : ∀ c ∈ rest, isWildcard c = true) : Fills isWildcard pattern text := by
  obtain ⟨rfl, htext⟩ := compareStretch_exhausted h
  exact (fills_append_iff htext).mpr ⟨[], by simp, fills_empty_iff.mpr hrest⟩

/-- If no text is left but characters of the pattern are, then the pattern has too many characters
of its own for any end of the text. -/
theorem forall_wildcard_of_exhausted {rest tail : List Char}
    (h : compareStretch pattern text = .exhausted rest) (htail : tail <:+ text)
    (hfills : Fills isWildcard pattern tail) : ∀ c ∈ rest, isWildcard c = true := by
  obtain ⟨rfl, htext⟩ := compareStretch_exhausted h
  have hlen := length_keep_le_of_fills hfills
  have hkept : text.filter (!isWildcard ·) = text :=
    List.filter_eq_self.mpr fun c hc => by simp [htext c hc]
  -- the text is no longer than the stretch in front of the rest, which uses it up
  rw [List.filter_append, List.length_append, hkept] at hlen
  have hle := htail.length_le
  have hnone : rest.filter (!isWildcard ·) = [] := List.eq_nil_of_length_eq_zero (by omega)
  simpa using hnone

/-- Behind a wildcard, the first fit of a stretch is as good as any: a later fit leaves an end of
the text that the first one leaves, too. -/
theorem fills_of_reached_iff {pattern' text' : List Char}
    (h : compareStretch pattern text = .reached pattern' text') :
    (∃ tail, tail <:+ text ∧ Fills isWildcard pattern tail) ↔
      ∃ tail, tail <:+ text' ∧ Fills isWildcard pattern' tail := by
  obtain ⟨stretch, hs, rfl, rfl⟩ := compareStretch_reached h
  have hiff : ∀ tail, Fills isWildcard (stretch ++ wildcard :: pattern') tail ↔
      ∃ rest, tail = stretch ++ rest ∧ ∃ last, last <:+ rest ∧ Fills isWildcard pattern' last := by
    intro tail
    rw [fills_append_iff hs]
    simp only [fills_cons_mark_iff isWildcard_wildcard]
  constructor
  · rintro ⟨tail, htail, hfills⟩
    obtain ⟨rest, rfl, last, hlast, hfills⟩ := (hiff tail).mp hfills
    -- both what a later fit leaves and what the first one leaves are ends of the text
    have hshort : last.length ≤ text'.length := by
      have h1 := htail.length_le
      have h2 := hlast.length_le
      simp only [List.length_append] at h1
      omega
    have hlong : last <:+ stretch ++ text' :=
      (hlast.trans (List.suffix_append stretch rest)).trans htail
    exact ⟨last, List.suffix_of_suffix_length_le hlong (List.suffix_append _ _) hshort, hfills⟩
  · rintro ⟨tail, htail, hfills⟩
    exact ⟨stretch ++ text', List.suffix_refl _, (hiff _).mpr ⟨text', rfl, tail, htail, hfills⟩⟩

/-! ### The scan -/

/-- Seeking decides whether some end of the text fills the pattern. -/
theorem seek_iff : seek pattern text = true ↔
    ∃ tail, tail <:+ text ∧ Fills isWildcard pattern tail := by
  fun_induction seek pattern text with
  | case1 pattern text rest h =>
    rw [all_wildcard_iff]
    constructor
    · exact fun hrest => ⟨text, List.suffix_refl _, fills_of_exhausted h hrest⟩
    · rintro ⟨tail, htail, hfills⟩
      exact forall_wildcard_of_exhausted h htail hfills
  | case2 pattern text pattern' text' h ih => rw [ih, fills_of_reached_iff h]
  | case3 pattern h =>
    have hnil := not_fills_of_compareStretch_differs h
    simp [hnil]
  | case4 pattern c text h ih =>
    have hdiffers := not_fills_of_compareStretch_differs h
    rw [ih]
    constructor
    · rintro ⟨tail, htail, hfills⟩
      exact ⟨tail, htail.trans (List.suffix_cons _ _), hfills⟩
    · rintro ⟨tail, htail, hfills⟩
      rcases List.suffix_cons_iff.mp htail with rfl | htail
      · exact absurd hfills hdiffers
      · exact ⟨tail, htail, hfills⟩

/-- Matching decides whether a text fills a pattern. -/
theorem isMatch_iff : isMatch pattern text = true ↔ Fills isWildcard pattern text := by
  unfold isMatch
  split
  · next rest h =>
    rw [all_wildcard_iff]
    exact ⟨fills_of_exhausted h, forall_wildcard_of_exhausted h (List.suffix_refl _)⟩
  · next pattern' text' h =>
    obtain ⟨stretch, hs, rfl, rfl⟩ := compareStretch_reached h
    rw [seek_iff, fills_append_iff hs, ← fills_cons_mark_iff isWildcard_wildcard]
    simp
  · next h => simpa using not_fills_of_compareStretch_differs h

end FilterQuery.Pattern
