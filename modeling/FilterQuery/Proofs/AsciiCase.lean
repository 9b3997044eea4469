import FilterQuery.Compilation.Argument
import Mathlib

/-!
# Texts that differ in the case of ASCII letters

Selectors, constants, truth values and patterns are compared without regard to letter case, but not
all in the same way: some by the full upper case, some by the full lower case, some by the case of
ASCII letters alone. Here the three are brought together. What does not tell a capital ASCII letter
from its small letter gives the same for a text and for the text in lower case.

* **Characters.** A function that respects the case of the 26 pairs of letters, which a table
  decides, respects the lower case of every character (`apply_toLower`). Both full case maps are of
  this kind, and so is every question about a character that letters of either case answer alike.
* **Runs of characters.** Taking characters from the front of a text, trimming it and cutting it
  into pieces commute with lowering it (`split_asciiLower`), as long as the mark is no letter.
* **Texts.** Both full case maps give the same for a text and its lower case (`upper_asciiLower`,
  `lower_asciiLower`). For the lower case the context of a letter matters, so the states of the scan
  have to agree as well.
* **Numbers and truth values.** Reading them does not depend on letter case (`ofText?_asciiLower`).
-/

namespace FilterQuery

namespace Text

variable {c d : Char} {cs : List Char}

/-! ### Characters -/

/-- What gives the same for the two letters of each ASCII pair does so for every character and its
small letter. -/
theorem apply_toLower {α : Type} {f : Char → α}
    (h : ∀ n < 26, f (Char.ofNat (0x61 + n)) = f (Char.ofNat (0x41 + n))) (c : Char) :
    f c.toLower = f c := by
  by_cases hupper : c.isUpper = true
  · have hbounds : 0x41 ≤ c.toNat ∧ c.toNat ≤ 0x5A := by
      simpa [Char.isUpper, UInt32.le_iff_toNat_le] using hupper
    obtain ⟨n, hn⟩ := Nat.exists_eq_add_of_le hbounds.1
    calc f c.toLower = f (Char.ofNat (0x61 + n)) := by
          rw [Char.toLower_eq_of_isUpper hupper, hn, Nat.add_right_comm]
      _ = f (Char.ofNat (0x41 + n)) := h n (by omega)
      _ = f c := by rw [← hn, Char.ofNat_toNat]
  · rw [Char.toLower_eq_of_not_isUpper hupper]

@[simp] theorem isDigit_toLower (c : Char) : c.toLower.isDigit = c.isDigit :=
  apply_toLower (by decide) c

@[simp] theorem isBlank_toLower (c : Char) : isBlank c.toLower = isBlank c :=
  apply_toLower (by decide) c

@[simp] theorem isCased_toLower (c : Char) : isCased c.toLower = isCased c :=
  apply_toLower (by decide) c

@[simp] theorem upperChar_toLower (c : Char) : upperChar c.toLower = upperChar c :=
  apply_toLower (by decide) c

@[simp] theorem lowerChar_toLower (c : Char) : lowerChar c.toLower = lowerChar c :=
  apply_toLower (by decide) c

theorem toLower_of_isAlpha_eq_false (h : c.isAlpha = false) : c.toLower = c :=
  Char.toLower_eq_of_not_isUpper (by simp_all [Char.isAlpha])

/-- Nothing but a sign is lowered to a sign. -/
theorem toLower_eq_iff (hd : d.isAlpha = false) : c.toLower = d ↔ c = d := by
  constructor
  · rintro rfl
    rw [Char.isAlpha_toLower_eq_isAlpha] at hd
    exact (toLower_of_isAlpha_eq_false hd).symm
  · rintro rfl
    exact toLower_of_isAlpha_eq_false hd

/-- No letter is looked through when a case is sought. -/
theorem isCaseIgnorable_of_isAlpha (h : c.isAlpha = true) : isCaseIgnorable c = false := by
  -- every range ends before the capital letters, lies between the letters or starts after them
  have hranges : ∀ range ∈ caseIgnorableRanges,
      range.2 < 0x41 ∨ (0x5A < range.1 ∧ range.2 < 0x61) ∨ 0x7A < range.1 := by
    decide +kernel
  have hletter : (0x41 ≤ c.toNat ∧ c.toNat ≤ 0x5A) ∨ (0x61 ≤ c.toNat ∧ c.toNat ≤ 0x7A) := by
    simpa [Char.isAlpha, Char.isUpper, Char.isLower, UInt32.le_iff_toNat_le] using h
  refine Bool.eq_false_iff.mpr fun hignorable => ?_
  obtain ⟨range, hrange, hcovers⟩ := List.any_eq_true.mp hignorable
  simp only [Bool.and_eq_true, decide_eq_true_eq] at hcovers
  have hmisses := hranges range hrange
  omega

@[simp] theorem isCaseIgnorable_toLower (c : Char) :
    isCaseIgnorable c.toLower = isCaseIgnorable c := by
  cases hc : c.isAlpha with
  | false => rw [toLower_of_isAlpha_eq_false hc]
  | true =>
    have hlower : c.toLower.isAlpha = true := (Char.isAlpha_toLower_eq_isAlpha c).trans hc
    rw [isCaseIgnorable_of_isAlpha hc, isCaseIgnorable_of_isAlpha hlower]

/-! ### Runs of characters -/

/-- A run is taken off a lowered text as it is off the text. -/
theorem takeWhile_map_toLower {p : Char → Bool} (h : ∀ c, p c.toLower = p c) (cs : List Char) :
    (cs.map Char.toLower).takeWhile p = (cs.takeWhile p).map Char.toLower := by
  rw [List.takeWhile_map]
  congr 2
  exact funext h

theorem dropWhile_map_toLower {p : Char → Bool} (h : ∀ c, p c.toLower = p c) (cs : List Char) :
    (cs.map Char.toLower).dropWhile p = (cs.dropWhile p).map Char.toLower := by
  rw [List.dropWhile_map]
  congr 2
  exact funext h

theorem all_map_toLower {p : Char → Bool} (h : ∀ c, p c.toLower = p c) (cs : List Char) :
    (cs.map Char.toLower).all p = cs.all p := by
  rw [List.all_map]
  congr 1
  exact funext h

/-- A lowered text that starts with a sign comes from one that does. -/
theorem exists_of_map_toLower_eq_cons {rest : List Char} (hd : d.isAlpha = false)
    (h : cs.map Char.toLower = d :: rest) : ∃ left, cs = d :: left := by
  obtain ⟨c, left, rfl, hc, -⟩ := List.map_eq_cons_iff.mp h
  exact ⟨left, congrArg (· :: left) ((toLower_eq_iff hd).mp hc)⟩

/-- Digits are their own lower case. -/
theorem map_toLower_of_digits (h : ∀ c ∈ cs, c.isDigit = true) : cs.map Char.toLower = cs := by
  have hdigit : ∀ c ∈ cs, c.toLower = c := by
    intro c hc
    have hbounds : 0x30 ≤ c.toNat ∧ c.toNat ≤ 0x39 := Char.isDigit_iff_toNat.mp (h c hc)
    refine Char.toLower_eq_of_not_isUpper ?_
    simp [Char.isUpper, UInt32.le_iff_toNat_le]
    omega
  rw [List.map_congr_left hdigit, List.map_id']

theorem map_toLower_takeWhile_isDigit (cs : List Char) :
    (cs.map Char.toLower).takeWhile Char.isDigit = cs.takeWhile Char.isDigit := by
  rw [takeWhile_map_toLower isDigit_toLower]
  exact map_toLower_of_digits (List.all_eq_true.mp List.all_takeWhile)

theorem trimBlanks_map_toLower (cs : List Char) :
    trimBlanks (cs.map Char.toLower) = (trimBlanks cs).map Char.toLower := by
  simp only [trimBlanks, dropWhile_map_toLower isBlank_toLower, ← List.map_reverse]

theorem startsCased_map_toLower (cs : List Char) :
    startsCased (cs.map Char.toLower) = startsCased cs := by
  induction cs with
  | nil => rfl
  | cons c cs ih =>
    simp only [List.map_cons, startsCased, isCaseIgnorable_toLower, isCased_toLower, ih]

/-- The full lower case of some characters is that of their ASCII lower case, in every state of the
scan. -/
theorem lowerChars_map_toLower (cs : List Char) (inWord : Bool) :
    lowerChars inWord (cs.map Char.toLower) = lowerChars inWord cs := by
  induction cs generalizing inWord with
  | nil => rfl
  | cons c cs ih =>
    have hsigma : c.toLower = 'Σ' ↔ c = 'Σ' := toLower_eq_iff (by decide)
    simp only [List.map_cons, lowerChars, isCaseIgnorable_toLower, isCased_toLower, ih, hsigma,
      startsCased_map_toLower, lowerChar_toLower]

/-- The pieces of the lower case are the pieces in lower case, for the mark is no letter. -/
theorem splitChars_map_toLower {mark : Char} (hmark : mark.isAlpha = false) (cs : List Char) :
    splitChars mark (cs.map Char.toLower) = (splitChars mark cs).map (List.map Char.toLower) := by
  induction cs with
  | nil => rfl
  | cons c cs ih =>
    rw [List.map_cons, splitChars, splitChars, ih]
    by_cases hc : c = mark
    · rw [if_pos ((toLower_eq_iff hmark).mpr hc), if_pos hc]
      rfl
    · rw [if_neg (mt (toLower_eq_iff hmark).mp hc), if_neg hc]
      cases splitChars mark cs <;> rfl

/-! ### Texts -/

@[simp] theorem toList_asciiLower (s : String) :
    (asciiLower s).toList = s.toList.map Char.toLower :=
  String.toList_ofList

theorem asciiLower_ofList (cs : List Char) :
    asciiLower (String.ofList cs) = String.ofList (cs.map Char.toLower) := by
  rw [asciiLower, String.toList_ofList]

@[simp] theorem asciiLower_asciiLower (s : String) : asciiLower (asciiLower s) = asciiLower s := by
  rw [asciiLower, toList_asciiLower, List.map_map, asciiLower]
  congr 2
  exact funext Char.toLower_toLower_eq_toLower

/-- The upper case of a text does not depend on the case of its ASCII letters. -/
@[simp] theorem upper_asciiLower (s : String) : upper (asciiLower s) = upper s := by
  rw [upper, upper, toList_asciiLower, List.flatMap_map]
  simp only [upperChar_toLower]

/-- The lower case of a text does not depend on the case of its ASCII letters. -/
@[simp] theorem lower_asciiLower (s : String) : lower (asciiLower s) = lower s := by
  rw [lower, lower, toList_asciiLower, lowerChars_map_toLower]

/-- Cutting at a sign commutes with lowering. -/
theorem split_asciiLower {mark : Char} (hmark : mark.isAlpha = false) (s : String) :
    split mark (asciiLower s) = (split mark s).map asciiLower := by
  rw [split, split, toList_asciiLower, splitChars_map_toLower hmark, List.map_map, List.map_map]
  refine List.map_congr_left fun piece _ => ?_
  exact (asciiLower_ofList piece).symm

@[simp] theorem equalsIgnoringCase_asciiLower (s t : String) :
    equalsIgnoringCase s (asciiLower t) = equalsIgnoringCase s t := by
  rw [Bool.eq_iff_iff, equalsIgnoringCase_iff, equalsIgnoringCase_iff, asciiLower_asciiLower]

/-- What does not depend on the case of ASCII letters is the same for texts that differ in it. -/
theorem eq_of_asciiLower_eq {α : Type} {f : String → α} (hf : ∀ s, f (asciiLower s) = f s)
    {s t : String} (h : asciiLower s = asciiLower t) : f s = f t := by
  rw [← hf s, h, hf t]

end Text

/-! ### Numbers and truth values -/

open Text

theorem splitSign_map_toLower (cs : List Char) :
    splitSign (cs.map Char.toLower) = ((splitSign cs).1, (splitSign cs).2.map Char.toLower) := by
  cases cs with
  | nil => rfl
  | cons c cs =>
    by_cases hminus : c = '-'
    · rw [hminus]
      rfl
    · by_cases hplus : c = '+'
      · rw [hplus]
        rfl
      · have hminus' : c.toLower ≠ '-' := mt (toLower_eq_iff (by decide)).mp hminus
        have hplus' : c.toLower ≠ '+' := mt (toLower_eq_iff (by decide)).mp hplus
        simp [splitSign, hminus, hplus, hminus', hplus']

/-- A whole number has no letters. -/
theorem readInt_map_toLower (cs : List Char) : readInt (cs.map Char.toLower) = readInt cs := by
  unfold readInt
  rw [splitSign_map_toLower]
  generalize splitSign cs = signed
  obtain ⟨negative, digits⟩ := signed
  simp only [List.isEmpty_map, all_map_toLower isDigit_toLower]
  split
  · next h =>
    have hdigits : ∀ c ∈ digits, c.isDigit = true :=
      List.all_eq_true.mp ((Bool.and_eq_true _ _).mp h).2
    rw [map_toLower_of_digits hdigits]
  · rfl

theorem readExponent_map_toLower (cs : List Char) :
    readExponent (cs.map Char.toLower) = readExponent cs := by
  cases cs with
  | nil => rfl
  | cons c cs =>
    have hletter : (c.toLower = 'e' || c.toLower = 'E') = (c = 'e' || c = 'E') :=
      apply_toLower (f := fun c => (decide (c = 'e') || decide (c = 'E'))) (by decide) c
    rw [List.map_cons, readExponent, readExponent, readInt_map_toLower, hletter]

/-- A decimal number is read alike with either letter in front of its exponent. -/
theorem readDecimal_map_toLower (cs : List Char) :
    readDecimal (cs.map Char.toLower) = readDecimal cs := by
  unfold readDecimal
  rw [map_toLower_takeWhile_isDigit, dropWhile_map_toLower isDigit_toLower]
  cases cs.dropWhile Char.isDigit with
  | nil => rfl
  | cons c rest =>
    by_cases hpoint : c = '.'
    · subst hpoint
      have hpoint : '.'.toLower = '.' := by decide
      simp only [List.map_cons, hpoint, map_toLower_takeWhile_isDigit,
        dropWhile_map_toLower isDigit_toLower, readExponent_map_toLower]
    · have hpoint' : c.toLower ≠ '.' := mt (toLower_eq_iff (by decide)).mp hpoint
      have hexponent := readExponent_map_toLower (c :: rest)
      rw [List.map_cons] at hexponent ⊢
      simp [hpoint, hpoint', hexponent]

/-- So is a float, infinity and no number at all among them. -/
theorem readDouble_map_toLower (cs : List Char) :
    readDouble (cs.map Char.toLower) = readDouble cs := by
  unfold readDouble
  rw [splitSign_map_toLower]
  simp only [List.map_map, Function.comp_def, Char.toLower_toLower_eq_toLower,
    readDecimal_map_toLower]

namespace Value

/-- The value with the ASCII letters of plain text in lower case. -/
def asciiLower : Value → Value
  | string s => string (Text.asciiLower s)
  | value => value

/-- Reading a lowered text gives the lowered value: only plain text keeps its letters. -/
theorem ofText?_asciiLower (type : ValueType) (text : String) :
    ofText? type (Text.asciiLower text) = (ofText? type text).map asciiLower := by
  have hblank := trimBlanks_map_toLower text.toList
  cases type with
  | string | enumeration _ => rfl
  | boolean =>
    simp only [ofText?, truth?, lower_asciiLower, Option.map_map]
    rfl
  | int32 | int64 =>
    simp only [ofText?, wholeBetween?, toList_asciiLower, hblank, readInt_map_toLower,
      Option.map_map]
    rfl
  | float64 =>
    simp only [ofText?, toList_asciiLower, hblank, readDouble_map_toLower, Option.map_map]
    rfl

end Value

end FilterQuery
