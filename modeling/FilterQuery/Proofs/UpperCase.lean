import FilterQuery.Proofs.CaseTables

/-!
# What upper case does to signs and to words

Upper case leads to letters only: a character below `A` comes from itself alone
(`eq_of_mem_upperChar`), so signs such as wildcards are neither made nor lost. And each character
from U+0080 on leads to something that is none of the letters of `AND` and `OR`, so those two words
are the upper case of ASCII words alone (`upper_eq_iff`).

Both statements are checked on the tables of the case map, entry by entry. The second one is about a
whole sequence and not about each letter of it: a ligature may lead to one of the letters, but then
it leads to others besides. So a word that spells a connective has as many characters as the
connective, and each of them is a letter of it in one of the two ASCII cases.
-/

namespace FilterQuery.Text

/-! ### The tables -/

/-- A run that leads to ASCII has one letter, whose upper case is `I` or `S`. -/
private theorem target_ascii : ∀ run ∈ upperRuns, (0x80 : Int) ≤ run.first + run.offset ∨
    (run.first = run.last ∧ run.first + run.offset ∈ [(0x49 : Int), 0x53]) := by
  decide +kernel

/-- The code points of the letters of `AND` and `OR`. -/
def connectiveLetters : List Nat := [0x41, 0x44, 0x4E, 0x4F, 0x52]

private theorem sequence_foreign :
    ∀ entry ∈ upperSequences, ∃ n ∈ entry.2, n ∉ connectiveLetters := by
  decide

/-! ### One character -/

/-- A character below the letters comes from itself alone. -/
theorem eq_of_mem_upperChar {c d : Char} (hd : d.toNat < 0x41) (h : d ∈ upperChar c) : c = d := by
  rcases Nat.lt_or_ge c.toNat 0x80 with hc | hc
  · have hascii : c.toUpper.toNat < 0x41 → c = c.toUpper :=
      forall_ascii (P := fun c => c.toUpper.toNat < 0x41 → c = c.toUpper) (by decide) hc
    rw [upperChar_of_ascii hc, List.mem_singleton] at h
    subst h
    exact hascii hd
  · rw [upperChar_of_not_ascii hc] at h
    exact LeadsToLetters.upper.eq_of_mem hd h

/-- A character below the letters has no other upper case. -/
theorem upperChar_of_lt {c : Char} (hc : c.toNat < 0x41) : upperChar c = [c] := by
  have hascii : c.toNat < 0x41 → c.toUpper = c :=
    forall_ascii (P := fun c => c.toNat < 0x41 → c.toUpper = c) (by decide) (by omega)
  rw [upperChar_of_ascii (by omega), hascii hc]

/-- A sign is in the upper case of a text if it is in the text. -/
theorem mem_upper_iff {c : Char} (hc : c.toNat < 0x41) {s : String} :
    c ∈ (upper s).toList ↔ c ∈ s.toList := by
  rw [toList_upper, List.mem_flatMap]
  constructor
  · rintro ⟨d, hd, hmem⟩
    exact eq_of_mem_upperChar hc hmem ▸ hd
  · exact fun h => ⟨c, h, upperChar_of_lt hc ▸ List.mem_singleton_self c⟩

/-- A character whose upper case is made of letters of `AND` and `OR` is an ASCII letter. -/
private theorem ascii_of_upperChar_letters {c : Char}
    (h : ∀ d ∈ upperChar c, d.toNat ∈ connectiveLetters) : c.toNat < 0x80 := by
  refine Nat.lt_of_not_ge fun hc => ?_
  rw [upperChar_of_not_ascii hc] at h
  rcases mapped_cases with ⟨run, hrun, hfirst, hlast, heq⟩ | ⟨ns, hns, heq⟩ | heq
  · -- a run leads beyond ASCII or to `I` or `S`, which are none of the letters
    have hletter := h _ (heq ▸ List.mem_singleton_self _)
    have hlow := target_ascii run hrun
    rw [LeadsToLetters.upper.toNat_target hrun hfirst hlast] at hletter
    simp only [connectiveLetters, List.mem_cons, List.not_mem_nil, or_false] at hletter hlow
    omega
  · obtain ⟨n, hn, hforeign⟩ := sequence_foreign _ hns
    have hletter := h (Char.ofNat n) (heq ▸ List.mem_map_of_mem hn)
    rw [LeadsToLetters.upper.toNat_sequence hns hn] at hletter
    exact hforeign hletter
  · have hletter := h c (heq ▸ List.mem_singleton_self _)
    simp only [connectiveLetters, List.mem_cons, List.not_mem_nil, or_false] at hletter
    omega

/-- Lower case keeps a character beyond ASCII. -/
private theorem ascii_of_toLower {c : Char} (h : c.toLower.toNat < 0x80) : c.toNat < 0x80 := by
  unfold Char.toLower at h
  split at h
  · next hupper =>
    have hle : c.val ≤ 90 := hupper.2
    have hlast := UInt32.le_iff_toNat_le.mp hle
    simp only [Char.toNat, UInt32.reduceToNat] at hlast ⊢
    omega
  · exact h

private theorem toUpper_eq_iff {c d : Char} (hc : c.toNat < 0x80)
    (hd : d.toNat ∈ connectiveLetters) : c.toUpper = d ↔ c.toLower = d.toLower := by
  have hascii : ∀ n ∈ connectiveLetters,
      c.toUpper = Char.ofNat n ↔ c.toLower = (Char.ofNat n).toLower :=
    forall_ascii (P := fun c => ∀ n ∈ connectiveLetters,
      c.toUpper = Char.ofNat n ↔ c.toLower = (Char.ofNat n).toLower) (by decide) hc
  simpa using hascii d.toNat hd

/-! ### Words -/

/-- Texts in the letters of `AND` and `OR` are the upper case of their ASCII spellings alone. -/
theorem flatMap_upperChar_eq_iff {cs word : List Char}
    (hword : ∀ d ∈ word, d.toNat ∈ connectiveLetters) :
    cs.flatMap upperChar = word ↔ cs.map Char.toLower = word.map Char.toLower := by
  induction cs generalizing word with
  | nil => cases word <;> simp
  | cons c cs ih =>
    constructor
    · rintro rfl
      rw [List.flatMap_cons] at hword ⊢
      obtain ⟨hhead, htail⟩ := List.forall_mem_append.mp hword
      -- only ASCII letters have upper cases among these letters
      have hc := ascii_of_upperChar_letters hhead
      rw [upperChar_of_ascii hc] at hhead ⊢
      have hlower := (toUpper_eq_iff hc (hhead _ (List.mem_singleton_self _))).mp rfl
      rw [List.map_cons, List.map_append, (ih htail).mp rfl, hlower]
      rfl
    · intro h
      cases word with
      | nil => simp at h
      | cons d word =>
        obtain ⟨hd, htail⟩ := List.forall_mem_cons.mp hword
        obtain ⟨hhead, hrest⟩ := List.cons.inj h
        have hc : c.toNat < 0x80 := by
          refine ascii_of_toLower ?_
          rw [hhead]
          have hascii : ∀ n ∈ connectiveLetters, (Char.ofNat n).toLower.toNat < 0x80 := by
            decide
          simpa using hascii d.toNat hd
        rw [List.flatMap_cons, upperChar_of_ascii hc, (toUpper_eq_iff hc hd).mpr hhead,
          (ih htail).mpr hrest]
        rfl

/-- The upper case of a text is `AND` or `OR` only if the text spells that in ASCII letters. -/
theorem upper_eq_iff {s word : String} (hword : ∀ d ∈ word.toList, d.toNat ∈ connectiveLetters) :
    upper s = word ↔ asciiLower s = asciiLower word := by
  rw [← String.toList_inj, toList_upper, flatMap_upperChar_eq_iff hword, asciiLower, asciiLower,
    String.ofList_inj]

/-- Upper case leaves something of every text that is not empty. -/
theorem upper_eq_empty_iff {s : String} : upper s = "" ↔ s = "" := by
  rw [upper_eq_iff (by simp), asciiLower, asciiLower, String.ofList_inj]
  simp

/-- A text of signs alone is in upper case. -/
theorem upper_of_lt {s : String} (h : ∀ c ∈ s.toList, c.toNat < 0x41) : upper s = s := by
  have hself : ∀ cs : List Char, (∀ c ∈ cs, c.toNat < 0x41) → cs.flatMap upperChar = cs := by
    intro cs hcs
    induction cs with
    | nil => rfl
    | cons c cs ih =>
      obtain ⟨hc, hcs⟩ := List.forall_mem_cons.mp hcs
      rw [List.flatMap_cons, upperChar_of_lt hc, ih hcs]
      rfl
  rw [upper, hself _ h, String.ofList_toList]

/-- It is the upper case of no other text. -/
theorem upper_eq_iff_of_lt {s signs : String} (h : ∀ c ∈ signs.toList, c.toNat < 0x41) :
    upper s = signs ↔ s = signs := by
  constructor
  · rintro rfl
    refine (upper_of_lt fun c hc => ?_).symm
    have hne : upperChar c ≠ [] := by
      have hempty := @upper_eq_empty_iff (String.ofList [c])
      simpa [upper] using hempty
    obtain ⟨d, hd⟩ := List.exists_mem_of_ne_nil _ hne
    have hlow := h d (toList_upper s ▸ List.mem_flatMap.mpr ⟨c, hc, hd⟩)
    rwa [eq_of_mem_upperChar hlow hd]
  · rintro rfl
    exact upper_of_lt h

end FilterQuery.Text
