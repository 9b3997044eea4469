import FilterQuery.Proofs.UpperCase

/-!
# What lower case does to signs

Lower case leads to letters only, as upper case does: a character below `A` comes from itself alone
(`eq_of_mem_lowerChar`). So a text has the same signs in both cases (`mem_lower_iff`,
`mem_upper_iff`), wherever a capital sigma in it may stand.

The lower case of a sigma depends on the letters around it, but both of its small letters are
letters. So the context has no influence on signs, and what is shown of one character is shown of a
text by going along it with any state of the scan.
-/

namespace FilterQuery.Text

/-- A character below the letters comes from itself alone. -/
theorem eq_of_mem_lowerChar {c d : Char} (hd : d.toNat < 0x41) (h : d ∈ lowerChar c) : c = d := by
  rcases Nat.lt_or_ge c.toNat 0x80 with hc | hc
  · have hascii : c.toLower.toNat < 0x41 → c = c.toLower :=
      forall_ascii (P := fun c => c.toLower.toNat < 0x41 → c = c.toLower) (by decide) hc
    rw [lowerChar_of_ascii hc, List.mem_singleton] at h
    subst h
    exact hascii hd
  · rw [lowerChar_of_not_ascii hc] at h
    exact LeadsToLetters.lower.eq_of_mem hd h

/-- A character below the letters has no other lower case. -/
theorem lowerChar_of_lt {c : Char} (hc : c.toNat < 0x41) : lowerChar c = [c] := by
  have hascii : c.toNat < 0x41 → c.toLower = c :=
    forall_ascii (P := fun c => c.toNat < 0x41 → c.toLower = c) (by decide) (by omega)
  rw [lowerChar_of_ascii (by omega), hascii hc]

/-- A sign is in the lower case of a run of characters if it is in the run. -/
theorem mem_lowerChars_iff {c : Char} (hc : c.toNat < 0x41) {inWord : Bool} {cs : List Char} :
    c ∈ lowerChars inWord cs ↔ c ∈ cs := by
  induction cs generalizing inWord with
  | nil => simp [lowerChars]
  | cons d cs ih =>
    rw [lowerChars]
    split
    · next hsigma =>
      -- neither a sigma nor one of its small letters is a sign
      have hne : ∀ e ∈ ['Σ', 'σ', 'ς'], c ≠ e := by
        intro e he heq
        subst heq
        simp only [List.mem_cons, List.not_mem_nil, or_false] at he
        rcases he with rfl | rfl | rfl <;> exact absurd hc (by decide)
      have hhead : c ≠ (if inWord && !startsCased cs then 'ς' else 'σ') := by
        split
        · exact hne 'ς' (by simp)
        · exact hne 'σ' (by simp)
      rw [List.mem_cons, List.mem_cons, ih, hsigma, or_iff_right hhead,
        or_iff_right (hne 'Σ' (by simp))]
    · rw [List.mem_append, List.mem_cons, ih]
      refine or_congr_left ⟨fun h => (eq_of_mem_lowerChar hc h).symm, ?_⟩
      rintro rfl
      rw [lowerChar_of_lt hc]
      exact List.mem_singleton_self c

/-- A sign is in the lower case of a text if it is in the text. -/
theorem mem_lower_iff {c : Char} (hc : c.toNat < 0x41) {s : String} :
    c ∈ (lower s).toList ↔ c ∈ s.toList := by
  rw [lower, String.toList_ofList, mem_lowerChars_iff hc]

end FilterQuery.Text
