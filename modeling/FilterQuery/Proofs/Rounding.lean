import FilterQuery.Proofs.Units

/-!
# Whole numbers as doubles

A double has fifty-three bits for its significand, and a whole number of more bits is **rounded**
when it becomes a double (`Double.units_ofInt`). So whole numbers that are turned into doubles are
compared as their roundings are (`Double.compare?_ofInt`).

* **Division.** Rounding divides by the value of the last bit that is kept, to the nearest whole
  number and to the even one of two. This division is monotone and off by one at most.
* **Sizes.** A rounded number has the same leading bit, or is the next power of two. So the
  roundings of numbers of different sizes do not pass each other, and those of the same size are
  compared by the division.
* **Monotone.** Rounding never turns the order of two numbers round, but it can make them equal.
* **Exact numbers.** A number is **exact** if this does not happen to it: no other number has its
  rounding (`Double.IsExact.eq_of_nearest_eq`, `Double.exists_nearest_eq`). The exact numbers are
  those of fifty-three bits, and half of the even ones of fifty-four bits, whose odd neighbours are
  rounded to the other half.
-/

namespace FilterQuery.Double

/-! ### Division to the nearest whole number -/

section Division

variable {num num' den : Nat}

/-- More than a half is rounded up, and so is a half if the quotient is odd. -/
theorem divideToEven_eq : divideToEven num den =
    if den < 2 * (num % den) ∨ 2 * (num % den) = den ∧ num / den % 2 = 1 then num / den + 1
    else num / den := by
  unfold divideToEven
  simp only [Bool.or_eq_true, Bool.and_eq_true, decide_eq_true_eq, beq_iff_eq]

theorem div_le_divideToEven : num / den ≤ divideToEven num den := by
  rw [divideToEven_eq]
  split <;> omega

theorem divideToEven_le : divideToEven num den ≤ num / den + 1 := by
  rw [divideToEven_eq]
  split <;> omega

/-- A multiple is divided exactly. -/
theorem divideToEven_mul (k : Nat) (hden : 0 < den) : divideToEven (k * den) den = k := by
  rw [divideToEven_eq, Nat.mul_mod_left, Nat.mul_div_cancel k hden]
  exact if_neg (by omega)

/-- Greater numbers have quotients that are not less. -/
theorem divideToEven_mono (h : num ≤ num') : divideToEven num den ≤ divideToEven num' den := by
  have hquotient : num / den ≤ num' / den := Nat.div_le_div_right h
  rcases Nat.eq_or_lt_of_le hquotient with hsame | hless
  · -- the quotients agree, so the remainders are ordered
    have hrest : num % den ≤ num' % den := by
      have hnum := Nat.div_add_mod num den
      have hnum' := Nat.div_add_mod num' den
      rw [hsame] at hnum
      omega
    rw [divideToEven_eq, divideToEven_eq, hsame]
    split <;> split <;> omega
  · calc divideToEven num den ≤ num / den + 1 := divideToEven_le
      _ ≤ num' / den := hless
      _ ≤ divideToEven num' den := div_le_divideToEven

end Division

/-! ### Rounding of whole numbers -/

section Whole

variable {m n : Nat}

/-- The weight of the last bit that a double keeps of a natural number. -/
def lastBit (n : Nat) : Nat := 2 ^ (n.log2 - 52)

/-- The natural number rounded to fifty-three bits. -/
def roundNat (n : Nat) : Nat := divideToEven n (lastBit n) * lastBit n

theorem lastBit_pos : 0 < lastBit n := Nat.two_pow_pos _

theorem lastBit_eq_one (hn : n.log2 ≤ 52) : lastBit n = 1 := by
  rw [lastBit, Nat.sub_eq_zero_of_le hn, Nat.pow_zero]

/-- What is divided by its last bit has fifty-three bits. -/
theorem bounds_div_lastBit (hn : 52 ≤ n.log2) :
    exponentUnit ≤ n / lastBit n ∧ n / lastBit n < 2 * exponentUnit := by
  have hne : n ≠ 0 := by
    rintro rfl
    simp at hn
  constructor
  · rw [Nat.le_div_iff_mul_le lastBit_pos]
    calc exponentUnit * lastBit n = 2 ^ n.log2 := by
          rw [lastBit, exponentUnit, show 0x10000000000000 = 2 ^ 52 from rfl, ← Nat.pow_add,
            Nat.add_sub_cancel' hn]
      _ ≤ n := Nat.log2_self_le hne
  · rw [Nat.div_lt_iff_lt_mul lastBit_pos]
    calc n < 2 ^ (n.log2 + 1) := Nat.lt_log2_self
      _ = 2 * exponentUnit * lastBit n := by
          rw [lastBit, exponentUnit, show 2 * 0x10000000000000 = 2 ^ 53 from rfl, ← Nat.pow_add]
          congr 1
          omega

/-- Fifty-three bits are kept as they are. -/
theorem roundNat_of_log2_le (hn : n.log2 ≤ 52) : roundNat n = n := by
  have hdivide := @divideToEven_mul 1 n Nat.one_pos
  rw [Nat.mul_one] at hdivide
  rw [roundNat, lastBit_eq_one hn, hdivide, Nat.mul_one]

/-- The last place of a whole number, as a power of two. -/
theorem lastPlace_one (hn : n ≠ 0) : lastPlace n 1 = (n.log2 : Int) - 52 := by
  have hleading : ¬n * Nat.pow 2 (-(n.log2 : Int)).toNat < 1 * Nat.pow 2 (n.log2 : Int).toNat := by
    have hlog := Nat.log2_self_le hn
    have hshift : (-(n.log2 : Int)).toNat = 0 := by omega
    rw [hshift, Int.toNat_natCast]
    simpa using hlog
  have hone : (Nat.log2 1 : Int) = 0 := by decide
  unfold lastPlace
  simp only [hone, Int.sub_zero, if_neg hleading]
  omega

/-- The fifty-three leading bits of a natural number, rounded. -/
def leadingBits (n : Nat) : Nat := divideToEven (n * 2 ^ (52 - n.log2)) (lastBit n)

theorem leadingBits_of_log2_le (hn : n.log2 ≤ 52) : leadingBits n = n * 2 ^ (52 - n.log2) := by
  have hdivide := @divideToEven_mul 1 (n * 2 ^ (52 - n.log2)) Nat.one_pos
  rwa [Nat.mul_one, ← lastBit_eq_one hn] at hdivide

theorem leadingBits_of_le_log2 (hn : 52 ≤ n.log2) :
    leadingBits n = divideToEven n (lastBit n) := by
  rw [leadingBits, Nat.sub_eq_zero_of_le hn, Nat.pow_zero, Nat.mul_one]

/-- The leading bits fill the significand, or go one beyond it. -/
theorem bounds_leadingBits (hn : n ≠ 0) :
    exponentUnit ≤ leadingBits n ∧ leadingBits n ≤ 2 * exponentUnit := by
  rcases Nat.le_total n.log2 52 with hlog | hlog
  · -- a small number is shifted to the left, and its first bit is that of the significand
    have hunit : exponentUnit = 2 ^ n.log2 * 2 ^ (52 - n.log2) := by
      rw [← Nat.pow_add, Nat.add_sub_cancel' hlog]
      rfl
    have hlow := Nat.mul_le_mul_right (2 ^ (52 - n.log2)) (Nat.log2_self_le hn)
    have hnext : n ≤ 2 ^ (n.log2 + 1) := Nat.le_of_lt Nat.lt_log2_self
    have hhigh := Nat.mul_le_mul_right (2 ^ (52 - n.log2)) hnext
    rw [leadingBits_of_log2_le hlog, hunit]
    refine ⟨hlow, Nat.le_trans hhigh ?_⟩
    rw [Nat.pow_succ']
    exact Nat.le_of_eq (Nat.mul_assoc _ _ _)
  · have hbounds := bounds_div_lastBit hlog
    have hlow := @div_le_divideToEven n (lastBit n)
    have hhigh := @divideToEven_le n (lastBit n)
    rw [leadingBits_of_le_log2 hlog]
    omega

/-- The rounded number in terms of its leading bits. -/
theorem leadingBits_mul : leadingBits n * 2 ^ n.log2 = roundNat n * exponentUnit := by
  rcases Nat.le_total n.log2 52 with hlog | hlog
  · rw [leadingBits_of_log2_le hlog, roundNat_of_log2_le hlog, Nat.mul_assoc, ← Nat.pow_add,
      Nat.sub_add_cancel hlog]
    rfl
  · rw [leadingBits_of_le_log2 hlog, roundNat, Nat.mul_assoc]
    congr 1
    rw [lastBit, exponentUnit, show 0x10000000000000 = 2 ^ 52 from rfl, ← Nat.pow_add,
      Nat.sub_add_cancel hlog]

/-- What stands in the exponent bits besides the place of the leading bit of a whole number. The
leading bit of the significand is added to the exponent bits and makes it one more. -/
def bias : Nat := 1022

/-- The exponent bits and the significand of a rounded quotient as one word. -/
def roundedWord (num den : Nat) : Nat :=
  (lastPlace num den + 1074).toNat * exponentUnit +
    divideToEven (num * Nat.pow 2 (-lastPlace num den).toNat)
      (den * Nat.pow 2 (lastPlace num den).toNat)

theorem round_eq (negative : Bool) {num : Nat} (hnum : num ≠ 0) (den : Nat) :
    round negative num den =
      if h : roundedWord num den < infinityWord then
        ⟨negative, roundedWord num den, Nat.lt_trans h (by decide)⟩
      else infinity negative := by
  rw [round, if_neg hnum]
  rfl

/-- Rounding keeps the sign. -/
theorem negative_round (negative : Bool) (num den : Nat) :
    (round negative num den).negative = negative := by
  by_cases hnum : num = 0
  · rw [round, if_pos hnum]
    rfl
  · rw [round_eq negative hnum]
    split <;> rfl

/-- The leading bits of a natural number are its significand. -/
theorem word_round (negative : Bool) (hn : n ≠ 0) (hlog : n.log2 ≤ 64) :
    (round negative n 1).word.val = (n.log2 + bias) * exponentUnit + leadingBits n := by
  have hleft : (-(n.log2 - 52 : Int)).toNat = 52 - n.log2 := by omega
  have hright : (n.log2 - 52 : Int).toNat = n.log2 - 52 := by omega
  have hplace : (n.log2 - 52 + 1074 : Int).toNat = n.log2 + bias := by
    unfold bias
    omega
  have hword : roundedWord n 1 = (n.log2 + bias) * exponentUnit + leadingBits n := by
    rw [roundedWord, lastPlace_one hn, hleft, hright, hplace, Nat.one_mul]
    simp only [Nat.pow_eq, leadingBits, lastBit]
  -- sixty-five bits are far from what is too large for a double
  have hsmall : roundedWord n 1 < infinityWord := by
    have hhigh := (bounds_leadingBits hn).2
    rw [hword]
    unfold exponentUnit infinityWord bias at *
    omega
  rw [round_eq negative hn, dif_pos hsmall]
  exact hword

/-- The number one in units of the least positive double: the power of two with exponent 1074. -/
def unitsOfOne : Nat := exponentUnit * 2 ^ bias

theorem unitsOfOne_pos : 0 < unitsOfOne := Nat.mul_pos (by decide) (Nat.two_pow_pos bias)

/-- A rounded number in units of the least positive double. -/
theorem magnitude_round (negative : Bool) (hlog : n.log2 ≤ 64) :
    (round negative n 1).magnitude = roundNat n * unitsOfOne := by
  rcases Nat.eq_zero_or_pos n with rfl | hpos
  · have hword : (round negative 0 1).word.val = 0 := rfl
    rw [roundNat_of_log2_le (by decide), Nat.zero_mul, magnitude_of_lt (by rw [hword]; decide),
      hword]
  · have hn : n ≠ 0 := Nat.ne_of_gt hpos
    obtain ⟨hlow, hhigh⟩ := bounds_leadingBits hn
    rw [magnitude_of_word_eq (word_round negative hn hlog) hlow hhigh]
    calc leadingBits n * 2 ^ (n.log2 + bias) = leadingBits n * 2 ^ n.log2 * 2 ^ bias := by
          rw [Nat.pow_add, Nat.mul_assoc]
      _ = roundNat n * unitsOfOne := by rw [leadingBits_mul, unitsOfOne, Nat.mul_assoc]

/-!
### The roundings of different numbers

Up to fifty-three bits each number is its own rounding and that of no other. With one bit more the
odd numbers are half-way between two others and go to the one with an even significand, so the other
one is left with itself alone. With still more bits every rounding is shared.
-/

/-- A rounded number has the same leading bit, or is the next power of two. -/
theorem bounds_roundNat (hn : n ≠ 0) :
    2 ^ n.log2 ≤ roundNat n ∧ roundNat n ≤ 2 ^ (n.log2 + 1) := by
  obtain ⟨hlow, hhigh⟩ := bounds_leadingBits hn
  have hunit : 0 < exponentUnit := by decide
  have hmul := leadingBits_mul (n := n)
  constructor
  · refine Nat.le_of_mul_le_mul_right ?_ hunit
    rw [← hmul, Nat.mul_comm]
    exact Nat.mul_le_mul_right _ hlow
  · refine Nat.le_of_mul_le_mul_right ?_ hunit
    rw [← hmul, Nat.pow_succ, Nat.mul_assoc, Nat.mul_comm]
    exact Nat.mul_le_mul_left _ hhigh

/-- Rounding is monotone. -/
theorem roundNat_mono (h : m ≤ n) : roundNat m ≤ roundNat n := by
  rcases Nat.eq_zero_or_pos m with rfl | hpos
  · rw [roundNat_of_log2_le (by decide)]
    exact Nat.zero_le _
  · have hm : m ≠ 0 := Nat.ne_of_gt hpos
    have hn : n ≠ 0 := Nat.ne_of_gt (Nat.lt_of_lt_of_le hpos h)
    have hlog : m.log2 ≤ n.log2 := by
      rw [Nat.le_log2 hn]
      exact Nat.le_trans (Nat.log2_self_le hm) h
    -- with the same last bit the quotients are in order
    rcases Nat.eq_or_lt_of_le hlog with hsame | hless
    · have hbit : lastBit m = lastBit n := by rw [lastBit, lastBit, hsame]
      rw [roundNat, roundNat, hbit]
      exact Nat.mul_le_mul_right _ (divideToEven_mono h)
    · -- otherwise there is a power of two between the roundings
      calc roundNat m ≤ 2 ^ (m.log2 + 1) := (bounds_roundNat hm).2
        _ ≤ 2 ^ n.log2 := Nat.pow_le_pow_right (by decide) hless
        _ ≤ roundNat n := (bounds_roundNat hn).1

/-- A number is its own rounding if it has no bits behind the last one that is kept. -/
theorem roundNat_eq_self_iff : roundNat n = n ↔ lastBit n ∣ n := by
  constructor
  · intro h
    exact ⟨divideToEven n (lastBit n), by rw [Nat.mul_comm]; exact h.symm⟩
  · rintro ⟨k, hk⟩
    have hdivide := divideToEven_mul k (lastBit_pos (n := n))
    rw [Nat.mul_comm, ← hk] at hdivide
    rw [roundNat, hdivide, Nat.mul_comm]
    exact hk.symm

/-- What is rounded stays as it is. -/
theorem roundNat_roundNat : roundNat (roundNat n) = roundNat n := by
  rcases Nat.le_total n.log2 52 with hlog | hlog
  · rw [roundNat_of_log2_le hlog, roundNat_of_log2_le hlog]
  · have hn : n ≠ 0 := by
      rintro rfl
      simp at hlog
    obtain ⟨hlow, hhigh⟩ := bounds_roundNat hn
    have hne : roundNat n ≠ 0 := Nat.ne_of_gt (Nat.lt_of_lt_of_le (Nat.two_pow_pos _) hlow)
    rw [roundNat_eq_self_iff]
    -- the rounding has carried into the next bit, so it is a power of two
    rcases Nat.eq_or_lt_of_le hhigh with hcarry | hsmall
    · rw [lastBit, hcarry, Nat.log2_two_pow]
      exact Nat.pow_dvd_pow 2 (Nat.sub_le _ _)
    · -- otherwise its last bit is that of the number, which divides it by definition
      have hsame : (roundNat n).log2 = n.log2 := (Nat.log2_eq_iff hne).mpr ⟨hlow, hsmall⟩
      rw [lastBit, hsame]
      exact Dvd.intro_left (divideToEven n (lastBit n)) rfl

/-- The natural numbers that no other one is rounded to: those of fifty-three bits, and of those
with one bit more the ones that are even by one bit only. -/
def IsExact (n : Nat) : Prop := n < 0x20000000000000 ∨ n < 0x40000000000000 ∧ n % 4 = 2

/-- A number below two to the fifty-third has fifty-three bits. -/
theorem log2_of_lt (h : n < 0x20000000000000) : n.log2 ≤ 52 := by
  rcases Nat.eq_zero_or_pos n with rfl | hpos
  · decide
  · have hlog : n.log2 < 53 := (Nat.log2_lt (Nat.ne_of_gt hpos)).mpr h
    omega

theorem le_roundNat {k : Nat} (h : 2 ^ k ≤ n) : 2 ^ k ≤ roundNat n := by
  have hn : n ≠ 0 := Nat.ne_of_gt (Nat.lt_of_lt_of_le (Nat.two_pow_pos k) h)
  calc 2 ^ k ≤ 2 ^ n.log2 := Nat.pow_le_pow_right (by decide) ((Nat.le_log2 hn).mpr h)
    _ ≤ roundNat n := (bounds_roundNat hn).1

theorem lastBit_eq_two (hlow : 0x20000000000000 ≤ n) (hhigh : n < 0x40000000000000) :
    lastBit n = 2 := by
  have hlog : n.log2 = 53 := (Nat.log2_eq_iff (by omega)).mpr ⟨hlow, hhigh⟩
  rw [lastBit, hlog]
  rfl

/-- An exact number is its own rounding. -/
theorem IsExact.roundNat_eq (hn : IsExact n) : roundNat n = n := by
  rcases Nat.lt_or_ge n 0x20000000000000 with hlow | hlow
  · exact roundNat_of_log2_le (log2_of_lt hlow)
  · obtain ⟨hhigh, heven⟩ := hn.resolve_left (Nat.not_lt.mpr hlow)
    rw [roundNat_eq_self_iff, lastBit_eq_two hlow hhigh]
    omega

/-- No number but an exact one itself is rounded to what it is rounded to. -/
theorem IsExact.eq_of_roundNat_eq (hn : IsExact n) (h : roundNat m = roundNat n) : m = n := by
  rw [hn.roundNat_eq] at h
  rcases Nat.lt_or_ge m 0x20000000000000 with hm | hm
  · rwa [roundNat_of_log2_le (log2_of_lt hm)] at h
  · have hlow : 0x20000000000000 ≤ n := h ▸ le_roundNat (k := 53) hm
    obtain ⟨hhigh, heven⟩ := hn.resolve_left (Nat.not_lt.mpr hlow)
    have hmhigh : m < 0x40000000000000 := by
      refine Nat.lt_of_not_ge fun hge => ?_
      have hround : 0x40000000000000 ≤ roundNat m := le_roundNat (k := 54) hge
      omega
    -- a tie goes to a multiple of four, and any even number stays as it is
    rw [roundNat, lastBit_eq_two hm hmhigh, divideToEven_eq] at h
    split at h <;> omega

/-- A number of more bits that is its own rounding is the rounding of its successor as well, unless
it is even by one bit only. -/
theorem roundNat_succ (hn : ¬IsExact n) (h : roundNat n = n) : roundNat (n + 1) = n := by
  have hlow : 0x20000000000000 ≤ n := Nat.le_of_not_lt fun hlt => hn (.inl hlt)
  have hne : n ≠ 0 := by omega
  have hlog : 53 ≤ n.log2 := (Nat.le_log2 hne).mpr hlow
  have hdvd := roundNat_eq_self_iff.mp h
  have hbit : lastBit n = 2 * 2 ^ (n.log2 - 53) := by
    rw [lastBit, ← Nat.pow_succ']
    congr 1
    omega
  have hsucc : lastBit (n + 1) = lastBit n := by
    -- both the number and the next power of two are even
    have heven : 2 ∣ n := Nat.dvd_trans (hbit ▸ Nat.dvd_mul_right 2 _) hdvd
    have hnext : n < 2 ^ (n.log2 + 1) := Nat.lt_log2_self
    have hsame : (n + 1).log2 = n.log2 := by
      rw [Nat.log2_eq_iff (Nat.succ_ne_zero n)]
      have hself := Nat.log2_self_le hne
      rw [Nat.pow_succ] at hnext ⊢
      omega
    rw [lastBit, lastBit, hsame]
  obtain ⟨k, hk⟩ := hdvd
  have hone : 1 < lastBit n := by
    have hpos : 0 < 2 ^ (n.log2 - 53) := Nat.two_pow_pos _
    omega
  obtain ⟨hquotient, hrest⟩ :=
    (Nat.div_mod_unique lastBit_pos).mpr ⟨show 1 + lastBit n * k = n + 1 by omega, hone⟩
  rw [roundNat, hsucc, divideToEven_eq, hquotient, hrest, if_neg, Nat.mul_comm]
  · exact hk.symm
  · -- a tie is only met with a last bit of two, and then the number is a multiple of four
    rintro (hup | ⟨htie, hodd⟩)
    · omega
    · have hplace : n.log2 = 53 := by
        have hexponent : 2 ^ (n.log2 - 53) = 2 ^ 0 := by omega
        have hzero := Nat.pow_right_injective (Nat.le_refl 2) hexponent
        omega
      have hhigh : n < 0x40000000000000 := by
        have hnext : n < 2 ^ (n.log2 + 1) := Nat.lt_log2_self
        rwa [hplace] at hnext
      rw [← htie] at hk
      exact hn (.inr ⟨hhigh, by omega⟩)

/-- Another number in the range has the same rounding unless the number is exact. -/
theorem exists_roundNat_eq (hn : ¬IsExact n) (hbound : n ≤ 0x8000000000000000) :
    ∃ m ≠ n, m ≤ 0x8000000000000000 ∧ roundNat m = roundNat n := by
  rcases Nat.eq_or_lt_of_le hbound with rfl | hless
  · exact ⟨0x7FFFFFFFFFFFFFFF, by decide, by decide, by decide⟩
  · by_cases hself : roundNat n = n
    · exact ⟨n + 1, Nat.succ_ne_self n, hless, (roundNat_succ hn hself).trans hself.symm⟩
    · refine ⟨roundNat n, hself, ?_, roundNat_roundNat⟩
      calc roundNat n ≤ roundNat 0x8000000000000000 := roundNat_mono hbound
        _ = 0x8000000000000000 := by decide

end Whole

/-! ### Comparison of whole numbers -/

section Comparison

variable {m n : Int}

/-- The value of the double nearest to a whole number. -/
def nearest (n : Int) : Int := signed (decide (n < 0)) (roundNat n.natAbs)

/-- The whole numbers of sixty-four bits, with a sign or without one. -/
def IsWord (n : Int) : Prop := -0x8000000000000000 ≤ n ∧ n ≤ 0xFFFFFFFFFFFFFFFF

/-- A number of a word has sixty-four bits. -/
theorem IsWord.log2_le (hn : IsWord n) : n.natAbs.log2 ≤ 64 := by
  unfold IsWord at hn
  rcases Nat.eq_zero_or_pos n.natAbs with hzero | hpos
  · rw [hzero]
    decide
  · have hlog : n.natAbs.log2 < 65 := (Nat.log2_lt (Nat.ne_of_gt hpos)).mpr (by omega)
    omega

/-- A whole number becomes the double that has its rounding as value. -/
theorem units_ofInt (hn : IsWord n) : (ofInt n).units = nearest n * unitsOfOne := by
  rw [units, ofInt, negative_round, magnitude_round _ hn.log2_le, nearest]
  unfold signed
  split
  · rw [Int.natCast_mul, Int.neg_mul]
  · rw [Int.natCast_mul]

/-- Whole numbers that become doubles are compared as their roundings are. -/
theorem compare?_ofInt (hm : IsWord m) (hn : IsWord n) :
    (ofInt m).compare? (ofInt n) = some (compare (nearest m) (nearest n)) := by
  have hpos : (0 : Int) < unitsOfOne := Int.natCast_pos.mpr unitsOfOne_pos
  rw [compare?_eq_units (isNaN_ofInt m) (isNaN_ofInt n), units_ofInt hm, units_ofInt hn]
  exact congrArg some (compare_eq_compare (Int.mul_lt_mul_right hpos) (Int.mul_lt_mul_right hpos))

/-- **Rounding is monotone.** -/
theorem nearest_mono (h : m ≤ n) : nearest m ≤ nearest n := by
  unfold nearest signed
  rcases Int.lt_or_le m 0 with hm | hm <;> rcases Int.lt_or_le n 0 with hn | hn
  · have hround := roundNat_mono (show n.natAbs ≤ m.natAbs by omega)
    simp only [hm, hn, decide_true, if_true]
    omega
  · simp only [hm, Int.not_lt.mpr hn, decide_true, decide_false, if_true, Bool.false_eq_true,
      if_false]
    omega
  · omega
  · have hround := roundNat_mono (show m.natAbs ≤ n.natAbs by omega)
    simp only [Int.not_lt.mpr hm, Int.not_lt.mpr hn, decide_false, Bool.false_eq_true, if_false]
    omega

theorem natAbs_nearest : (nearest n).natAbs = roundNat n.natAbs := by
  unfold nearest signed
  split <;> omega

/-- No number but an exact one itself has its rounding. -/
theorem IsExact.eq_of_nearest_eq (hn : IsExact n.natAbs) (h : nearest m = nearest n) : m = n := by
  have habs : m.natAbs = n.natAbs := by
    refine hn.eq_of_roundNat_eq ?_
    rw [← natAbs_nearest, ← natAbs_nearest, h]
  unfold nearest signed at h
  rw [habs, hn.roundNat_eq] at h
  simp only [decide_eq_true_eq] at h
  split at h <;> split at h <;> omega

/-- A comparison with an exact number is not touched by rounding. -/
theorem IsExact.compare_nearest (hn : IsExact n.natAbs) (m : Int) :
    compare (nearest m) (nearest n) = compare m n := by
  have hne : nearest m = nearest n → m = n := hn.eq_of_nearest_eq
  have hless : m ≤ n → nearest m ≤ nearest n := nearest_mono
  have hgreater : n ≤ m → nearest n ≤ nearest m := nearest_mono
  exact compare_eq_compare (by omega) (by omega)

/-- Another number of sixty-four bits has the same rounding unless the number is exact. -/
theorem exists_nearest_eq (hn : ¬IsExact n.natAbs) (hlow : -0x8000000000000000 ≤ n)
    (hhigh : n ≤ 0x7FFFFFFFFFFFFFFF) : ∃ m ≠ n, IsWord m ∧ nearest m = nearest n := by
  obtain ⟨k, hne, hbound, hround⟩ := exists_roundNat_eq hn (by omega)
  -- a number that is not exact is large, and so is the other one
  have hlarge : 0x20000000000000 ≤ n.natAbs := Nat.le_of_not_lt fun hlt => hn (.inl hlt)
  have hpos : 0 < k := by
    refine Nat.pos_of_ne_zero ?_
    rintro rfl
    have hlarge := le_roundNat (k := 53) hlarge
    rw [roundNat_of_log2_le (by decide)] at hround
    omega
  unfold IsWord nearest signed
  simp only [decide_eq_true_eq]
  rcases Int.lt_or_le n 0 with hneg | hnonneg
  · refine ⟨-k, by omega, by omega, ?_⟩
    rw [if_pos (by omega), if_pos hneg, Int.natAbs_neg, Int.natAbs_natCast, hround]
  · refine ⟨k, by omega, by omega, ?_⟩
    rw [if_neg (by omega), if_neg (by omega), Int.natAbs_natCast, hround]

end Comparison

end FilterQuery.Double
