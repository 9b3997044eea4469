import FilterQuery.Proofs.DecimalGrids

/-!
# The shortest decimals of a double

Of the decimals that read back as a double, the **shortest** ones have their last digit at the
greatest power of ten, and are the nearest to the double among those (`Double.IsShortest`). The
search for the digits of a double ends with one of them (`Double.isShortest_shortest`).

* **The search** goes through grids from coarse to fine, and stops at the first on which a point
  reads back. It starts at a power of ten that is not below the double, so that no coarser grid has
  a point to find, and ends with a grid that is fine enough for any double.
* **Ties.** The two rules for ties end with the same decimal, unless the double is half-way between
  two of which the smaller one has an even last digit (`Double.shortest_up_eq_iff`).
* **Whole numbers.** The shortest decimals of a whole number have no places behind the point, and
  those of any other double have some (`Double.exponent_shortest_nonneg_iff`).
* **Small numbers.** Their leading digit stands in one of the first five places behind the point, or
  in front of it, if the double is not less than the fifth place itself
  (`Double.neg_five_le_leadingPlace_iff`).

The last two decide in which layout a double is written.
-/

namespace FilterQuery

/-! ### Numbers of digits -/

theorem length_digitsOf_pos (n : Nat) : 0 < (digitsOf n).length :=
  List.length_pos_iff.mpr (digitsOf_ne_nil n)

theorem lt_pow_length_digitsOf (n : Nat) : n < 10 ^ (digitsOf n).length :=
  (Nat.length_toDigits_le_iff (by decide) (length_digitsOf_pos n)).mp le_rfl

/-- A number is at least the power of ten with as many digits. -/
theorem pow_length_digitsOf_le {n : Nat} (hn : 0 < n) :
    (10 : ℚ) ^ ((digitsOf n).length - 1 : Int) ≤ n := by
  have hpos := length_digitsOf_pos n
  rw [← Int.natCast_one, ← Int.natCast_sub hpos, zpow_natCast]
  norm_cast
  rcases Nat.eq_zero_or_pos ((digitsOf n).length - 1) with hlength | hlength
  · rw [hlength]
    exact hn
  · rw [← Nat.not_lt, ← Nat.length_toDigits_le_iff (by decide) hlength]
    exact Nat.not_le.mpr (Nat.sub_lt hpos Nat.one_pos)

namespace Decimal

/-- The number that a decimal stands for. -/
def value (d : Decimal) : ℚ := d.digits * 10 ^ d.exponent

/-- The leading digit stands at the greatest power of ten that is not above the decimal. -/
theorem le_leadingPlace_iff {d : Decimal} (hd : 0 < d.digits) {k : Int} :
    k ≤ d.leadingPlace ↔ (10 : ℚ) ^ k ≤ d.value := by
  have hten : (1 : ℚ) ≤ 10 := by norm_num
  have hpower : (0 : ℚ) < 10 ^ d.exponent := by positivity
  rw [leadingPlace, value]
  -- the first digit alone is as great as the power
  constructor
  · intro hk
    calc (10 : ℚ) ^ k ≤ 10 ^ ((digitsOf d.digits).length - 1 + d.exponent : Int) :=
          zpow_le_zpow_right₀ hten hk
      _ = 10 ^ ((digitsOf d.digits).length - 1 : Int) * 10 ^ d.exponent :=
          zpow_add₀ (by norm_num) _ _
      _ ≤ d.digits * 10 ^ d.exponent :=
          mul_le_mul_of_nonneg_right (pow_length_digitsOf_le hd) hpower.le
  · -- otherwise the whole decimal is below the next power of ten
    intro hk
    by_contra hlt
    have hdigits : (d.digits : ℚ) < 10 ^ (digitsOf d.digits).length := by
      exact_mod_cast lt_pow_length_digitsOf d.digits
    refine absurd hk (not_le.mpr ?_)
    calc (d.digits * 10 ^ d.exponent : ℚ)
        < 10 ^ (digitsOf d.digits).length * 10 ^ d.exponent :=
          mul_lt_mul_of_pos_right hdigits hpower
      _ = 10 ^ ((digitsOf d.digits).length + d.exponent : Int) := by
          rw [zpow_add₀ (by norm_num), zpow_natCast]
      _ ≤ 10 ^ k := zpow_le_zpow_right₀ hten (by omega)

end Decimal

namespace Double

variable {x : Double} {tie : Tie} {n : Nat}

/-!
### The grids that are searched

No grid above the place where the search starts has a point that reads back, and eighteen places
below it the grid is finer than the interval of the numbers that read back. So the search finds
something, and finds it in the coarsest grid that has such a point.
-/

/-- A significand has fifty-three bits. -/
theorem significand_lt : x.significand < 2 ^ 53 := by
  have hrest : x.word.val % exponentUnit < exponentUnit := Nat.mod_lt _ (by decide)
  unfold significand
  unfold exponentUnit at *
  split <;> omega

/-- The significand has its leading bit, unless the scale is the least one. -/
theorem le_significand (h : x.scale ≠ -1074) : 2 ^ 52 ≤ x.significand := by
  unfold scale at h
  unfold significand
  split at h
  · exact absurd rfl h
  · rw [if_neg ‹_›]
    exact Nat.le_add_right _ _

/-- The double as a fraction of whole numbers. -/
theorem size_eq_div : x.size = x.numerator / x.denominator := by
  have hpower := zpow_mul_pow_toNat_neg (by norm_num : (2 : ℚ) ≠ 0) x.scale
  have hpos : (0 : ℚ) < 2 ^ (-x.scale).toNat := by positivity
  simp only [size, numerator, denominator, Nat.pow_eq, Nat.cast_mul, Nat.cast_pow, Nat.cast_ofNat]
  rw [← hpower, eq_div_iff hpos.ne', mul_assoc]

/-- The size has a digit at the place below the top place. -/
theorem pow_topPlace_le_size (hx : 0 < x.significand) : (10 : ℚ) ^ (x.topPlace - 1) ≤ x.size := by
  have hnum : 0 < x.numerator := Nat.mul_pos hx (Nat.two_pow_pos _)
  have hden : 0 < x.denominator := Nat.two_pow_pos _
  rw [size_eq_div, topPlace, le_div_iff₀ (Nat.cast_pos.mpr hden)]
  split
  · next hle =>
    -- the digits of the whole part
    calc (10 : ℚ) ^ ((digitsOf (x.numerator / x.denominator)).length - 1 : Int) * x.denominator
        ≤ (x.numerator / x.denominator : ℕ) * x.denominator := by
          gcongr
          exact pow_length_digitsOf_le (Nat.div_pos hle hden)
      _ ≤ x.numerator := by exact_mod_cast Nat.div_mul_le_self _ _
  · next hlt =>
    -- the digits of the whole part of the inverse
    have hinverse := lt_pow_length_digitsOf (x.denominator / x.numerator)
    rw [Nat.div_lt_iff_lt_mul hnum] at hinverse
    have hplace : (1 - (digitsOf (x.denominator / x.numerator)).length - 1 : Int) =
        -((digitsOf (x.denominator / x.numerator)).length : ℕ) := by omega
    rw [hplace, zpow_neg, zpow_natCast, inv_mul_le_iff₀ (by positivity)]
    exact_mod_cast hinverse.le

/-- The size has no digit above the top place. -/
theorem size_le_pow_topPlace (hx : 0 < x.significand) : x.size ≤ (10 : ℚ) ^ x.topPlace := by
  have hnum : 0 < x.numerator := Nat.mul_pos hx (Nat.two_pow_pos _)
  have hden : 0 < x.denominator := Nat.two_pow_pos _
  rw [size_eq_div, topPlace, div_le_iff₀ (Nat.cast_pos.mpr hden)]
  split
  · next hle =>
    have hwhole := lt_pow_length_digitsOf (x.numerator / x.denominator)
    rw [Nat.div_lt_iff_lt_mul hden] at hwhole
    rw [zpow_natCast]
    exact_mod_cast hwhole.le
  · next hlt =>
    have hinverse := pow_length_digitsOf_le (Nat.div_pos (not_le.mp hlt).le hnum)
    have hplace : (1 - (digitsOf (x.denominator / x.numerator)).length : Int) =
        -((digitsOf (x.denominator / x.numerator)).length - 1) := by omega
    rw [hplace, zpow_neg, ← div_eq_inv_mul, le_div_iff₀ (by positivity), mul_comm]
    calc (10 : ℚ) ^ ((digitsOf (x.denominator / x.numerator)).length - 1 : Int) * x.numerator
        ≤ (x.denominator / x.numerator : ℕ) * x.numerator := by gcongr
      _ ≤ x.denominator := by exact_mod_cast Nat.div_mul_le_self _ _

/-- Eighteen places below the top place, the grid is finer than the interval that reads back. -/
theorem isSome_onGrid?_last (hx : 0 < x.significand) :
    (x.onGrid? tie (x.topPlace - 18)).isSome = true := by
  have hscale : (0 : ℚ) < 2 ^ x.scale := by positivity
  -- the distance between two grid points is less than half of the last bit
  have hfine : (10 : ℚ) ^ (x.topPlace - 18) < 2 ^ x.scale / 2 := by
    have hbits : (x.significand : ℚ) < 2 ^ 53 := by exact_mod_cast significand_lt
    have hbound := mul_lt_mul_of_pos_right hbits hscale
    have hplaces : (10 : ℚ) ^ (x.topPlace - 1) = 10 ^ 17 * 10 ^ (x.topPlace - 18) := by
      rw [← zpow_natCast, ← zpow_add₀ (by norm_num)]
      congr 1
      norm_num
      ring
    have hsize := pow_topPlace_le_size hx
    rw [hplaces, size] at hsize
    linarith
  -- so the grid point behind the size is still in the interval
  have hlower := below_mul_le (x := x) (j := x.topPlace - 18)
  have hsize := size_lt_below_succ_mul (x := x) (j := x.topPlace - 18)
  rw [isSome_onGrid?_iff]
  refine .inr ((hits_iff hx).mpr (readsBack_of_lt ?_ ?_))
  · rw [Nat.cast_succ]
    exact lower_lt_size.trans hsize
  · have hupper : x.upper = x.size + 2 ^ x.scale / 2 := by
      rw [upper, size]
      ring
    push_cast
    linarith

/-- A search through numbers in their order ends with the first that has a result. -/
theorem findSome?_range {α : Type} {f : Nat → Option α} {i m : Nat} {a : α} (hi : i < m)
    (hfound : f i = some a) (hnone : ∀ k < i, f k = none) :
    (List.range m).findSome? f = some a := by
  have hbefore : (List.range i).findSome? f = none :=
    List.findSome?_eq_none_iff.mpr fun k hk => hnone k (List.mem_range.mp hk)
  obtain ⟨rest, rfl⟩ := Nat.exists_eq_add_of_lt hi
  rw [Nat.add_assoc, List.range_add, List.findSome?_append, hbefore, List.range_succ_eq_map,
    List.map_cons, List.findSome?_cons, Nat.add_zero, hfound]
  rfl

/-- The search ends in the first grid in which something is found, whatever the rule for ties. -/
theorem exists_shortest_eq (hx : 0 < x.significand) : ∃ j,
    (∀ k ≤ x.topPlace, j < k → ∀ tie, x.onGrid? tie k = none) ∧
      ∀ tie, ∃ n, x.onGrid? tie j = some n ∧ x.shortest tie = ⟨n, j⟩ := by
  -- the index of the first grid in which something is found, the top place being the grid of index
  -- 0
  have hlast : ∃ i, (x.onGrid? .up (x.topPlace - (i : ℕ))).isSome = true :=
    ⟨18, isSome_onGrid?_last hx⟩
  have hfirst : Nat.find hlast ≤ 18 := Nat.find_min' hlast (isSome_onGrid?_last hx)
  have hbefore : ∀ i < Nat.find hlast, ∀ tie, x.onGrid? tie (x.topPlace - i) = none := by
    intro i hi tie
    have hnot := Nat.find_min hlast hi
    rw [isSome_onGrid?_eq .up tie] at hnot
    exact Option.not_isSome_iff_eq_none.mp hnot
  refine ⟨x.topPlace - Nat.find hlast, fun k hk hlt tie => ?_, fun tie => ?_⟩
  · have hplace : k = x.topPlace - (x.topPlace - k).toNat := by omega
    rw [hplace]
    exact hbefore _ (by omega) tie
  · have hfound := Nat.find_spec hlast
    rw [isSome_onGrid?_eq .up tie] at hfound
    obtain ⟨n, hn⟩ := Option.isSome_iff_exists.mp hfound
    refine ⟨n, hn, ?_⟩
    rw [shortest, if_neg (Nat.ne_of_gt hx)]
    have hsearch := findSome?_range (m := 19) (Nat.lt_succ_of_le hfirst)
      (f := fun i : Nat => (x.onGrid? tie (x.topPlace - i)).map (Decimal.mk · (x.topPlace - i)))
      (by rw [hn]; rfl) (fun i hi => by rw [hbefore i hi]; rfl)
    exact congrArg (Option.getD · ⟨0, 0⟩) hsearch

/-! ### The shortest decimals -/

/-- The decimal reads back, no decimal whose last digit is at a greater power of ten does, and none
with as many places that does is nearer. -/
structure IsShortest (x : Double) (d : Decimal) : Prop where
  readsBack : x.ReadsBack d.value
  not_readsBack : ∀ (n : ℕ) (j : ℤ), d.exponent < j → ¬x.ReadsBack (n * 10 ^ j)
  nearest : ∀ n : ℕ, x.ReadsBack (n * 10 ^ d.exponent) →
    |x.size - d.value| ≤ |x.size - n * 10 ^ d.exponent|

/-- All shortest decimals have their last digit at the same place. -/
theorem IsShortest.exponent_eq {d d' : Decimal} (h : x.IsShortest d) (h' : x.IsShortest d') :
    d.exponent = d'.exponent := by
  rcases lt_trichotomy d.exponent d'.exponent with hlt | heq | hlt
  · exact absurd h'.readsBack (h.not_readsBack _ _ hlt)
  · exact heq
  · exact absurd h.readsBack (h'.not_readsBack _ _ hlt)

theorem IsShortest.digits_pos {d : Decimal} (hx : 0 < x.significand) (h : x.IsShortest d) :
    0 < d.digits := by
  refine Nat.pos_of_ne_zero fun hzero => ?_
  have hvalue := h.readsBack.pos hx
  simp [Decimal.value, hzero] at hvalue

/-- Above the top place, the grids are too coarse. -/
theorem not_readsBack_of_topPlace_lt (hx : 0 < x.significand) {j : ℤ} (hj : x.topPlace < j) :
    ¬x.ReadsBack (n * 10 ^ j) := by
  intro h
  rcases Nat.eq_zero_or_pos n with rfl | hn
  · have hpos := h.pos hx
    simp at hpos
  · have hone : (1 : ℚ) ≤ x.significand := by exact_mod_cast hx
    -- the upper end of the interval is not far above the size
    have hupper : x.upper ≤ 3 / 2 * x.size := by
      have hscale : (0 : ℚ) < 2 ^ x.scale := by positivity
      rw [upper, size, ← mul_assoc, mul_le_mul_iff_left₀ hscale]
      linarith
    have hpower : (10 : ℚ) ^ (x.topPlace + 1) ≤ n * 10 ^ j := by
      rw [← one_mul ((10 : ℚ) ^ (x.topPlace + 1))]
      gcongr
      · exact_mod_cast hn
      · norm_num
      · exact hj
    have htop : (0 : ℚ) < 10 ^ x.topPlace := by positivity
    have hsize := size_le_pow_topPlace hx
    have hread := h.le_upper
    rw [zpow_add₀ (by norm_num), zpow_one] at hpower
    linarith

/-- The search ends with a shortest decimal. -/
theorem isShortest_shortest (hx : 0 < x.significand) : x.IsShortest (x.shortest tie) := by
  obtain ⟨j, hbefore, hfound⟩ := exists_shortest_eq hx
  obtain ⟨n, hn, hshortest⟩ := hfound tie
  rw [hshortest]
  refine ⟨(of_onGrid?_eq_some hx hn).1, fun m k hk => ?_, fun m hm => ?_⟩
  · rcases le_or_gt k x.topPlace with hle | hlt
    · exact not_readsBack_of_onGrid?_eq_none hx (hbefore k hle hk tie) m
    · exact not_readsBack_of_topPlace_lt hx hlt
  · exact abs_size_sub_le_of_onGrid?_eq_some hx hn hm

/-- The shortest decimal is less than a unit of its last place away from the double. -/
theorem size_lt_shortest_succ (hx : 0 < x.significand) :
    x.size < ((x.shortest tie).digits + 1) * 10 ^ (x.shortest tie).exponent := by
  obtain ⟨j, -, hfound⟩ := exists_shortest_eq hx
  obtain ⟨n, hn, hshortest⟩ := hfound tie
  rw [hshortest]
  exact (of_onGrid?_eq_some hx hn).2

/-- The rules for ties take the same decimal, unless the double is half-way between a shortest
decimal with an even last digit and the next greater one. -/
theorem shortest_up_eq_iff (hx : 0 < x.significand) : x.shortest .up = x.shortest .toEven ↔
    ∀ d, x.IsShortest d → d.digits % 2 = 0 → x.size ≠ (d.digits + 1 / 2) * 10 ^ d.exponent := by
  obtain ⟨j, -, hfound⟩ := exists_shortest_eq hx
  obtain ⟨m, hup, hshortest⟩ := hfound .up
  obtain ⟨n, heven, hshortest'⟩ := hfound .toEven
  constructor
  · intro hsame d hd hdigits hmiddle
    have hfinds : x.IsShortest ⟨n, j⟩ := hshortest' ▸ isShortest_shortest hx
    have hexponent : d.exponent = j := hd.exponent_eq hfinds
    have hreads : x.ReadsBack (d.digits * 10 ^ j) := hexponent ▸ hd.readsBack
    obtain ⟨hgreater, hless⟩ := onGrid?_of_middle hx hdigits hreads (hexponent ▸ hmiddle)
    obtain rfl : m = d.digits + 1 := Option.some.inj (hup.symm.trans hgreater)
    obtain rfl : n = d.digits := Option.some.inj (heven.symm.trans hless)
    rw [hshortest, hshortest', Decimal.mk.injEq] at hsame
    exact Nat.succ_ne_self _ hsame.1
  · intro huntied
    by_contra hne
    have hgrids : x.onGrid? .up j ≠ x.onGrid? .toEven j := by
      rw [hup, heven]
      rintro ⟨⟩
      exact hne (hshortest.trans hshortest'.symm)
    obtain ⟨k, hk, hreads, hmiddle⟩ := exists_middle_of_onGrid?_ne hx hgrids
    have hfirst := (onGrid?_of_middle hx hk hreads hmiddle).2
    obtain rfl : n = k := Option.some.inj (heven.symm.trans hfirst)
    exact huntied ⟨n, j⟩ (hshortest' ▸ isShortest_shortest hx) hk hmiddle

/-! ### Whole numbers -/

/-- A whole number that reads back as a double whose last place is a fraction is the size of it. -/
theorem size_eq_of_readsBack_natCast (hscale : x.scale < 0) (h : x.ReadsBack (n : ℚ)) :
    x.size = n := by
  have hpos : (0 : ℚ) < 2 ^ x.scale := by positivity
  have hpower : (2 : ℚ) ^ x.scale * 2 ^ (-x.scale).toNat = 1 := by
    rw [zpow_mul_pow_toNat_neg (by norm_num), Int.toNat_of_nonpos hscale.le, pow_zero]
  -- the whole number is a multiple of the last place, and only one is close enough
  have hmultiple : (n : ℚ) = (n * 2 ^ (-x.scale).toNat : ℕ) * 2 ^ x.scale := by
    push_cast
    rw [mul_assoc, mul_comm (2 ^ (-x.scale).toNat : ℚ), hpower, mul_one]
  have hlower := h.lower_le
  have hupper := h.le_upper
  rw [hmultiple, lower, mul_le_mul_iff_left₀ hpos] at hlower
  rw [hmultiple, upper, mul_le_mul_iff_left₀ hpos] at hupper
  have hsame : x.significand = n * 2 ^ (-x.scale).toNat := by
    have hless : (x.significand : ℚ) < (n * 2 ^ (-x.scale).toNat : ℕ) + 1 := by
      split at hlower <;> linarith
    have hgreater : ((n * 2 ^ (-x.scale).toNat : ℕ) : ℚ) < x.significand + 1 := by linarith
    norm_cast at hless hgreater
    omega
  rw [size, hsame, ← hmultiple]

/-- Without a fraction the double is whole. -/
theorem isWhole_of_scale_nonneg (h : 0 ≤ x.scale) : x.IsWhole := by
  refine ⟨x.significand * 2 ^ x.scale.toNat, ?_⟩
  rw [size]
  push_cast
  rw [← zpow_natCast, Int.toNat_of_nonneg h]

/-- A double is whole if a whole number reads back as it. -/
theorem isWhole_of_readsBack_natCast (h : x.ReadsBack (n : ℚ)) : x.IsWhole := by
  rcases lt_or_ge x.scale 0 with hscale | hscale
  · exact ⟨n, size_eq_of_readsBack_natCast hscale h⟩
  · exact isWhole_of_scale_nonneg hscale

theorem isWhole_of_zero (hzero : x.significand = 0) : x.IsWhole := ⟨0, by rw [size, hzero]; simp⟩

theorem shortest_of_zero (hzero : x.significand = 0) : x.shortest tie = ⟨0, 0⟩ := if_pos hzero

/-- The decimal has no places behind the point if the double is whole. -/
theorem exponent_shortest_nonneg_iff : 0 ≤ (x.shortest tie).exponent ↔ x.IsWhole := by
  rcases Nat.eq_zero_or_pos x.significand with hzero | hx
  · rw [shortest_of_zero hzero]
    exact iff_of_true le_rfl (isWhole_of_zero hzero)
  have hshortest : x.IsShortest (x.shortest tie) := isShortest_shortest hx
  constructor
  · intro hexponent
    have hwhole : (x.shortest tie).value =
        ((x.shortest tie).digits * 10 ^ (x.shortest tie).exponent.toNat : ℕ) := by
      rw [Decimal.value]
      push_cast
      rw [← zpow_natCast, Int.toNat_of_nonneg hexponent]
    exact isWhole_of_readsBack_natCast (hwhole ▸ hshortest.readsBack)
  · rintro ⟨k, hk⟩
    by_contra hneg
    -- the double itself is among the whole numbers
    refine hshortest.not_readsBack k 0 (not_le.mp hneg) ?_
    rw [zpow_zero, mul_one, ← hk]
    exact readsBack_size

/-! ### The leading digit -/

/-- The fifth decimal place is not half-way between two doubles, so a double that it does not exceed
by rounding it does not exceed at all. -/
theorem le_size_of_le_upper (h : (10 : ℚ) ^ (-5 : Int) ≤ x.upper) :
    (10 : ℚ) ^ (-5 : Int) ≤ x.size := by
  have hbits : (x.significand : ℚ) + 1 ≤ 2 ^ 53 := by exact_mod_cast significand_lt
  have htwo : (1 : ℚ) ≤ 2 := by norm_num
  rcases lt_trichotomy x.scale (-69) with hscale | hscale | hscale
  · -- all such doubles are smaller
    have hpower : (2 : ℚ) ^ x.scale ≤ 2 ^ (-70 : Int) := zpow_le_zpow_right₀ htwo (by omega)
    refine absurd h (not_le.mpr ?_)
    calc x.upper ≤ 2 ^ 53 * 2 ^ (-70 : Int) := by
          unfold upper
          gcongr
          linarith
      _ < 10 ^ (-5 : Int) := by norm_num
  · -- at this scale the fifth place lies between two significands, 5902958103587056 and the next
    have hleast : (5902958103587057 : ℚ) ≤ x.significand := by
      rw [upper, hscale] at h
      norm_num at h
      have hless : (5902958103587056 : ℚ) < x.significand := by linarith
      exact_mod_cast hless
    rw [size, hscale]
    norm_num
    linarith
  · -- all such doubles are greater
    have hpower : (2 : ℚ) ^ (-68 : Int) ≤ 2 ^ x.scale := zpow_le_zpow_right₀ htwo (by omega)
    have hleading : (2 ^ 52 : ℚ) ≤ x.significand := by
      exact_mod_cast le_significand (by omega)
    calc (10 : ℚ) ^ (-5 : Int) ≤ 2 ^ 52 * 2 ^ (-68 : Int) := by norm_num
      _ ≤ x.size := by
          unfold size
          gcongr

/-- The leading digit stands in the fifth place or in front of it if the double is not less. -/
theorem neg_five_le_leadingPlace_iff (hx : 0 < x.significand) :
    -5 ≤ (x.shortest tie).leadingPlace ↔ (10 : ℚ) ^ (-5 : Int) ≤ x.size := by
  have hshortest : x.IsShortest (x.shortest tie) := isShortest_shortest hx
  have hsize : x.size < ((x.shortest tie).digits + 1) * 10 ^ (x.shortest tie).exponent :=
    size_lt_shortest_succ hx
  have hdigits := hshortest.digits_pos hx
  have hreads := hshortest.readsBack
  rw [Decimal.le_leadingPlace_iff hdigits, Decimal.value] at *
  generalize x.shortest tie = d at *
  have hpower : (0 : ℚ) < 10 ^ d.exponent := by positivity
  constructor
  · exact fun h => le_size_of_le_upper (h.trans hreads.le_upper)
  · intro h
    rcases le_or_gt d.exponent (-5) with hexponent | hexponent
    · -- the fifth decimal place is in the grid, so the grid point around the double is beyond it
      have hplace : (10 : ℚ) ^ (-5 : Int) =
          (10 ^ (-5 - d.exponent).toNat : ℕ) * 10 ^ d.exponent := by
        push_cast
        rw [← zpow_natCast, ← zpow_add₀ (by norm_num)]
        congr 1
        omega
      have hless := h.trans_lt hsize
      rw [hplace, mul_lt_mul_iff_left₀ hpower] at hless
      rw [hplace, mul_le_mul_iff_left₀ hpower]
      norm_cast at hless ⊢
      omega
    · -- the exponent itself is above the fifth place, and there is a digit at least
      calc (10 : ℚ) ^ (-5 : Int) ≤ 1 * 10 ^ d.exponent := by
            rw [one_mul]
            exact zpow_le_zpow_right₀ (by norm_num) hexponent.le
        _ ≤ d.digits * 10 ^ d.exponent := by
            gcongr
            exact_mod_cast hdigits

/-- A double that is not whole is too small for more than sixteen places before the point. -/
theorem leadingPlace_shortest_le (hx : 0 < x.significand) (hfraction : ¬x.IsWhole) :
    (x.shortest tie).leadingPlace ≤ 15 := by
  have hscale : x.scale < 0 :=
    lt_of_not_ge fun hscale => hfraction (isWhole_of_scale_nonneg hscale)
  have hshortest : x.IsShortest (x.shortest tie) := isShortest_shortest hx
  rw [← Int.lt_add_one_iff, ← not_le, Decimal.le_leadingPlace_iff (hshortest.digits_pos hx),
    not_le]
  have hbits : (x.significand : ℚ) + 1 ≤ 2 ^ 53 := by exact_mod_cast significand_lt
  have hpower : (2 : ℚ) ^ x.scale ≤ 2 ^ (-1 : Int) :=
    zpow_le_zpow_right₀ (by norm_num) (by omega)
  calc (x.shortest tie).value ≤ x.upper := hshortest.readsBack.le_upper
    _ ≤ 2 ^ 53 * 2 ^ (-1 : Int) := by
        unfold upper
        gcongr
        linarith
    _ < 10 ^ (15 + 1 : Int) := by norm_num

end Double

end FilterQuery
