import FilterQuery.Number.Layout
import Mathlib.Algebra.Order.Field.Power
import Mathlib.Data.Rat.Cast.Order
import Mathlib.Tactic.FieldSimp
import Mathlib.Tactic.Linarith
import Mathlib.Tactic.Positivity
import Mathlib.Tactic.Ring

/-!
# Decimals around a double

A number **reads back** as a double if it lies between the middles to the next doubles, or is such a
middle and the significand is even (`Double.ReadsBack`). The decimals with the last digit at the
power `10 ^ j` are the points of a **grid**, the multiples of that power. To print a double is to
find a point that reads back, on a grid as coarse as possible.

* **Whole numbers.** The search compares whole numbers only: a power of two and a power of ten are
  multiplied out of all that is compared (`Double.measure`). Each of its comparisons is restated
  here as one of rational numbers.
* **One grid.** The search looks at the two grid points around the double. If neither of them reads
  back, no point of the grid does (`Double.not_readsBack_of_onGrid?_eq_none`), since a point further
  away is beyond one of them. Otherwise what is found is a nearest of the points that do
  (`Double.abs_size_sub_le_of_onGrid?_eq_some`).
* **Ties.** If both points read back and the double is half-way between them, a rule chooses. The
  two rules find different points only if the smaller one is even (`Double.onGrid?_of_middle`,
  `Double.exists_middle_of_onGrid?_ne`).
-/

namespace FilterQuery

namespace Double

variable {x : Double} {tie : Tie} {j : Int} {n q : Nat}

/-! ### Numbers that read back -/

/-- The size of a finite double. -/
def size (x : Double) : ℚ := x.significand * 2 ^ x.scale

/-- The double is a whole number. -/
def IsWhole (x : Double) : Prop := ∃ k : ℕ, x.size = k

/-- The number half-way to the next smaller double. -/
def lower (x : Double) : ℚ := (x.significand - if x.atBinade then 1 / 4 else 1 / 2) * 2 ^ x.scale

/-- The number half-way to the next greater double. -/
def upper (x : Double) : ℚ := (x.significand + 1 / 2) * 2 ^ x.scale

/-- The number is nearest to the size of the double among the sizes of all doubles. Half-way to the
next one, a tie goes to the even significand. -/
def ReadsBack (x : Double) (r : ℚ) : Prop :=
  if x.significand % 2 = 0 then x.lower ≤ r ∧ r ≤ x.upper else x.lower < r ∧ r < x.upper

/-- What reads back is at most the middle above. -/
theorem ReadsBack.le_upper {r : ℚ} (h : x.ReadsBack r) : r ≤ x.upper := by
  unfold ReadsBack at h
  split at h
  · exact h.2
  · exact h.2.le

/-- What reads back is at least the middle below. -/
theorem ReadsBack.lower_le {r : ℚ} (h : x.ReadsBack r) : x.lower ≤ r := by
  unfold ReadsBack at h
  split at h
  · exact h.1
  · exact h.1.le

/-- The numbers that read back are an interval. -/
theorem ReadsBack.of_between {r s t : ℚ} (hr : x.ReadsBack r) (ht : x.ReadsBack t) (hrs : r ≤ s)
    (hst : s ≤ t) : x.ReadsBack s := by
  unfold ReadsBack at *
  split_ifs at * with heven
  · exact ⟨hr.1.trans hrs, hst.trans ht.2⟩
  · exact ⟨hr.1.trans_le hrs, hst.trans_lt ht.2⟩

/-- Between the middles everything reads back. -/
theorem readsBack_of_lt {r : ℚ} (hlower : x.lower < r) (hupper : r < x.upper) : x.ReadsBack r := by
  unfold ReadsBack
  split
  · exact ⟨hlower.le, hupper.le⟩
  · exact ⟨hlower, hupper⟩

theorem lower_lt_size : x.lower < x.size := by
  have hscale : (0 : ℚ) < 2 ^ x.scale := by positivity
  rw [lower, size]
  split <;> linarith

theorem size_lt_upper : x.size < x.upper := by
  have hscale : (0 : ℚ) < 2 ^ x.scale := by positivity
  rw [upper, size]
  linarith

theorem readsBack_size : x.ReadsBack x.size := readsBack_of_lt lower_lt_size size_lt_upper

/-- The next smaller double is not farther away than the next greater one. -/
theorem size_sub_lower_le : x.size - x.lower ≤ x.upper - x.size := by
  have hscale : (0 : ℚ) < 2 ^ x.scale := by positivity
  rw [size, lower, upper]
  split <;> linarith

/-- Zero reads back as nothing but zero. -/
theorem ReadsBack.pos {r : ℚ} (hx : 0 < x.significand) (h : x.ReadsBack r) : 0 < r := by
  have hone : (1 : ℚ) ≤ x.significand := by exact_mod_cast hx
  have hlower : 0 < x.lower := by
    refine mul_pos ?_ (by positivity)
    split <;> linarith
  exact hlower.trans_le h.lower_le

/-!
### Whole numbers in place of fractions

The search computes with natural numbers only. Each of its comparisons is one of rational numbers,
both multiplied by the same measure; here these comparisons are turned back into rational ones, in
which the rest is proved.
-/

/-- A power with an exponent of any sign, cleared of its denominator. -/
theorem zpow_mul_pow_toNat_neg {a : ℚ} (ha : a ≠ 0) (z : Int) :
    a ^ z * a ^ (-z).toNat = a ^ z.toNat := by
  rw [← zpow_natCast, ← zpow_natCast, ← zpow_add₀ ha]
  congr 1
  omega

/-- What the multiples of `10 ^ j` and the quarters of the last place are both multiplied by. -/
def measure (x : Double) (j : Int) : Nat := 10 ^ (-j).toNat * 2 ^ (-(x.scale - 2)).toNat

/-- The number `10 ^ j` in the measure. -/
def gridUnit (x : Double) (j : Int) : Nat := 10 ^ j.toNat * 2 ^ (-(x.scale - 2)).toNat

/-- A quarter of the last place in the measure. -/
def quarterUnit (x : Double) (j : Int) : Nat := 2 ^ (x.scale - 2).toNat * 10 ^ (-j).toNat

theorem measure_pos : 0 < (x.measure j : ℚ) := by
  unfold measure
  positivity

/-- The distance of grid points in whole numbers. -/
theorem cast_gridUnit : (x.gridUnit j : ℚ) = 10 ^ j * x.measure j := by
  unfold gridUnit measure
  push_cast
  rw [← zpow_mul_pow_toNat_neg (by norm_num : (10 : ℚ) ≠ 0) j]
  ring

/-- A quarter of the distance of doubles in whole numbers. -/
theorem cast_quarterUnit : (x.quarterUnit j : ℚ) = 2 ^ x.scale / 4 * x.measure j := by
  have hquarter : (2 : ℚ) ^ x.scale / 4 = 2 ^ (x.scale - 2) := by
    rw [zpow_sub₀ (by norm_num)]
    norm_num
  unfold quarterUnit measure
  push_cast
  rw [hquarter, ← zpow_mul_pow_toNat_neg (by norm_num : (2 : ℚ) ≠ 0) (x.scale - 2)]
  ring

/-- A multiple of quarters is compared with a grid point in whole numbers. -/
theorem mul_quarterUnit_le_iff :
    q * x.quarterUnit j ≤ n * x.gridUnit j ↔ (q / 4 : ℚ) * 2 ^ x.scale ≤ n * 10 ^ j := by
  rw [← Nat.cast_le (α := ℚ), Nat.cast_mul, Nat.cast_mul, cast_gridUnit, cast_quarterUnit,
    ← mul_assoc, ← mul_assoc, mul_le_mul_iff_left₀ measure_pos]
  ring_nf

/-- A grid point is compared with a multiple of quarters in whole numbers. -/
theorem mul_gridUnit_le_iff :
    n * x.gridUnit j ≤ q * x.quarterUnit j ↔ n * 10 ^ j ≤ (q / 4 : ℚ) * 2 ^ x.scale := by
  rw [← Nat.cast_le (α := ℚ), Nat.cast_mul, Nat.cast_mul, cast_gridUnit, cast_quarterUnit,
    ← mul_assoc, ← mul_assoc, mul_le_mul_iff_left₀ measure_pos]
  ring_nf

/-- The multiplier of `10 ^ j` for the grid point at the double or next below it. -/
def below (x : Double) (j : Int) : Nat := 4 * x.significand * x.quarterUnit j / x.gridUnit j

/-- The test that the search makes on the multiples of `10 ^ j`. -/
def hits (x : Double) (j : Int) (n : Nat) : Bool :=
  let low := (4 * x.significand - if x.atBinade then 1 else 2) * x.quarterUnit j
  let high := (4 * x.significand + 2) * x.quarterUnit j
  if x.significand % 2 == 0 then low ≤ n * x.gridUnit j && n * x.gridUnit j ≤ high
  else low < n * x.gridUnit j && n * x.gridUnit j < high

/-- What a rule for ties says about a multiple of `10 ^ j` and the next one. -/
def goesUp (x : Double) (tie : Tie) (j : Int) (n : Nat) : Bool :=
  tie.takesGreater (4 * x.significand * x.quarterUnit j) (x.gridUnit j) n

theorem onGrid?_eq : x.onGrid? tie j =
    match x.hits j (x.below j), x.hits j (x.below j + 1) with
    | true, true =>
      some (if x.goesUp tie j (x.below j) then x.below j + 1 else x.below j)
    | true, false => some (x.below j)
    | false, true => some (x.below j + 1)
    | false, false => none := rfl

/-- The check of a grid point is whether it reads back. -/
theorem hits_iff (hx : 0 < x.significand) : x.hits j n = true ↔ x.ReadsBack (n * 10 ^ j) := by
  have hlower : x.lower = ((4 * x.significand - if x.atBinade then 1 else 2 : ℕ) / 4 : ℚ) *
      2 ^ x.scale := by
    rw [Nat.cast_sub (by split <;> omega), lower]
    split <;> push_cast <;> ring
  have hupper : x.upper = ((4 * x.significand + 2 : ℕ) / 4 : ℚ) * 2 ^ x.scale := by
    rw [upper]
    push_cast
    ring
  rw [hits, ReadsBack, hlower, hupper]
  simp only [beq_iff_eq, ← mul_quarterUnit_le_iff, ← mul_gridUnit_le_iff, ← not_le]
  split <;> simp

theorem size_eq_quarters : x.size = ((4 * x.significand : ℕ) / 4 : ℚ) * 2 ^ x.scale := by
  rw [size]
  push_cast
  ring

theorem below_mul_le : (x.below j : ℚ) * 10 ^ j ≤ x.size := by
  rw [size_eq_quarters, ← mul_gridUnit_le_iff]
  exact Nat.div_mul_le_self _ _

/-- The next point is greater than the double. -/
theorem size_lt_below_succ_mul : x.size < (x.below j + 1 : ℚ) * 10 ^ j := by
  have hpos : 0 < x.gridUnit j := by
    unfold gridUnit
    positivity
  have h : ¬(x.below j + 1) * x.gridUnit j ≤ 4 * x.significand * x.quarterUnit j := by
    rw [Nat.not_le, Nat.mul_comm (x.below j + 1)]
    exact Nat.lt_mul_div_succ _ hpos
  rw [mul_gridUnit_le_iff, ← size_eq_quarters, not_le] at h
  exact_mod_cast h

/-- The grid points around the double are next to each other. -/
theorem below_eq (hlow : (n : ℚ) * 10 ^ j ≤ x.size) (hhigh : x.size < (n + 1) * 10 ^ j) :
    x.below j = n := by
  have hgrid : (0 : ℚ) < 10 ^ j := by positivity
  have hless := lt_of_mul_lt_mul_right (below_mul_le.trans_lt hhigh) hgrid.le
  have hgreater := lt_of_mul_lt_mul_right (hlow.trans_lt size_lt_below_succ_mul) hgrid.le
  norm_cast at hless hgreater
  omega

/-! ### Rules for ties -/

/-- The middle between two multiples of `10 ^ j`, as the tie rules compare it to the double. -/
theorem middle_le_iff : (2 * n + 1) * x.gridUnit j ≤ 2 * (4 * x.significand * x.quarterUnit j) ↔
    (n + 1 / 2 : ℚ) * 10 ^ j ≤ x.size := by
  rw [← Nat.mul_assoc, ← Nat.mul_assoc, mul_gridUnit_le_iff, size]
  push_cast
  constructor <;> intro h <;> linarith

/-- The double is compared with the middle of two points in whole numbers. -/
theorem le_middle_iff : 2 * (4 * x.significand * x.quarterUnit j) ≤ (2 * n + 1) * x.gridUnit j ↔
    x.size ≤ (n + 1 / 2 : ℚ) * 10 ^ j := by
  rw [← Nat.mul_assoc, ← Nat.mul_assoc, mul_quarterUnit_le_iff, size]
  push_cast
  constructor <;> intro h <;> linarith

/-- The first rule goes up from the middle on. -/
theorem goesUp_up_iff : x.goesUp .up j n = true ↔ (n + 1 / 2 : ℚ) * 10 ^ j ≤ x.size := by
  rw [← middle_le_iff]
  exact decide_eq_true_iff

/-- The second rule goes up behind the middle, and in the middle if the point below is odd. -/
theorem goesUp_toEven_iff :
    x.goesUp .toEven j n = true ↔
      (n + 1 / 2 : ℚ) * 10 ^ j < x.size ∨ (n + 1 / 2 : ℚ) * 10 ^ j = x.size ∧ n % 2 = 1 := by
  rw [lt_iff_not_ge, le_antisymm_iff (b := x.size), ← middle_le_iff, ← le_middle_iff,
    goesUp, Tie.takesGreater]
  simp only [Bool.or_eq_true, Bool.and_eq_true, decide_eq_true_eq, beq_iff_eq]
  omega

/-- What a rule for ties takes is not the farther one of the two multiples. -/
theorem middle_le_of_goesUp (h : x.goesUp tie j n = true) :
    (n + 1 / 2 : ℚ) * 10 ^ j ≤ x.size := by
  cases tie with
  | up => exact goesUp_up_iff.mp h
  | toEven => exact (goesUp_toEven_iff.mp h).elim le_of_lt fun h => h.1.le

theorem le_middle_of_not_goesUp (h : ¬x.goesUp tie j n = true) :
    x.size ≤ (n + 1 / 2 : ℚ) * 10 ^ j := by
  cases tie with
  | up => exact (not_le.mp (mt goesUp_up_iff.mpr h)).le
  | toEven => exact not_lt.mp fun hlt => h (goesUp_toEven_iff.mpr (.inl hlt))

/-- The rules differ only half-way between two numbers of which the smaller one is even. -/
theorem middle_of_goesUp_ne (h : x.goesUp .up j n ≠ x.goesUp .toEven j n) :
    n % 2 = 0 ∧ x.size = (n + 1 / 2) * 10 ^ j := by
  rw [Ne, Bool.eq_iff_iff, goesUp_up_iff, goesUp_toEven_iff] at h
  rcases lt_trichotomy ((n + 1 / 2 : ℚ) * 10 ^ j) x.size with hlow | hmiddle | hhigh
  · exact absurd (iff_of_true hlow.le (.inl hlow)) h
  · refine ⟨?_, hmiddle.symm⟩
    by_contra hodd
    exact h (iff_of_true hmiddle.le (.inr ⟨hmiddle, by omega⟩))
  · refine absurd (iff_of_false hhigh.not_ge ?_) h
    rintro (hlow | ⟨hmiddle, -⟩)
    · exact hlow.not_gt hhigh
    · exact hhigh.ne' hmiddle

/-! ### What is found in one grid -/

/-- Something is found if one of the two grid points around the double reads back. -/
theorem isSome_onGrid?_iff : (x.onGrid? tie j).isSome = true ↔
    x.hits j (x.below j) = true ∨ x.hits j (x.below j + 1) = true := by
  rw [onGrid?_eq]
  split <;> simp_all

/-- The rules for ties find something in the same grids. -/
theorem isSome_onGrid?_eq (tie tie' : Tie) :
    (x.onGrid? tie j).isSome = (x.onGrid? tie' j).isSome := by
  rw [Bool.eq_iff_iff, isSome_onGrid?_iff, isSome_onGrid?_iff]

/-- Of a grid in which nothing is found, no point at all reads back. -/
theorem not_readsBack_of_onGrid?_eq_none (hx : 0 < x.significand) (h : x.onGrid? tie j = none)
    (n : Nat) : ¬x.ReadsBack (n * 10 ^ j) := by
  have hgrid : (0 : ℚ) < 10 ^ j := by positivity
  have hnone := isSome_onGrid?_iff.not.mp (Option.not_isSome_iff_eq_none.mpr h)
  rw [hits_iff hx, hits_iff hx, not_or] at hnone
  intro hn
  rcases Nat.lt_or_ge (x.below j) n with hlt | hle
  · refine hnone.2 (readsBack_size.of_between hn ?_ ?_)
    · exact_mod_cast size_lt_below_succ_mul.le
    · exact mul_le_mul_of_nonneg_right (by exact_mod_cast hlt) hgrid.le
  · refine hnone.1 (hn.of_between readsBack_size ?_ below_mul_le)
    exact mul_le_mul_of_nonneg_right (by exact_mod_cast hle) hgrid.le

/-- What is found reads back and is one of the points around the double. -/
theorem hits_of_onGrid?_eq_some (h : x.onGrid? tie j = some n) :
    x.hits j n = true ∧ (n = x.below j ∨ n = x.below j + 1) := by
  rw [onGrid?_eq] at h
  split at h
  · split at h <;> cases h
    · exact ⟨‹_›, .inr rfl⟩
    · exact ⟨‹_›, .inl rfl⟩
  · cases h
    exact ⟨‹_›, .inl rfl⟩
  · cases h
    exact ⟨‹_›, .inr rfl⟩
  · cases h

/-- What is found reads back, and the next greater multiple is beyond the double. -/
theorem of_onGrid?_eq_some (hx : 0 < x.significand) (h : x.onGrid? tie j = some n) :
    x.ReadsBack (n * 10 ^ j) ∧ x.size < (n + 1) * 10 ^ j := by
  have hgrid : (0 : ℚ) < 10 ^ j := by positivity
  have hsize := x.size_lt_below_succ_mul (j := j)
  obtain ⟨hhits, hcases⟩ := hits_of_onGrid?_eq_some h
  refine ⟨(hits_iff hx).mp hhits, ?_⟩
  rcases hcases with rfl | rfl
  · exact hsize
  · push_cast
    linarith

/-- If both grid points around the double read back, the rule for ties is asked. -/
theorem onGrid?_of_hits (hbelow : x.hits j (x.below j) = true)
    (hsucc : x.hits j (x.below j + 1) = true) : x.onGrid? tie j =
      some (if x.goesUp tie j (x.below j) then x.below j + 1 else x.below j) := by
  rw [onGrid?_eq, hbelow, hsucc]

/-- If the point above is found and the one below reads back, the double is not below the middle. -/
theorem middle_le_of_onGrid?_eq (hhits : x.hits j (x.below j) = true)
    (h : x.onGrid? tie j = some (x.below j + 1)) : (x.below j + 1 / 2 : ℚ) * 10 ^ j ≤ x.size := by
  rw [onGrid?_of_hits hhits (hits_of_onGrid?_eq_some h).1, Option.some.injEq] at h
  split at h
  · next htie => exact middle_le_of_goesUp htie
  · exact absurd h (Nat.succ_ne_self _).symm

/-- If the point below is found and the one above reads back, the double is not above the middle. -/
theorem le_middle_of_onGrid?_eq (hhits : x.hits j (x.below j + 1) = true)
    (h : x.onGrid? tie j = some (x.below j)) : x.size ≤ (x.below j + 1 / 2 : ℚ) * 10 ^ j := by
  rw [onGrid?_of_hits (hits_of_onGrid?_eq_some h).1 hhits, Option.some.injEq] at h
  split at h
  · exact absurd h (Nat.succ_ne_self _)
  · next htie => exact le_middle_of_not_goesUp htie

/-- No grid point that reads back is nearer than what is found. -/
theorem abs_size_sub_le_of_onGrid?_eq_some (hx : 0 < x.significand) (h : x.onGrid? tie j = some n)
    {m : Nat} (hm : x.ReadsBack (m * 10 ^ j)) : |x.size - n * 10 ^ j| ≤ |x.size - m * 10 ^ j| := by
  have hgrid : (0 : ℚ) < 10 ^ j := by positivity
  have hlow := below_mul_le (x := x) (j := j)
  have hhigh := size_lt_below_succ_mul (x := x) (j := j)
  have hcases := (hits_of_onGrid?_eq_some h).2
  rcases Nat.lt_or_ge (x.below j) m with hlt | hle
  · -- above the double, no grid point that reads back is nearer than the next one
    have hnext : (x.below j + 1 : ℚ) * 10 ^ j ≤ m * 10 ^ j :=
      mul_le_mul_of_nonneg_right (by exact_mod_cast hlt) hgrid.le
    have hhits : x.hits j (x.below j + 1) = true := by
      rw [hits_iff hx, Nat.cast_succ]
      exact readsBack_size.of_between hm hhigh.le hnext
    rw [abs_sub_comm x.size (m * 10 ^ j), abs_of_pos (sub_pos.mpr (hhigh.trans_le hnext))]
    rcases hcases with rfl | rfl
    · have hmiddle := le_middle_of_onGrid?_eq hhits h
      rw [abs_of_nonneg (sub_nonneg.mpr hlow)]
      linarith
    · rw [Nat.cast_succ, abs_sub_comm, abs_of_pos (sub_pos.mpr hhigh)]
      linarith
  · -- below the double it is the grid point in front of it, by the same argument
    have hnext : (m : ℚ) * 10 ^ j ≤ x.below j * 10 ^ j :=
      mul_le_mul_of_nonneg_right (by exact_mod_cast hle) hgrid.le
    have hhits : x.hits j (x.below j) = true := by
      rw [hits_iff hx]
      exact hm.of_between readsBack_size hnext hlow
    rw [abs_of_nonneg (sub_nonneg.mpr (hnext.trans hlow))]
    rcases hcases with rfl | rfl
    · rw [abs_of_nonneg (sub_nonneg.mpr hlow)]
      linarith
    · have hmiddle := middle_le_of_onGrid?_eq hhits h
      rw [Nat.cast_succ, abs_sub_comm, abs_of_pos (sub_pos.mpr hhigh)]
      linarith

/-!
### Ties

The two rules agree unless the double is half-way between the two grid points around it, and even
then unless the smaller point is even.
-/

/-- If the double is half-way between two multiples of `10 ^ j` and the smaller one reads back, then
so does the greater one. -/
theorem readsBack_succ_of_middle (hmiddle : x.size = (n + 1 / 2) * 10 ^ j)
    (h : x.ReadsBack (n * 10 ^ j)) : x.ReadsBack ((n + 1) * 10 ^ j) := by
  have hgrid : (0 : ℚ) < 10 ^ j := by positivity
  have hwidth := x.size_sub_lower_le
  have hless := x.lower_lt_size
  have hgreater : (n + 1 : ℚ) * 10 ^ j - x.size = x.size - n * 10 ^ j := by
    rw [hmiddle]
    ring
  unfold ReadsBack at h ⊢
  split_ifs at h ⊢ with heven
  · exact ⟨by linarith, by linarith⟩
  · exact ⟨by linarith, by linarith⟩

/-- Half-way between two multiples, of which the smaller one is even, each of the two rules finds
the one that it is for. -/
theorem onGrid?_of_middle (hx : 0 < x.significand) (heven : n % 2 = 0)
    (hreads : x.ReadsBack (n * 10 ^ j)) (hmiddle : x.size = (n + 1 / 2) * 10 ^ j) :
    x.onGrid? .up j = some (n + 1) ∧ x.onGrid? .toEven j = some n := by
  have hgrid : (0 : ℚ) < 10 ^ j := by positivity
  obtain rfl : x.below j = n := below_eq (by linarith) (by linarith)
  have hhits : x.hits j (x.below j) = true := (hits_iff hx).mpr hreads
  have hsucc : x.hits j (x.below j + 1) = true := by
    rw [hits_iff hx, Nat.cast_succ]
    exact readsBack_succ_of_middle hmiddle hreads
  rw [onGrid?_of_hits hhits hsucc, onGrid?_of_hits hhits hsucc, Option.some.injEq,
    Option.some.injEq]
  refine ⟨if_pos (goesUp_up_iff.mpr hmiddle.ge), if_neg ?_⟩
  rw [goesUp_toEven_iff, not_or, not_and]
  exact ⟨hmiddle.not_gt, fun _ => by omega⟩

/-- The rules find different multiples only there. -/
theorem exists_middle_of_onGrid?_ne (hx : 0 < x.significand)
    (h : x.onGrid? .up j ≠ x.onGrid? .toEven j) :
    ∃ n : ℕ, n % 2 = 0 ∧ x.ReadsBack (n * 10 ^ j) ∧ x.size = (n + 1 / 2) * 10 ^ j := by
  rw [onGrid?_eq, onGrid?_eq] at h
  split at h
  · next hhits _ =>
    obtain ⟨heven, hmiddle⟩ := middle_of_goesUp_ne fun hsame => h (by rw [hsame])
    exact ⟨x.below j, heven, (hits_iff hx).mp hhits, hmiddle⟩
  all_goals exact absurd rfl h

end Double

end FilterQuery
