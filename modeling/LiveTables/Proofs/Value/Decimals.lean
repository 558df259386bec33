import LiveTables.Decimal.Basic
import Mathlib.Tactic.SplitIfs

/-!
# Decimals as numbers

A decimal denotes a rational number (`Decimal.number`), which is a whole number of units of the last fractional digit
that a decimal can have (`Decimal.units`). Two decimals are the same exactly when their numbers are
equal (`Decimal.same_iff_units`), and they are compared as their numbers, if both mantissas stay in range at the
common scale (`Decimal.cmp_of_comparable`). This is so for decimals that are the same, and for all numbers that are not
too great.
-/

namespace LiveTables.Decimal

variable {a b d : Decimal} {m m' : Int} {k n s s' : Nat} {x : Mantissa}

/-- The number that a decimal denotes. -/
def number (d : Decimal) : Rat := d.mantissa.val / 10 ^ d.scale

/-- The number that a decimal denotes, in units of the twenty-eighth fractional digit. -/
def units (d : Decimal) : Int := d.mantissa.val * 10 ^ (28 - d.scale)

theorem pow_pos (n : Nat) : (0 : Int) < 10 ^ n := Int.pow_pos (by decide)

theorem pow_mul_pow (h : n + k = s) : (10 : Int) ^ n * 10 ^ k = 10 ^ s := by
  rw [← Int.pow_add, h]

theorem mul_pow_inj : m * 10 ^ k = m' * 10 ^ k ↔ m = m' := Int.mul_eq_mul_right_iff (Int.ne_of_gt (pow_pos k))

/-! ## Sameness -/

theorem units_reduce (m : Int) (hs : s ≤ 28) : (reduce m s).1 * 10 ^ (28 - (reduce m s).2) = m * 10 ^ (28 - s) := by
  induction s generalizing m with
  | zero => rfl
  | succ s ih =>
    unfold reduce
    split
    · rename_i hzero
      have hm : m / 10 * 10 = m := by omega
      rw [ih (m / 10) (by omega), ← pow_mul_pow (show 1 + (28 - (s + 1)) = 28 - s by omega), ← Int.mul_assoc,
        Int.pow_one, hm]
    · rfl

theorem units_normalize (d : Decimal) : d.normalize.units = d.units := units_reduce d.mantissa d.scale_le

/-- A reduced mantissa cannot be reduced further. -/
theorem reduce_reduced (m : Int) (s : Nat) : (reduce m s).2 = 0 ∨ (reduce m s).1 % 10 ≠ 0 := by
  induction s generalizing m with
  | zero => exact .inl rfl
  | succ s ih =>
    unfold reduce
    split
    · exact ih (m / 10)
    · rename_i hne
      exact .inr hne

/-- A number is at one scale only reduced. -/
theorem eq_of_reduced (hle : s ≤ s') (hs : s' ≤ 28) (hreduced : s' = 0 ∨ m' % 10 ≠ 0)
    (h : m * 10 ^ (28 - s) = m' * 10 ^ (28 - s')) : m = m' ∧ s = s' := by
  rw [← pow_mul_pow (show s' - s + (28 - s') = 28 - s by omega), ← Int.mul_assoc, mul_pow_inj] at h
  rcases Nat.eq_or_lt_of_le hle with rfl | hlt
  · rw [Nat.sub_self, Int.pow_zero, Int.mul_one] at h
    exact ⟨h, rfl⟩
  · have hzero : m' % 10 = 0 := by
      rw [← h, ← pow_mul_pow (show s' - s - 1 + 1 = s' - s by omega), ← Int.mul_assoc, Int.pow_one]
      exact Int.mul_emod_left _ _
    omega

/-- Decimals are the same just when they denote the same number. -/
theorem same_iff_units : a.same b = true ↔ a.units = b.units := by
  unfold same
  rw [decide_eq_true_iff]
  constructor
  · intro h
    rw [← units_normalize a, h, units_normalize]
  · intro h
    rw [← units_normalize a, ← units_normalize b] at h
    rcases Nat.le_total a.normalize.scale b.normalize.scale with hle | hle
    · exact eq_iff.2 (eq_of_reduced hle b.normalize.scale_le (reduce_reduced b.mantissa b.scale) h)
    · exact (eq_iff.2 (eq_of_reduced hle a.normalize.scale_le (reduce_reduced a.mantissa a.scale) h.symm)).symm

/-! ## Order -/

/-- Both mantissas stay in range at the common scale. -/
def Comparable (a b : Decimal) : Prop :=
  (a.rescale? (max a.scale b.scale)).isSome = true ∧ (b.rescale? (max a.scale b.scale)).isSome = true

instance : Decidable (Comparable a b) := inferInstanceAs (Decidable (_ ∧ _))

theorem ofInt?_eq_some : Mantissa.ofInt? m = some x ↔ x.val = m := by
  unfold Mantissa.ofInt?
  split_ifs with h
  · rw [Option.some_inj, eq_comm, Subtype.ext_iff]
  · exact ⟨nofun, fun hx => absurd (hx ▸ x.2) h⟩

/-- The mantissa at a scale counts the number in units of it. -/
theorem units_of_rescale? (hle : d.scale ≤ s) (hs : s ≤ 28) (h : d.rescale? s = some x) :
    d.units = x.val * 10 ^ (28 - s) := by
  rw [ofInt?_eq_some.mp h, Int.mul_assoc, pow_mul_pow (show s - d.scale + (28 - s) = 28 - d.scale by omega)]
  rfl

theorem rescale?_self (d : Decimal) : d.rescale? d.scale = some d.mantissa := by
  unfold rescale?
  rw [ofInt?_eq_some, Nat.sub_self, Int.pow_zero, Int.mul_one]

theorem Comparable.symm (h : Comparable a b) : Comparable b a := by
  unfold Comparable at *
  rw [Nat.max_comm]
  exact h.symm

theorem max_scale_le (a b : Decimal) : max a.scale b.scale ≤ 28 := Nat.max_le.mpr ⟨a.scale_le, b.scale_le⟩

/-- Numbers stand in one order, whatever the unit is. -/
theorem compare_mul_pow (m m' : Int) (k : Nat) : compare (m * 10 ^ k) (m' * 10 ^ k) = compare m m' := by
  show compareOfLessAndEq _ _ = compareOfLessAndEq _ _
  unfold compareOfLessAndEq
  simp only [Int.mul_lt_mul_right (pow_pos k), mul_pow_inj]

/-- Decimals that can be brought to one scale are compared as numbers. -/
theorem cmp_of_comparable (h : Comparable a b) : a.cmp b = compare a.units b.units := by
  obtain ⟨x, hx⟩ := Option.isSome_iff_exists.mp h.1
  obtain ⟨y, hy⟩ := Option.isSome_iff_exists.mp h.2
  have hs := max_scale_le a b
  rw [units_of_rescale? (Nat.le_max_left _ _) hs hx, units_of_rescale? (Nat.le_max_right _ _) hs hy, compare_mul_pow]
  unfold cmp
  simp only [hx, hy]

theorem number_mul (d : Decimal) : d.number * 10 ^ (28 : Nat) = (d.units : Rat) := by
  have hpow : (10 : Rat) ^ d.scale * 10 ^ (28 - d.scale) = 10 ^ 28 := by
    have h := congrArg (Int.cast : Int → Rat) (pow_mul_pow (Nat.add_sub_cancel' d.scale_le))
    rwa [Rat.intCast_mul, Rat.intCast_pow, Rat.intCast_pow, Rat.intCast_pow] at h
  have hne : (10 : Rat) ^ d.scale ≠ 0 := Rat.ne_of_gt (Rat.pow_pos (by decide))
  rw [← hpow, number, ← Rat.mul_assoc, Rat.div_mul_cancel hne, units, Rat.intCast_mul, Rat.intCast_pow]
  rfl

/-- A number is told by its units. -/
theorem number_eq_iff_units : a.number = b.number ↔ a.units = b.units := by
  have hne : (10 : Rat) ^ 28 ≠ 0 := Rat.ne_of_gt (Rat.pow_pos (by decide))
  constructor
  · intro h
    rw [← Rat.intCast_inj, ← number_mul, h, number_mul]
  · intro h
    rw [← Rat.mul_div_cancel (a := a.number) hne, number_mul, h, ← number_mul, Rat.mul_div_cancel hne]

/-- The units stand as the numbers do. -/
theorem compare_units (a b : Decimal) : compare a.units b.units = compareOfLessAndEq a.number b.number := by
  have hpos : (0 : Rat) < 10 ^ 28 := Rat.pow_pos (by decide)
  have hlt : a.number < b.number ↔ a.units < b.units := by
    rw [← Rat.mul_lt_mul_right hpos, number_mul, number_mul, Rat.intCast_lt_intCast]
  show compareOfLessAndEq _ _ = _
  unfold compareOfLessAndEq
  simp only [hlt, number_eq_iff_units]

/-- Decimals of one number can be brought to one scale, since the mantissa at the greater scale is there. -/
theorem comparable_of_units_eq (h : a.units = b.units) : Comparable a b := by
  have hof {a b : Decimal} (hle : a.scale ≤ b.scale) (h : a.units = b.units) : Comparable a b := by
    have hm : b.mantissa.val = a.mantissa.val * 10 ^ (b.scale - a.scale) := by
      unfold units at h
      have hb := b.scale_le
      rw [← pow_mul_pow (show b.scale - a.scale + (28 - b.scale) = 28 - a.scale by omega), ← Int.mul_assoc,
        mul_pow_inj] at h
      exact h.symm
    unfold Comparable
    rw [Nat.max_eq_right hle, rescale?_self, rescale?, ofInt?_eq_some.mpr hm]
    exact ⟨rfl, rfl⟩
  rcases Nat.le_total a.scale b.scale with hle | hle
  · exact hof hle h
  · exact (hof hle h.symm).symm

theorem cmp_swap (a b : Decimal) : b.cmp a = (a.cmp b).swap := by
  unfold cmp
  rw [Nat.max_comm]
  dsimp only
  generalize a.rescale? (max a.scale b.scale) = x
  generalize b.rescale? (max a.scale b.scale) = y
  cases x <;> cases y <;> exact Std.OrientedOrd.eq_swap

end LiveTables.Decimal
