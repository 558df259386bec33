import LiveTables.Proofs.Value.Decimals
import Mathlib.Order.Bounds.Basic

/-!
# Decimals in reduced form

Many decimals denote one number, at different scales. The reduced form is one of them, and the same one for all
(`Decimal.normalize_eq_iff`): it stands at the least scale at which the number can be written
(`Decimal.isLeast_scale_normalize`). So decimals are the same, which is that their reduced forms are equal, just when
they denote one number (`Decimal.same_iff_number`).
-/

namespace LiveTables.Decimal

variable {a b c : Decimal}

theorem same_iff_normalize : a.same b = true ↔ a.normalize = b.normalize := decide_eq_true_iff

/-- Decimals are the same just when they denote one number. -/
theorem same_iff_number : a.same b = true ↔ a.number = b.number := same_iff_units.trans number_eq_iff_units.symm

/-- The reduced form is the same for all decimals of one number. -/
theorem normalize_eq_iff : a.normalize = b.normalize ↔ a.number = b.number :=
  same_iff_normalize.symm.trans same_iff_number

/-- Reducing keeps the number. -/
theorem number_normalize (d : Decimal) : d.normalize.number = d.number := number_eq_iff_units.2 d.units_normalize

theorem normalize_normalize (d : Decimal) : d.normalize.normalize = d.normalize :=
  normalize_eq_iff.2 d.number_normalize

theorem scale_normalize_le (d : Decimal) : d.normalize.scale ≤ d.scale :=
  (reduce_bounds d.mantissa.2.1 d.mantissa.2.2 (by decide) (by decide)).2.2

/-- The reduced form stands at the least scale at which the number can be written. -/
theorem isLeast_scale_normalize (d : Decimal) :
    IsLeast {s | ∃ d' : Decimal, d'.number = d.number ∧ d'.scale = s} d.normalize.scale := by
  refine ⟨⟨d.normalize, d.number_normalize, rfl⟩, ?_⟩
  rintro s ⟨d', hnumber, rfl⟩
  rw [← normalize_eq_iff.2 hnumber]
  exact d'.scale_normalize_le

/-- Sameness is an equivalence, since it is equality of what is denoted. -/
theorem equivalence_same : Equivalence fun a b : Decimal => a.same b = true where
  refl _ := same_iff_number.2 rfl
  symm h := same_iff_number.2 (same_iff_number.1 h).symm
  trans h h' := same_iff_number.2 ((same_iff_number.1 h).trans (same_iff_number.1 h'))

end LiveTables.Decimal
