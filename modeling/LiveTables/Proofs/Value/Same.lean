import LiveTables.Value.Basic

/-!
# Values that are the same

`Value.same` identifies decimals that denote one number. `Value.canonical` picks one value of every
class, so that sameness is equality of canonical values (`Value.same_iff`) and hence an equivalence.
-/

namespace LiveTables.Value

/-- The value that stands for all values that are the same: a decimal is reduced, any other value is
itself. -/
def canonical : Value → Value
  | decimal d => decimal d.normalize
  | v => v

/-- Two values are the same exactly when one value stands for both. -/
theorem same_iff {a b : Value} : a.same b = true ↔ a.canonical = b.canonical := by
  cases a <;> cases b <;> simp [same, canonical, Decimal.same]

@[simp] theorem same_refl (v : Value) : v.same v = true := same_iff.2 rfl

theorem same_comm (a b : Value) : a.same b = b.same a := by
  rw [Bool.eq_iff_iff, same_iff, same_iff]
  exact eq_comm

/-- Values that are the same have one kind. -/
theorem kind_eq_of_same {a b : Value} (h : a.same b = true) : a.kind = b.kind := by
  cases a <;> cases b <;> simp_all [same, kind]

end LiveTables.Value
