import LiveTables.Error
import LiveTables.Ieee.Format

/-!
# Decimals

A decimal is a mantissa of 128 bits and a scale of at most 28, and denotes `mantissa / 10 ^ scale`.
Two decimals are the same number exactly when their reduced forms agree (`Decimal.same`). They are
compared as numbers whenever both can be brought to one scale; where that would leave the range of a
mantissa, their nearest double-precision words are compared instead.
-/

namespace LiveTables

/-- An integer of 128 bits in two's complement. -/
abbrev Mantissa := { m : Int // -2 ^ 127 ≤ m ∧ m < 2 ^ 127 }

/-- The integer as a mantissa, if it is in range. -/
def Mantissa.ofInt? (m : Int) : Option Mantissa :=
  if h : -2 ^ 127 ≤ m ∧ m < 2 ^ 127 then some ⟨m, h⟩ else none

/-- The number `mantissa / 10 ^ scale`. -/
structure Decimal where
  mantissa : Mantissa
  scale : Nat
  scale_le : scale ≤ 28
  deriving DecidableEq

namespace Decimal

/-- A decimal is its mantissa and its scale. -/
theorem eq_iff {a b : Decimal} : a = b ↔ a.mantissa.val = b.mantissa.val ∧ a.scale = b.scale := by
  rcases a with ⟨m, s, _⟩
  rcases b with ⟨m', s', _⟩
  simp only [mk.injEq, Subtype.ext_iff]

/-- The decimal of a mantissa and a scale. -/
def ofMantissa (mantissa : Mantissa) (scale : Nat) : Except TableError Decimal :=
  if h : scale ≤ 28 then .ok ⟨mantissa, scale, h⟩ else .error (.invalidOperation .scaleTooLarge)

/-- Zero, without fractional digits. -/
def zero : Decimal := ⟨⟨0, by decide⟩, 0, by decide⟩

/-- An integer as a decimal without fractional digits. -/
def ofInt64 (n : Int64) : Decimal :=
  ⟨⟨n.toInt, by have := n.le_toInt; have := n.toInt_lt; omega⟩, 0, by decide⟩

/-- Drops fractional zeros: divides by ten while that is exact and the scale allows it. -/
def reduce (m : Int) : Nat → Int × Nat
  | 0 => (m, 0)
  | s + 1 => if m % 10 = 0 then reduce (m / 10) s else (m, s + 1)

/-- Reducing brings a mantissa no further from zero and raises no scale. -/
theorem reduce_bounds {lo hi m : Int} {s : Nat} (hlo : lo ≤ m) (hhi : m < hi) (h₀ : lo ≤ 0)
    (h₁ : 0 < hi) : lo ≤ (reduce m s).1 ∧ (reduce m s).1 < hi ∧ (reduce m s).2 ≤ s := by
  induction s generalizing m with
  | zero => exact ⟨hlo, hhi, Nat.le_refl 0⟩
  | succ s ih =>
    simp only [reduce]
    split
    · have := @ih (m / 10) (by omega) (by omega)
      omega
    · exact ⟨hlo, hhi, Nat.le_refl _⟩

/-- The same number with the smallest scale. -/
def normalize (d : Decimal) : Decimal :=
  have h := reduce_bounds (s := d.scale) d.mantissa.2.1 d.mantissa.2.2 (by decide) (by decide)
  { mantissa := ⟨(reduce d.mantissa d.scale).1, h.1, h.2.1⟩
    scale := (reduce d.mantissa d.scale).2
    scale_le := Nat.le_trans h.2.2 d.scale_le }

/-- Whether two decimals are the same number. -/
def same (a b : Decimal) : Bool := a.normalize = b.normalize

/-- The mantissa at a scale that is not smaller, if it stays in range. -/
def rescale? (d : Decimal) (scale : Nat) : Option Mantissa :=
  Mantissa.ofInt? (d.mantissa * 10 ^ (scale - d.scale))

/-- The double-precision word of `10 ^ n`, multiplied up in double precision. -/
def tenPower : Nat → Nat
  | 0 => Ieee.binary64.ofInt 1
  | n + 1 =>
    let (_, num, den) := Ieee.binary64.toRatio (tenPower n)
    Ieee.binary64.ofRatio false (10 * num) den

/-- The double-precision word near a decimal: mantissa and power of ten are rounded, then their
quotient is. -/
def toFloat64 (d : Decimal) : Nat :=
  let (negative, num, den) := Ieee.binary64.toRatio (Ieee.binary64.ofInt d.mantissa)
  let (_, num', den') := Ieee.binary64.toRatio (tenPower d.scale)
  Ieee.binary64.ofRatio negative (num * den') (den * num')

/-- Compares two decimals at their common scale, or else by their double-precision words. -/
def cmp (a b : Decimal) : Ordering :=
  let scale := max a.scale b.scale
  match a.rescale? scale, b.rescale? scale with
  | some x, some y => compare x.val y.val
  | _, _ => compare (Ieee.binary64.orderKey a.toFloat64) (Ieee.binary64.orderKey b.toFloat64)

end Decimal

end LiveTables
