import LiveTables.Computed.Basic
import LiveTables.Value.Order
import LiveTables.Value.Text

/-!
# Formulas

Ready-made functions for computed columns.
-/

namespace LiveTables

/-- A function of the values of the dependencies. -/
inductive Formula where
  /-- The sum of the `int32` values, modulo `2 ^ 32`. -/
  | sumInt32
  /-- The sum of the values of integer kinds, modulo `2 ^ 64`. -/
  | sumInt64
  /-- The sum of the values of floating-point kinds, from the left, in double precision. -/
  | sumFloat64
  /-- The texts of the values, with bars between them. -/
  | concat
  /-- The first value; `false` if there is none. -/
  | first
  /-- The greatest value, the last among equals; `false` if there is none. -/
  | max
  /-- The number of values. -/
  | count
  /-- The same value always. -/
  | const (value : Value)

/-- Applies a formula. -/
def Formula.apply : Formula → List Value → Value
  | sumInt32, vs => .int32 ((vs.filterMap Value.int32?).foldl (· + ·) 0)
  | sumInt64, vs => .int64 ((vs.filterMap Value.int64?).foldl (· + ·) 0)
  | sumFloat64, vs =>
    .float64 (UInt64.ofNat
      ((vs.filterMap Value.float64?).foldl (fun sum x => Ieee.binary64.add sum x.toNat) 0))
  | concat, vs => .string ("|".intercalate (vs.map Value.text))
  | first, vs => vs.head?.getD (.boolean false)
  | max, vs => (Value.greatest? vs).getD (.boolean false)
  | count, vs => .int32 (Int32.ofInt vs.length)
  | const value, _ => value

end LiveTables
