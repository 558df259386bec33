import LiveTables.Decimal.Text
import LiveTables.Ieee.Shortest
import LiveTables.Value.Basic

/-!
# Text of values

Each kind shows its values in one way: numbers in decimal, floating-point words by their shortest
decimal, milliseconds with their unit, identifiers in five groups of lower-case hexadecimal digits.
-/

namespace LiveTables.Value

/-- The hexadecimal digit of a number below 16. -/
def hexDigit (n : Nat) : Char := Nat.digitChar (n % 16)

/-- The `width` lowest hexadecimal digits of a number, the highest first. -/
def hexDigits : Nat → Nat → List Char
  | 0, _ => []
  | width + 1, n => hexDigit (n / 16 ^ width) :: hexDigits width n

/-- The text of an identifier: groups of 8, 4, 4, 4 and 12 hexadecimal digits. -/
def guidText (bits : BitVec 128) : String :=
  let digits := hexDigits 32 bits.toNat
  let group (first len : Nat) := String.ofList ((digits.drop first).take len)
  "-".intercalate [group 0 8, group 8 4, group 12 4, group 16 4, group 20 12]

/-- The text of a value. -/
def text : Value → String
  | boolean b => if b then "true" else "false"
  | byte n => toString n.toNat
  | char c => String.singleton c
  | int16 n => toString n.toInt
  | int32 n => toString n.toInt
  | int64 n => toString n.toInt
  | float32 bits => Ieee.binary32.text bits.toNat
  | float64 bits => Ieee.binary64.text bits.toNat
  | decimal d => d.text
  | string s => s
  | timestamp ms => toString ms.toInt ++ "ms"
  | duration ms => toString ms.toInt ++ "ms"
  | guid bits => guidText bits

end LiveTables.Value
