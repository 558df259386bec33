import LiveTables.Decimal.Basic

/-!
# Decimal literals

A decimal is written with exactly `scale` fractional digits and reads back as itself, scale included.
A literal is an optional sign, digits with at most one point among them, at least one digit in all
and at most 28 after the point.
-/

namespace LiveTables.Decimal

/-- The decimal digits of `n`, padded with zeros in front to at least `width` places. -/
def paddedDigits (width n : Nat) : List Char :=
  let digits := Nat.toDigits 10 n
  List.replicate (width - digits.length) '0' ++ digits

/-- The characters of a literal for the decimal. -/
def toChars (d : Decimal) : List Char :=
  let sign : List Char := if d.mantissa.val < 0 then ['-'] else []
  let magnitude := d.mantissa.val.natAbs
  let one := 10 ^ d.scale
  if d.scale = 0 then sign ++ Nat.toDigits 10 magnitude
  else sign ++ Nat.toDigits 10 (magnitude / one) ++ '.' :: paddedDigits d.scale (magnitude % one)

/-- The text of a decimal. -/
def text (d : Decimal) : String := String.ofList d.toChars

/-- The value of a digit. -/
def digit? (c : Char) : Option Nat :=
  if '0' ≤ c ∧ c ≤ '9' then some (c.toNat - '0'.toNat) else none

/-- The number that a list of digits denotes, continuing from the number read so far. -/
def digits? : Nat → List Char → Option Nat
  | n, [] => some n
  | n, c :: cs => do digits? (10 * n + (← digit? c)) cs

/-- Splits the sign off: a minus sign makes the literal negative, a plus sign may be written. -/
def splitSign : List Char → Bool × List Char
  | '-' :: cs => (true, cs)
  | '+' :: cs => (false, cs)
  | cs => (false, cs)

/-- Reads the literal `whole . fraction` without its sign and point. The magnitude has to be in the
range of the positive mantissas, whatever the sign. -/
def ofDigits? (negative : Bool) (whole fraction : List Char) : Option Decimal := do
  if whole.isEmpty && fraction.isEmpty then none
  let magnitude ← digits? 0 (whole ++ fraction)
  if h : magnitude < 2 ^ 127 ∧ fraction.length ≤ 28 then
    some ⟨⟨if negative then -magnitude else magnitude, by split <;> omega⟩, fraction.length, h.2⟩
  else none

/-- Reads the characters of a literal; the first point ends the whole part. -/
def ofChars? (cs : List Char) : Option Decimal :=
  let (negative, body) := splitSign cs
  ofDigits? negative (body.takeWhile (· ≠ '.')) ((body.dropWhile (· ≠ '.')).drop 1)

/-- Reads a literal. -/
def parse (s : String) : Except TableError Decimal :=
  match ofChars? s.toList with
  | some d => .ok d
  | none => .error (.invalidOperation .malformedDecimal)

end LiveTables.Decimal
