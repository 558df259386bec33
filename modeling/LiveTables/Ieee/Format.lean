/-!
# IEEE 754 binary words

A floating-point cell holds the bits of an IEEE 754 word, and everything this library says about it
is said about those bits: what number a word denotes, in which order words stand, and which word is
nearest to a given ratio. All of it is exact arithmetic on `Nat` and `Int`, so a statement about
floating-point cells is a statement about integers.

A word is a `Nat` below `2 ^ (exponentBits + fractionBits + 1)`, read in a `Format`. The two formats
in use are `binary32` and `binary64`.
-/

namespace LiveTables.Ieee

-- Powers of `Nat` and `Int` are those of the core library, also in modules that see other instances.
attribute [instance (high), default_instance high] instPowNat

/-- The widths of the two fields under the sign bit. -/
structure Format where
  /-- Width of the exponent field. -/
  exponentBits : Nat
  /-- Width of the fraction field. -/
  fractionBits : Nat
  deriving DecidableEq

/-- Single precision: 8 exponent bits and 23 fraction bits. -/
def binary32 : Format := ⟨8, 23⟩

/-- Double precision: 11 exponent bits and 52 fraction bits. -/
def binary64 : Format := ⟨11, 52⟩

/-- What a word stands for. A finite datum is the number `± significand * 2 ^ exponent`. -/
inductive Datum where
  | nan
  | infinite (negative : Bool)
  | finite (negative : Bool) (significand : Nat) (exponent : Int)
  deriving DecidableEq

namespace Format

/-- The sign bit as a number; words below it are the non-negative ones. -/
def signBit (f : Format) : Nat := 2 ^ (f.exponentBits + f.fractionBits)

/-- The largest value of the exponent field, kept for infinities and NaNs. -/
def topExponent (f : Format) : Nat := 2 ^ f.exponentBits - 1

/-- The word of positive infinity. -/
def infinity (f : Format) : Nat := f.topExponent * 2 ^ f.fractionBits

/-- The exponent of the last place of the smallest numbers. -/
def minExponent (f : Format) : Int := 2 - 2 ^ (f.exponentBits - 1) - f.fractionBits

/-- Puts the sign in front of the word of a magnitude. -/
def withSign (f : Format) (negative : Bool) (magnitude : Nat) : Nat :=
  if negative then f.signBit + magnitude else magnitude

/-- Whether the sign bit of a word is set. -/
def isNegative (f : Format) (word : Nat) : Bool := f.signBit ≤ word

/-- The word without its sign bit. -/
def magnitude (f : Format) (word : Nat) : Nat := word % f.signBit

/-- The exponent field of a word. -/
def exponentField (f : Format) (word : Nat) : Nat := f.magnitude word / 2 ^ f.fractionBits

/-- The fraction field of a word. -/
def fractionField (f : Format) (word : Nat) : Nat := word % 2 ^ f.fractionBits

/-- Reads a word. Fraction zero under the top exponent is an infinity, any other fraction a NaN; an
exponent field of zero marks the numbers without the hidden leading bit. -/
def decode (f : Format) (word : Nat) : Datum :=
  let negative := f.isNegative word
  let e := f.exponentField word
  let m := f.fractionField word
  if e = f.topExponent then if m = 0 then .infinite negative else .nan
  else if e = 0 then .finite negative m f.minExponent
  else .finite negative (2 ^ f.fractionBits + m) (f.minExponent + e - 1)

/-- The place of a word in the total order of its format: negative NaNs, then the numbers from minus
infinity to plus infinity with `-0` before `+0`, then positive NaNs. -/
def orderKey (f : Format) (word : Nat) : Int :=
  if f.isNegative word then -(f.magnitude word : Int) - 1 else f.magnitude word

end Format

/-- The quotient `num / den` rounded to the nearest integer, a half going to the even neighbour. -/
def roundHalfEven (num den : Nat) : Nat :=
  let q := num / den
  let twice := 2 * (num % den)
  if twice < den then q else if den < twice then q + 1 else if q % 2 = 0 then q else q + 1

/-- The greatest `e` with `2 ^ e ≤ num / den`, for positive `num` and `den`. -/
def floorLog2 (num den : Nat) : Int :=
  let e : Int := (Nat.log2 num : Int) - Nat.log2 den
  let reached := if e < 0 then den ≤ num * 2 ^ (-e).toNat else den * 2 ^ e.toNat ≤ num
  if reached then e else e - 1

namespace Format

/-- The word nearest to `± num / den`, a half going to the even significand; what is too large for
the format becomes an infinity. -/
def ofRatio (f : Format) (negative : Bool) (num den : Nat) : Nat :=
  if num = 0 then f.withSign negative 0
  else
    let q := max (floorLog2 num den - f.fractionBits) f.minExponent
    let m := if q < 0 then roundHalfEven (num * 2 ^ (-q).toNat) den
      else roundHalfEven num (den * 2 ^ q.toNat)
    -- A significand that reaches the next power of two carries into the exponent field.
    f.withSign negative (min ((q - f.minExponent).toNat * 2 ^ f.fractionBits + m) f.infinity)

/-- The word nearest to an integer. -/
def ofInt (f : Format) (n : Int) : Nat := f.ofRatio (decide (n < 0)) n.natAbs 1

/-- The number of a finite word as a sign and a ratio; zero for a word that denotes no number. -/
def toRatio (f : Format) (word : Nat) : Bool × Nat × Nat :=
  match f.decode word with
  | .finite negative m q =>
    if q < 0 then (negative, m, 2 ^ (-q).toNat) else (negative, m * 2 ^ q.toNat, 1)
  | _ => (false, 0, 1)

/-- Marks a NaN as quiet: the first fraction bit is set and the others stay. -/
def quiet (f : Format) (word : Nat) : Nat :=
  let bit := 2 ^ (f.fractionBits - 1)
  if f.fractionField word < bit then word + bit else word

/-- The NaN that answers an operation without a meaningful result. -/
def invalid (f : Format) : Nat := f.withSign true (f.infinity + 2 ^ (f.fractionBits - 1))

/-- The exact sum of two finite data, as an integer times `2 ^` the lesser exponent, rounded into
the format. A sum of zero is `-0` only when both terms are negative. -/
def addFinite (f : Format) (n₁ : Bool) (m₁ : Nat) (q₁ : Int) (n₂ : Bool) (m₂ : Nat)
    (q₂ : Int) : Nat :=
  let q := min q₁ q₂
  let term (negative : Bool) (m : Nat) (e : Int) : Int :=
    let scaled : Int := m * 2 ^ (e - q).toNat
    if negative then -scaled else scaled
  let total := term n₁ m₁ q₁ + term n₂ m₂ q₂
  if total = 0 then f.withSign (n₁ && n₂) 0
  else if q < 0 then f.ofRatio (decide (total < 0)) total.natAbs (2 ^ (-q).toNat)
  else f.ofRatio (decide (total < 0)) (total.natAbs * 2 ^ q.toNat) 1

/-- Addition of words. A NaN operand is answered by itself, made quiet, the left one first. -/
def add (f : Format) (a b : Nat) : Nat :=
  match f.decode a, f.decode b with
  | .nan, _ => f.quiet a
  | _, .nan => f.quiet b
  | .infinite n₁, .infinite n₂ => if n₁ = n₂ then a else f.invalid
  | .infinite _, _ => a
  | _, .infinite _ => b
  | .finite n₁ m₁ q₁, .finite n₂ m₂ q₂ => f.addFinite n₁ m₁ q₁ n₂ m₂ q₂

end Format

/-- The double-precision word of a single-precision word. Every number is kept exactly; a NaN keeps
its sign and its fraction, and is made quiet. -/
def widen (word : Nat) : Nat :=
  match binary32.decode word with
  | .nan =>
    binary64.quiet (binary64.withSign (binary32.isNegative word)
      (binary64.infinity + binary32.fractionField word * 2 ^ 29))
  | .infinite negative => binary64.withSign negative binary64.infinity
  | .finite _ _ _ =>
    let (negative, num, den) := binary32.toRatio word
    binary64.ofRatio negative num den

end LiveTables.Ieee
