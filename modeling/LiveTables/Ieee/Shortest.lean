import LiveTables.Ieee.Format

/-!
# Shortest decimal text of a floating-point word

A finite word stands for every real number that rounds to it. Among the decimals in that interval
the text shows one with the fewest digits, and among those the nearest to the number itself. It is
written out in full, without an exponent, and without a point when it is an integer.

`Format.shortest` finds the digits on ever finer decimal grids: the first grid `10 ^ k` that has a
point in the interval has one next to the number, so only two candidates per grid are looked at.
-/

namespace LiveTables.Ieee

/-- The reals that round to a positive word, all three bounds over the common denominator `den`. The
ends belong to the interval when the significand is even. -/
structure RoundingInterval where
  low : Nat
  value : Nat
  high : Nat
  den : Nat
  closed : Bool

namespace RoundingInterval

/-- Whether the decimal `c * 10 ^ k` lies in the interval. -/
def holds (r : RoundingInterval) (c : Nat) (k : Int) : Bool :=
  let (num, scale) := if k < 0 then (c * r.den, 10 ^ (-k).toNat) else (c * 10 ^ k.toNat * r.den, 1)
  if r.closed then decide (r.low * scale ≤ num) && decide (num ≤ r.high * scale)
  else decide (r.low * scale < num) && decide (num < r.high * scale)

/-- The integer part of the number on the grid `10 ^ k`, and whether its remainder reaches a half. -/
def gridBelow (r : RoundingInterval) (k : Int) : Nat × Bool :=
  let (num, step) := if k < 0 then (r.value * 10 ^ (-k).toNat, r.den) else (r.value, r.den * 10 ^ k.toNat)
  (num / step, decide (step ≤ 2 * (num % step)))

/-- The candidate on the grid `10 ^ k`: of the two grid points around the number one that lies in
the interval, the nearer if both do, and the upper one if they are equally near. -/
def candidate? (r : RoundingInterval) (k : Int) : Option Nat :=
  let (c, upperNearer) := r.gridBelow k
  match r.holds c k, r.holds (c + 1) k with
  | false, false => none
  | true, false => some c
  | false, true => some (c + 1)
  | true, true => some (if upperNearer then c + 1 else c)

/-- Tries `n` grids from `10 ^ k` downwards; after the last the grid point below is taken. -/
def search (r : RoundingInterval) : Nat → Int → Nat × Int
  | 0, k => ((r.gridBelow k).1, k)
  | n + 1, k =>
    match r.candidate? k with
    | some c => (c, k)
    | none => r.search n (k - 1)

end RoundingInterval

namespace Format

/-- The interval of reals that round to the positive number `m * 2 ^ q`. The gap below a power of
two is half as wide as the one above it, except at the smallest exponent. -/
def interval (f : Format) (m : Nat) (q : Int) : RoundingInterval :=
  let below := if m = 2 ^ f.fractionBits ∧ f.minExponent < q then 1 else 2
  let up := 2 ^ (q - 2).toNat
  { low := (4 * m - below) * up
    value := 4 * m * up
    high := (4 * m + 2) * up
    den := 2 ^ (2 - q).toNat
    closed := m % 2 = 0 }

/-- A decimal exponent from which the grids are tried; it is at least the exponent of the first
digit, and exceeds it by at most three. -/
def topGrid (m : Nat) (q : Int) : Int := ((Nat.log2 m : Int) + q + 1) * 30103 / 100000 + 1

/-- The digits and the decimal exponent of the shortest decimal for a positive number. -/
def shortest (f : Format) (m : Nat) (q : Int) : Nat × Int :=
  (f.interval m q).search (f.fractionBits / 3 + 6) (topGrid m q)

end Format

/-- Writes `c * 10 ^ k` without an exponent. -/
def positional (c : Nat) (k : Int) : String :=
  let digits := (toString c).toList
  if 0 ≤ k then String.ofList (digits ++ List.replicate k.toNat '0')
  else
    let places := (-k).toNat
    let padded := List.replicate (places + 1 - digits.length) '0' ++ digits
    let whole := padded.length - places
    String.ofList (padded.take whole ++ '.' :: padded.drop whole)

/-- The text of a word: its shortest decimal, or `NaN`, `inf`, `-inf`; zeros show their sign. -/
def Format.text (f : Format) (word : Nat) : String :=
  match f.decode word with
  | .nan => "NaN"
  | .infinite negative => if negative then "-inf" else "inf"
  | .finite negative m q =>
    let body := if m = 0 then "0" else let (c, k) := f.shortest m q; positional c k
    if negative then "-" ++ body else body

end LiveTables.Ieee
