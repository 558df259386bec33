/-!
# Variable-length integers

A number is written in groups of seven bits, the lowest first, one group a byte; every byte but the
last carries the continuation bit. Signed numbers are first folded onto the natural ones so that
small magnitudes stay short.
-/

namespace LiveTables.Wire

/-- The bytes of a number: groups of seven bits, all but the last with the continuation bit. -/
def varint (n : Nat) : List UInt8 :=
  if n < 128 then [UInt8.ofNat n] else UInt8.ofNat (n % 128 + 128) :: varint (n / 128)
termination_by n

/-- Folds the integers onto the natural numbers: 0, -1, 1, -2, … become 0, 1, 2, 3, …. -/
def zigzag (n : Int) : Nat := if 0 ≤ n then (2 * n).toNat else (-2 * n - 1).toNat

/-- Unfolds what `zigzag` folded. -/
def unzigzag (n : Nat) : Int := if n % 2 = 0 then (n / 2 : Nat) else -((n / 2 : Nat) : Int) - 1

theorem unzigzag_zigzag (n : Int) : unzigzag (zigzag n) = n := by
  unfold unzigzag zigzag
  split <;> split <;> omega

theorem zigzag_unzigzag (n : Nat) : zigzag (unzigzag n) = n := by
  unfold unzigzag zigzag
  split <;> split <;> omega

end LiveTables.Wire
