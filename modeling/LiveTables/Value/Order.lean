import LiveTables.Value.Basic

/-!
# Order of values

Values of one kind stand in the natural order of the kind: floating-point words in the total order
of their format, strings by code points, identifiers by their bytes. Values of different kinds stand
in the order of the kinds.
-/

namespace LiveTables.Value

/-- Compares two values. -/
def cmp : Value → Value → Ordering
  | boolean a, boolean b => compare a.toNat b.toNat
  | byte a, byte b => compare a.toNat b.toNat
  | char a, char b => compare a.toNat b.toNat
  | int16 a, int16 b => compare a.toInt b.toInt
  | int32 a, int32 b => compare a.toInt b.toInt
  | int64 a, int64 b => compare a.toInt b.toInt
  | float32 a, float32 b =>
    compare (Ieee.binary32.orderKey a.toNat) (Ieee.binary32.orderKey b.toNat)
  | float64 a, float64 b =>
    compare (Ieee.binary64.orderKey a.toNat) (Ieee.binary64.orderKey b.toNat)
  | decimal a, decimal b => a.cmp b
  | string a, string b => compare a b
  | timestamp a, timestamp b => compare a.toInt b.toInt
  | duration a, duration b => compare a.toInt b.toInt
  | guid a, guid b => compare a.toNat b.toNat
  | a, b => compare a.kind.rank b.kind.rank

/-- Puts values in order; equal ones keep their places among each other. -/
def sort (values : List Value) : List Value := values.mergeSort (fun a b => (a.cmp b).isLE)

/-- The first of every class of values that are the same. -/
def distinct (values : List Value) : List Value :=
  values.foldl (fun kept v => if kept.any (·.same v) then kept else kept ++ [v]) []

/-- The greatest value, the last one among equals. -/
def greatest? : List Value → Option Value
  | [] => none
  | v :: vs => some (vs.foldl (fun best w => if (best.cmp w).isGT then best else w) v)

end LiveTables.Value
