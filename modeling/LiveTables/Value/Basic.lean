import LiveTables.Decimal.Basic

/-!
# Cell values

There is no null: a cell always holds a value of its column's kind, at first the default of the
kind. Floating-point cells hold the bits of an IEEE 754 word, so that a NaN is a value like any
other; timestamps and durations count milliseconds.

`Value.same` is the equality by which rows are joined. It is the equality of the representations,
except that decimals are compared as numbers.
-/

namespace LiveTables

/-- The value of a cell. -/
inductive Value where
  | boolean (b : Bool)
  | byte (n : UInt8)
  | char (c : Char)
  | int16 (n : Int16)
  | int32 (n : Int32)
  | int64 (n : Int64)
  | float32 (bits : UInt32)
  | float64 (bits : UInt64)
  | decimal (d : Decimal)
  | string (s : String)
  | timestamp (ms : Int64)
  | duration (ms : Int64)
  | guid (bits : BitVec 128)
  deriving DecidableEq

namespace Value

/-- The kind of a value. -/
def kind : Value → Kind
  | boolean _ => .boolean
  | byte _ => .byte
  | char _ => .char
  | int16 _ => .int16
  | int32 _ => .int32
  | int64 _ => .int64
  | float32 _ => .float32
  | float64 _ => .float64
  | decimal _ => .decimal
  | string _ => .string
  | timestamp _ => .timestamp
  | duration _ => .duration
  | guid _ => .guid

/-- Two values are the same if they have one kind and one content; decimals of different scale may
be the same number. -/
def same : Value → Value → Bool
  | decimal a, decimal b => a.same b
  | a, b => a = b

/-- Fails unless the value has the kind asked for. -/
def expectKind (v : Value) (expected : Kind) : Except TableError Unit :=
  if v.kind = expected then .ok () else .error (.typeMismatch expected v.kind)

/-- The value read as a given kind: itself, if it has that kind. -/
def readAs (v : Value) (expected : Kind) : Except TableError Value := do
  v.expectKind expected
  return v

/-! ## Typed reads without an error -/

/-- The truth value of a boolean. -/
def bool? : Value → Option Bool
  | boolean b => some b
  | _ => none

/-- The number of an `int32`. -/
def int32? : Value → Option Int32
  | int32 n => some n
  | _ => none

/-- The number of a value of an integer kind, widened to 64 bits. -/
def int64? : Value → Option Int64
  | byte n => some (Int64.ofInt n.toNat)
  | int16 n => some n.toInt64
  | int32 n => some n.toInt64
  | int64 n => some n
  | _ => none

/-- The double-precision bits of a value of a floating-point kind. -/
def float64? : Value → Option UInt64
  | float32 bits => some (UInt64.ofNat (Ieee.widen bits.toNat))
  | float64 bits => some bits
  | _ => none

/-- The text of a string. -/
def string? : Value → Option String
  | string s => some s
  | _ => none

end Value

/-- The value that a fresh cell of the kind holds. -/
def Kind.default : Kind → Value
  | .boolean => .boolean false
  | .byte => .byte 0
  | .char => .char '\x00'
  | .int16 => .int16 0
  | .int32 => .int32 0
  | .int64 => .int64 0
  | .float32 => .float32 0
  | .float64 => .float64 0
  | .decimal => .decimal .zero
  | .string => .string ""
  | .timestamp => .timestamp 0
  | .duration => .duration 0
  | .guid => .guid 0

namespace Value

/-- Whether a value is the default of its kind. -/
def isDefault (v : Value) : Bool := v.same v.kind.default

@[simp] theorem kind_default (k : Kind) : k.default.kind = k := by cases k <;> rfl

theorem expectKind_eq_ok {v : Value} {k : Kind} : v.expectKind k = .ok () ↔ v.kind = k := by
  simp [expectKind]

theorem readAs_eq_ok {v w : Value} {k : Kind} : v.readAs k = .ok w ↔ v.kind = k ∧ w = v := by
  unfold readAs expectKind
  split <;> simp_all [bind, Except.bind, pure, Except.pure, eq_comm]

end Value

end LiveTables
