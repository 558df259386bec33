/-!
# Kinds of cell values

Every column has a kind, and every cell of the column holds a value of that kind. The list `all`
fixes their order, which is also the order between values of different kinds.
-/

namespace LiveTables

/-- The kind of a cell value. -/
inductive Kind where
  | boolean
  | byte
  | char
  | int16
  | int32
  | int64
  | float32
  | float64
  | decimal
  | string
  | timestamp
  | duration
  | guid
  deriving DecidableEq, Repr

namespace Kind

/-- Every kind, in order. -/
def all : List Kind :=
  [boolean, byte, char, int16, int32, int64, float32, float64, decimal, string, timestamp, duration, guid]

/-- The name under which messages show a kind. -/
def name : Kind → String
  | boolean => "Boolean"
  | byte => "Byte"
  | char => "Char"
  | int16 => "Int16"
  | int32 => "Int32"
  | int64 => "Int64"
  | float32 => "Float32"
  | float64 => "Float64"
  | decimal => "Decimal"
  | string => "String"
  | timestamp => "Timestamp"
  | duration => "Duration"
  | guid => "Guid"

/-- The kind of a given name. -/
def ofName? (s : String) : Option Kind := all.find? (·.name = s)

/-- Rows may be joined on columns of these kinds: all but the floating-point ones. -/
def isHashable : Kind → Bool
  | float32 | float64 => false
  | _ => true

/-- The kinds whose values are integers. -/
def isInteger : Kind → Bool
  | byte | int16 | int32 | int64 => true
  | _ => false

/-- The place of a kind in `all`. -/
def rank (k : Kind) : Nat := k.ctorIdx

theorem all_rank (k : Kind) : all[k.rank]? = some k := by cases k <;> rfl

theorem rank_injective {a b : Kind} (h : a.rank = b.rank) : a = b := by
  have hab : some a = some b := by rw [← all_rank a, ← all_rank b, h]
  exact Option.some.inj hab

end Kind

end LiveTables
