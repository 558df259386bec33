import LiveTables.Ordered
import LiveTables.Wire.Payload

/-!
# Field maps

The two ends of a stream agree on a number for every column they share. A field map pairs columns
and numbers one to one; the numbers 0 and `rowField` are taken.
-/

namespace LiveTables

/-- The field that carries the row of a record. -/
def rowField : Nat := 8191

/-- Why a pair does not fit into a field map. -/
inductive FieldMapError where
  | reservedField (field : Nat)
  | duplicateField (field : Nat)
  | duplicateColumn (column : String)
  deriving DecidableEq

/-- The wording of an error. -/
def FieldMapError.message : FieldMapError → String
  | reservedField field => s!"field id {field} is reserved or out of range"
  | duplicateField field => s!"field id {field} is mapped twice"
  | duplicateColumn column => s!"column {column} is mapped twice"

/-- The field of each column, and the column of each field. -/
structure FieldMap where
  byColumn : List (String × Nat) := []
  byField : List (Nat × String) := []
  deriving DecidableEq

namespace FieldMap

/-- The field of a column. -/
def field? (m : FieldMap) (column : String) : Option Nat := m.byColumn.lookup column

/-- The column of a field. -/
def column? (m : FieldMap) (field : Nat) : Option String := m.byField.lookup field

/-- The number of pairs. -/
def size (m : FieldMap) : Nat := m.byField.length

/-- The pairs in ascending order of the fields. -/
def entries (m : FieldMap) : List (Nat × String) := m.byField

/-- Whether a field may be given to a column. -/
def isAssignable (field : Nat) : Bool := field ≠ 0 && field ≠ rowField && field ≤ Wire.maxField

/-- Adds a pair; answers with the map after it. The number is checked first, then whether it is free,
then whether the column is. -/
def add (m : FieldMap) (column : String) (field : Nat) : FieldMap × Except FieldMapError Unit :=
  if !isAssignable field then (m, .error (.reservedField field))
  else if (m.column? field).isSome then (m, .error (.duplicateField field))
  else if (m.field? column).isSome then (m, .error (.duplicateColumn column))
  else
    let m := { m with byColumn := Ordered.put column field m.byColumn }
    let m := { m with byField := Ordered.put field column m.byField }
    (m, .ok ())

/-- Adds a pair where it fits. -/
def insert (m : FieldMap) (column : String) (field : Nat) : Except FieldMapError FieldMap :=
  match m.add column field with
  | (m, .ok ()) => .ok m
  | (_, .error e) => .error e

/-- The map of a list of pairs, added one after the other. -/
def ofList (pairs : List (String × Nat)) : Except FieldMapError FieldMap :=
  pairs.foldlM (fun m (column, field) => m.insert column field) {}

/-- Numbers the columns 1, 2, 3, … in order. -/
def sequential (columns : List String) : Except FieldMapError FieldMap :=
  ofList (columns.zipIdx 1)

/-- The map of columns that are numbered in order, or of pairs. -/
def ofSource : List String ⊕ List (String × Nat) → Except FieldMapError FieldMap
  | .inl columns => sequential columns
  | .inr pairs => ofList pairs

/-- The map of a dictionary from columns to fields. Of pairs with one column the last counts, and
they are added in ascending order of the columns. -/
def ofDictionary (pairs : List (String × Nat)) : Except FieldMapError FieldMap :=
  ofList (pairs.foldl (fun d (column, field) => Ordered.put column field d) [])

end FieldMap

end LiveTables
