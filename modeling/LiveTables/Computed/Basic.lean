import LiveTables.Value.Basic

/-!
# Computed columns

A computed column has no cells. Its value is computed from other columns of the row whenever it is
read. It may depend on stored columns and on computed columns that were registered before it, so that
the order of registration is an order of evaluation, and reading ends.
-/

namespace LiveTables

/-- A column computed from others of the same row. -/
structure ComputedColumn where
  id : String
  kind : Kind
  dependencies : List String
  compute : List Value → Value

/-- Computes the value of a row whose cells are read by `read`. The dependencies are read in order,
and the result has to be of the column's kind. -/
def ComputedColumn.evaluate (c : ComputedColumn) (read : String → Except TableError Value) :
    Except TableError Value := do
  (c.compute (← c.dependencies.mapM read)).readAs c.kind

/-- The computed columns of a table, the newest first. -/
structure Computed where
  newestFirst : List ComputedColumn := []

namespace Computed

/-- The columns in order of registration. -/
def toList (c : Computed) : List ComputedColumn := c.newestFirst.reverse

/-- The identifiers in order of registration. -/
def ids (c : Computed) : List String := c.toList.map (·.id)

/-- The number of columns. -/
def size (c : Computed) : Nat := c.newestFirst.length

/-- The column of an identifier. -/
def column? (c : Computed) (id : String) : Option ComputedColumn := c.newestFirst.find? (·.id = id)

/-- Registers a column; answers with the columns after it. Its identifier has to be new, and its
dependencies have to exist. -/
def register (c : Computed) (table : String) (isStored : String → Bool) (column : ComputedColumn) :
    Computed × Except TableError Unit :=
  let known (id : String) : Bool := isStored id || (c.column? id).isSome
  if known column.id then (c, .error (.duplicateColumn table column.id))
  else
    match column.dependencies.find? (!known ·) with
    | some missing => (c, .error (.columnNotFound table missing))
    | none => ({ newestFirst := column :: c.newestFirst }, .ok ())

/-- Registers a column where it may be registered. -/
def add (c : Computed) (table : String) (isStored : String → Bool) (column : ComputedColumn) :
    Except TableError Computed :=
  let (added, answer) := c.register table isStored column
  answer.map fun () => added

/-- Those of some columns, given in order of registration, that depend on a touched column or on one
another by way of it. -/
def dependentsAmong (touched : List String) : List ComputedColumn → List String
  | [] => []
  | c :: rest =>
    if c.dependencies.any (· ∈ touched) then c.id :: dependentsAmong (c.id :: touched) rest
    else dependentsAmong touched rest

/-- The columns that depend, directly or not, on a touched column, in order of registration. -/
def dependentsOf (c : Computed) (touched : List String) : List String :=
  dependentsAmong touched c.toList

/-- Reads a column of a row: a computed one through those that are older, any other by `stored`. -/
def readFrom (stored : String → Except TableError Value) :
    List ComputedColumn → String → Except TableError Value
  | [], id => stored id
  | c :: older, id =>
    if c.id = id then c.evaluate (fun dependency => readFrom stored older dependency)
    else readFrom stored older id

/-- Reads a column of a row whose stored cells are read by `stored`. -/
def read (c : Computed) (stored : String → Except TableError Value) (id : String) :
    Except TableError Value :=
  readFrom stored c.newestFirst id

end Computed

end LiveTables
