import LiveTables.Column
import LiveTables.Computed.Basic
import LiveTables.Table.View

/-!
# Stored tables

A table has stored columns from a schema and computed columns registered later. Rows are numbered in
the order in which they are added; the number of a deleted row is not used again.

An operation leaves a table and answers the signals to announce, in order, or an error. One that fails
announces nothing.
-/

namespace LiveTables

/-- What a table announces: a write to a cell, on the stream of its column; and events, on the stream
of the table. -/
inductive Signal where
  | cell (column : String) (row : Nat)
  | event (event : Event)
  deriving DecidableEq

/-- A table: its stored columns, which rows are live, how many, and its computed columns. -/
structure Table where
  name : String
  columns : List Column
  live : Array Bool := #[]
  rowCount : Nat := 0
  computed : Computed := {}

namespace Table

/-- A table without rows. -/
def ofSchema (s : Schema) : Table := { name := s.name, columns := s.columns.map ({ spec := · }) }

/-- Whether a row is live. -/
def isLive (t : Table) (row : Nat) : Bool := t.live[row]?.getD false

/-- The stored column of an identifier. -/
def column? (t : Table) (id : String) : Option Column := t.columns.find? (·.spec.id = id)

/-- The live rows, in ascending order. -/
def rows (t : Table) : List Nat := (List.range t.live.size).filter t.isLive

/-- The identifiers of all columns: the stored ones, then the computed ones. -/
def columnIds (t : Table) : List String := t.columns.map (·.spec.id) ++ t.computed.ids

/-- The kind of a column. -/
def columnKind (t : Table) (id : String) : Except TableError Kind :=
  match t.column? id with
  | some c => .ok c.spec.kind
  | none =>
    match t.computed.column? id with
    | some c => .ok c.kind
    | none => .error (.columnNotFound t.name id)

/-- The cell of a stored column. -/
def stored (t : Table) (row : Nat) (id : String) : Except TableError Value :=
  match t.column? id with
  | some c =>
    match c.get? row with
    | some v => .ok v
    | none => .error (.rowNotFound t.name row)
  | none => .error (.columnNotFound t.name id)

/-- The value of a column in a row. -/
def get (t : Table) (id : String) (row : Nat) : Except TableError Value :=
  if t.isLive row then t.computed.read (t.stored row) id else .error (.rowNotFound t.name row)

/-- The table as its readers see it. -/
def view (t : Table) : TableView :=
  { name := t.name, columnIds := t.columnIds, columnKind := t.columnKind, rows := t.rows,
    rowCount := t.rowCount, get := t.get }

/-! ## Operations -/

/-- Adds a row whose cells hold the defaults; answers its number. -/
def addRow (t : Table) : Table × Nat × List Signal :=
  let row := t.live.size
  ({ t with columns := t.columns.map Column.push, live := t.live.push true, rowCount := t.rowCount + 1 },
    row, [.event (.added row)])

/-- Writes a cell. The row is checked first, then whether the column is computed, then whether it
exists, then the kind of the value. The write is announced on the stream of the column, and then as
an update of the column and of each computed column that depends on it. -/
def setValue (t : Table) (id : String) (row : Nat) (value : Value) :
    Table × Except TableError (List Signal) :=
  if !t.isLive row then (t, .error (.rowNotFound t.name row))
  else if (t.computed.column? id).isSome then (t, .error (.invalidOperation .readOnlyColumn))
  else
    match t.column? id with
    | none => (t, .error (.columnNotFound t.name id))
    | some column =>
      let (written, answer) := column.write row value
      let t := { t with columns := t.columns.map fun c => if c.spec.id = id then written else c }
      let touched := id :: t.computed.dependentsOf [id]
      (t, answer.map fun () => .cell id row :: touched.map fun c => .event (.updated row [c]))

/-- Deletes a row. -/
def deleteRow (t : Table) (row : Nat) : Table × Except TableError (List Signal) :=
  if !t.isLive row then (t, .error (.rowNotFound t.name row))
  else
    let columns := t.columns.map (·.clear row)
    ({ t with columns, live := t.live.setIfInBounds row false, rowCount := t.rowCount - 1 },
      .ok [.event (.deleted row)])

/-- Registers a computed column. -/
def addComputed (t : Table) (column : ComputedColumn) : Table × Except TableError Unit :=
  let (computed, answer) := t.computed.register t.name (fun id => (t.column? id).isSome) column
  ({ t with computed }, answer)

/-- The table in the notation for inspection. -/
def inspect (t : Table) : String :=
  Text.inspect "Table" [("name", Text.quoted t.name),
    ("columns", "[" ++ ", ".intercalate (t.columns.map Column.inspect) ++ "]"),
    ("computed", toString t.computed.size), ("row_count", toString t.rowCount)]

end Table

end LiveTables
