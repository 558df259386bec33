import LiveTables.Schema
import LiveTables.Text.Quoted

/-!
# Columns

A column holds one cell for every row that was ever added to its table. A cell that is written takes
values of the column's kind only; one that is cleared holds the default again.
-/

namespace LiveTables

/-- The cells of one column. -/
structure Column where
  spec : ColumnSpec
  cells : Array Value := #[]

namespace Column

/-- Adds a cell with the default. -/
def push (c : Column) : Column := { c with cells := c.cells.push c.spec.default }

/-- The cell of a row. -/
def get? (c : Column) (row : Nat) : Option Value := c.cells[row]?

/-- Writes a cell; answers with the column after it. The kind is checked before the row. -/
def write (c : Column) (row : Nat) (value : Value) : Column × Except TableError Unit :=
  match value.expectKind c.spec.kind with
  | .error e => (c, .error e)
  | .ok () =>
    if row < c.cells.size then ({ c with cells := c.cells.setIfInBounds row value }, .ok ())
    else (c, .error (.invalidOperation .slotOutOfRange))

/-- Writes a cell where it may be written. -/
def set (c : Column) (row : Nat) (value : Value) : Except TableError Column :=
  let (written, answer) := c.write row value
  answer.map fun () => written

/-- Puts the default into a cell, if there is one. -/
def clear (c : Column) (row : Nat) : Column :=
  { c with cells := c.cells.setIfInBounds row c.spec.default }

/-- The column in the notation for inspection. -/
def inspect (c : Column) : String :=
  Text.inspect "Column" [("id", Text.quoted c.spec.id), ("data_type", c.spec.kind.name),
    ("len", toString c.cells.size)]

end Column

end LiveTables
