import LiveTables.Event
import LiveTables.Value.Basic

/-!
# Reading a table

Stored tables and joined tables are read in one way: by their columns, their live rows and the value
of a cell.
-/

namespace LiveTables

/-- A table as its readers see it. -/
structure TableView where
  name : String
  /-- The identifiers of all columns, computed ones last. -/
  columnIds : List String
  columnKind : String → Except TableError Kind
  /-- The live rows, in ascending order. -/
  rows : List Nat
  rowCount : Nat
  get : (column : String) → (row : Nat) → Except TableError Value

namespace TableView

/-- Whether a row is live. -/
def contains (t : TableView) (row : Nat) : Bool := row ∈ t.rows

/-- The cells of some columns in one row. -/
def cells (t : TableView) (columns : List String) (row : Nat) : List (Except TableError Value) :=
  columns.map (t.get · row)

/-- The events that bring a fresh observer up to date: each live row is added, then updated in all
its columns. -/
def replay (t : TableView) : List Event :=
  t.rows.flatMap fun row => [.added row, .updated row t.columnIds]

end TableView

end LiveTables
