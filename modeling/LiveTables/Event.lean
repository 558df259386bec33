/-!
# Events of a table

A table announces what happened to its rows: a row was added, some of its columns changed, a row was
deleted. An event names the row and the columns and carries no values; who needs them reads the
table.
-/

namespace LiveTables

/-- What happened to a row. -/
inductive Action where
  | add
  | update
  | delete
  deriving DecidableEq

/-- The name under which an action is shown. -/
def Action.name : Action → String
  | add => "Add"
  | update => "Update"
  | delete => "Delete"

/-- One announcement of a table. -/
structure Event where
  action : Action
  row : Nat
  columns : List String
  deriving DecidableEq

namespace Event

/-- A row was added. -/
def added (row : Nat) : Event := ⟨.add, row, []⟩

/-- Columns of a row changed. -/
def updated (row : Nat) (columns : List String) : Event := ⟨.update, row, columns⟩

/-- A row was deleted. -/
def deleted (row : Nat) : Event := ⟨.delete, row, []⟩

/-- The first column named, if any. -/
def column? (e : Event) : Option String := e.columns.head?

/-- Whether the event names the column. -/
def touches (e : Event) (column : String) : Bool := column ∈ e.columns

end Event

end LiveTables
