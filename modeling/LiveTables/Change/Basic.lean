import LiveTables.Value.Basic

/-!
# Changes

An event only names the columns that changed. A change carries the value that was read when the
event was observed, so that it can be sent away from the table. A batch is a list of changes in the
order in which they were observed.
-/

namespace LiveTables

/-- A change of a row with its value. -/
inductive Change where
  | add (row : Nat)
  | update (row : Nat) (column : String) (value : Value)
  | delete (row : Nat)
  deriving DecidableEq

namespace Change

/-- The row that changed. -/
def row : Change → Nat
  | add r => r
  | update r _ _ => r
  | delete r => r

/-- Whether two changes say the same. -/
def same : Change → Change → Bool
  | add r, add r' => r = r'
  | update r c v, update r' c' v' => r = r' && c = c' && v.same v'
  | delete r, delete r' => r = r'
  | _, _ => false

/-- Whether two batches say the same, change by change. -/
def sameBatch (a b : List Change) : Bool :=
  a.length = b.length && (a.zip b).all fun (x, y) => x.same y

end Change

/-- What happened to one row in a run of changes: updates that follow each other are one. -/
inductive RowChange where
  | add (row : Nat)
  | update (row : Nat) (values : List (String × Value))
  | delete (row : Nat)

/-- Joins updates of one row that follow each other. -/
def RowChange.ofChanges : List Change → List RowChange
  | [] => []
  | .add row :: rest => .add row :: ofChanges rest
  | .delete row :: rest => .delete row :: ofChanges rest
  | .update row column value :: rest =>
    match ofChanges rest with
    | .update row' values :: later =>
      if row = row' then .update row ((column, value) :: values) :: later
      else .update row [(column, value)] :: .update row' values :: later
    | later => .update row [(column, value)] :: later

end LiveTables
