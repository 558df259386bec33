import LiveTables.Change.Basic

/-!
# Queues of changes

Changes wait in a queue until they are sent together. For columns of which only the last value
matters, an update overwrites the one that already waits for the same cell, which keeps its place.
Adding or deleting the row ends this: an update is never moved across either.

A queue finds the update to overwrite by the position that it remembered for the cell when the update
began to wait. It forgets the positions of a row that is added or deleted, and all of them when it is
emptied.
-/

namespace LiveTables

/-- The columns of which only the last value matters, the changes that wait, the oldest first, and for
rows and their columns the positions of updates that may be overwritten. -/
structure ChangeQueue where
  lastValue : List String
  changes : List Change := []
  positions : List (Nat × List (String × Nat)) := []

namespace ChangeQueue

/-- Whether only the last value of a column matters. -/
def isLastValue (q : ChangeQueue) (column : String) : Bool := column ∈ q.lastValue

/-- The position that is remembered for a cell. -/
def position? (q : ChangeQueue) (row : Nat) (column : String) : Option Nat :=
  (q.positions.lookup row).bind (·.lookup column)

/-- Remembers a position for a cell. -/
def remember (q : ChangeQueue) (row : Nat) (column : String) (position : Nat) : ChangeQueue :=
  let columns := (q.positions.lookup row).getD []
  let columns := (column, position) :: columns.filter (·.1 ≠ column)
  { q with positions := (row, columns) :: q.positions.filter (·.1 ≠ row) }

/-- Forgets the positions of a row. -/
def forget (q : ChangeQueue) (row : Nat) : ChangeQueue :=
  { q with positions := q.positions.filter (·.1 ≠ row) }

/-- Puts a change at the end. -/
def append (q : ChangeQueue) (change : Change) : ChangeQueue := { q with changes := q.changes ++ [change] }

/-- Gives the update at a position another value, if there is one. -/
def overwrite? (q : ChangeQueue) (position : Nat) (value : Value) : Option ChangeQueue :=
  match q.changes[position]? with
  | some (.update row column _) => some { q with changes := q.changes.set position (.update row column value) }
  | _ => none

/-- Adds a change at the end, or overwrites the value that already waits. -/
def push (q : ChangeQueue) (change : Change) : ChangeQueue :=
  match change with
  | .update row column value =>
    if q.isLastValue column then
      match (q.position? row column).bind (q.overwrite? · value) with
      | some q => q
      | none => (q.remember row column q.changes.length).append change
    else q.append change
  | .add row | .delete row => (q.forget row).append change

/-- The number of changes that wait. -/
def size (q : ChangeQueue) : Nat := q.changes.length

/-- Whether no change waits. -/
def isEmpty (q : ChangeQueue) : Bool := q.changes.isEmpty

/-- Takes everything out, in order. -/
def drain (q : ChangeQueue) : ChangeQueue × List Change := ({ q with changes := [], positions := [] }, q.changes)

end ChangeQueue

end LiveTables
