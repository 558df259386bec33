import LiveTables.Computed.Basic
import LiveTables.Join.Engine
import LiveTables.Table.View
import LiveTables.Text.Quoted

/-!
# Joined tables

A joined table shows the rows of a join with the columns of both sources. It stores no cells: a cell
of a source column is read in the row that stands on the column's side, and where none does it has a
gap value. It may have computed columns over all of these.

The sources are known by their numbers; what they hold is read through their views.
-/

namespace LiveTables

/-- What joins two sources: the kind of the join, the key columns, the name of the joined table, if
it is not made from those of the sources, and the values of the gaps. -/
structure JoinSpec where
  kind : JoinKind
  leftKey : String
  rightKey : String
  name? : Option String := none
  gap : String → Kind → Value := fun _ kind => kind.default

/-- A joined table: its sources with their key columns and the columns that they had at the start,
the engine that keeps the joined rows, and the computed columns. -/
structure JoinedTable where
  name : String
  left : Nat
  right : Nat
  leftKey : String
  rightKey : String
  leftColumns : List (String × Kind)
  rightColumns : List (String × Kind)
  gap : String → Kind → Value
  engine : JoinEngine
  computed : Computed := {}

namespace JoinedTable

/-- The source of a side. -/
def source (j : JoinedTable) : Side → Nat
  | .left => j.left
  | .right => j.right

/-- The key column of a side. -/
def key (j : JoinedTable) : Side → String
  | .left => j.leftKey
  | .right => j.rightKey

/-- The columns of a side with their kinds. -/
def columns (j : JoinedTable) : Side → List (String × Kind)
  | .left => j.leftColumns
  | .right => j.rightColumns

/-- The identifiers of the columns of a side. -/
def sideIds (j : JoinedTable) (side : Side) : List String := (j.columns side).map (·.1)

/-- The side and the kind of a source column. -/
def column? (j : JoinedTable) (id : String) : Option (Side × Kind) :=
  match j.leftColumns.lookup id with
  | some kind => some (.left, kind)
  | none => (j.rightColumns.lookup id).map (.right, ·)

/-- The identifiers of all columns: those of the left source, of the right one, and the computed
ones. -/
def columnIds (j : JoinedTable) : List String := j.sideIds .left ++ j.sideIds .right ++ j.computed.ids

/-- The kind of a column. -/
def columnKind (j : JoinedTable) (id : String) : Except TableError Kind :=
  match j.column? id with
  | some (_, kind) => .ok kind
  | none =>
    match j.computed.column? id with
    | some c => .ok c.kind
    | none => .error (.columnNotFound j.name id)

/-- The row of a source that holds the cell of a column; none if the side is a gap. -/
def sourceRow (j : JoinedTable) (id : String) (row : Nat) : Except TableError (Option Nat) :=
  match j.column? id with
  | some (side, _) => .ok (j.engine.sourceRow? side row)
  | none => .error (.columnNotFound j.name id)

/-- The value of a source column in a row. -/
def stored (j : JoinedTable) (source : Side → TableView) (row : Nat) (id : String) :
    Except TableError Value :=
  match j.column? id with
  | none => .error (.columnNotFound j.name id)
  | some (side, kind) =>
    match j.engine.sourceRow? side row with
    | some r => (source side).get id r
    | none => (j.gap id kind).readAs kind

/-- The value of a column in a row. -/
def get (j : JoinedTable) (source : Side → TableView) (id : String) (row : Nat) :
    Except TableError Value :=
  if j.engine.contains row then j.computed.read (j.stored source row) id
  else .error (.rowNotFound j.name row)

/-- The table as its readers see it. -/
def view (j : JoinedTable) (source : Side → TableView) : TableView :=
  { name := j.name, columnIds := j.columnIds, columnKind := j.columnKind, rows := j.engine.rows,
    rowCount := j.engine.rowCount, get := j.get source }

/-- The events that tell that columns of a row changed: one for the columns, and one for each
computed column that depends on them. -/
def updateEvents (j : JoinedTable) (row : Nat) (columns : List String) : List Event :=
  .updated row columns :: (j.computed.dependentsOf columns).map fun c => .updated row [c]

/-- Those of some columns of a source whose changes do not show in the joined rows by way of the key:
they belong to the side and are not its key. -/
def plainColumns (j : JoinedTable) (side : Side) (columns : List String) : List String :=
  columns.filter fun c => c ≠ j.key side && c ∈ j.sideIds side

/-- Registers a computed column. -/
def addComputed (j : JoinedTable) (column : ComputedColumn) : JoinedTable × Except TableError Unit :=
  let (computed, answer) := j.computed.register j.name (fun id => (j.column? id).isSome) column
  ({ j with computed }, answer)

/-- Links the rows that a source holds under their keys, in order. -/
def linkRows (side : Side) (key : String) (source : TableView) (engine : JoinEngine) :
    Except TableError JoinEngine :=
  source.rows.foldlM (fun engine row => return (engine.link side row (← source.get key row)).1) engine

/-- The columns of a source with their kinds. -/
def kindsOf (source : TableView) : Except TableError (List (String × Kind)) :=
  source.columnIds.mapM fun id => return (id, ← source.columnKind id)

/-- Joins two sources. The key columns have to exist, to be hashable and to be of one kind, and no
column may stand in both sources. -/
def ofSources (spec : JoinSpec) (leftId rightId : Nat) (left right : TableView) :
    Except TableError JoinedTable := do
  let name := spec.name?.getD s!"{left.name}_{right.name}"
  let leftKind ← left.columnKind spec.leftKey
  let rightKind ← right.columnKind spec.rightKey
  if !leftKind.isHashable || !rightKind.isHashable then
    throw (.invalidSchema (.unhashableKeys name leftKind rightKind))
  if leftKind ≠ rightKind then throw (.invalidSchema (.keyKindsDiffer name leftKind rightKind))
  let leftColumns ← kindsOf left
  let rightColumns ← kindsOf right
  match right.columnIds.find? (· ∈ left.columnIds) with
  | some id => throw (.duplicateColumn name id)
  | none =>
    let engine ← linkRows .left spec.leftKey left { kind := spec.kind }
    let engine ← linkRows .right spec.rightKey right engine
    return { name, left := leftId, right := rightId, leftKey := spec.leftKey,
             rightKey := spec.rightKey, leftColumns, rightColumns, gap := spec.gap, engine }

/-- The table in the notation for inspection. -/
def inspect (j : JoinedTable) (source : Side → TableView) : String :=
  Text.inspect "JoinedTable" [("name", Text.quoted j.name), ("join_type", j.engine.kind.name),
    ("left", Text.quoted (source .left).name), ("right", Text.quoted (source .right).name),
    ("row_count", toString j.engine.rowCount)]

end JoinedTable

end LiveTables
