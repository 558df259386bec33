import LiveTables.Change.Basic
import LiveTables.Delta.Record
import LiveTables.Table.View
import LiveTables.Text.Quoted

/-!
# Encoding a delta stream

An encoder gathers the bytes of records until they are taken. Only mapped columns are written, and an
update without any is not written at all.

Encoding from a table reads the values at that moment. A row that cannot be read ends the encoding
with the error; what was written before it stays.
-/

namespace LiveTables

/-- The field map in use and the bytes not yet taken. -/
structure Encoder where
  fields : FieldMap
  pending : List UInt8 := []
  deriving DecidableEq

namespace Encoder

/-- Adds the bytes of a record. -/
def write (e : Encoder) (r : Record) : Encoder := { e with pending := e.pending ++ r.toBytes }

/-- The fields of the mapped columns, in order. -/
def payloads (m : FieldMap) (values : List (String × Value)) : List (Nat × Wire.Payload) :=
  values.filterMap fun (column, value) => (m.field? column).map (·, value.payload)

/-- Writes that a row was added. -/
def add (e : Encoder) (row : Nat) : Encoder := e.write { action := .add, row }

/-- Writes that a row was deleted. -/
def delete (e : Encoder) (row : Nat) : Encoder := e.write { action := .delete, row }

/-- Writes values of a row; answers the number of fields written. -/
def update (e : Encoder) (row : Nat) (values : List (String × Value)) : Encoder × Nat :=
  let fields := payloads e.fields values
  if fields.isEmpty then (e, 0) else (e.write { action := .update, row, fields }, fields.length)

/-- Reads the mapped ones of some columns in a row. -/
def readMapped (m : FieldMap) (t : TableView) (row : Nat) (columns : List String) :
    Except TableError (List (String × Value)) :=
  (columns.filter fun c => (m.field? c).isSome).mapM fun c => return (c, ← t.get c row)

/-- Reads columns of a row and writes their values. -/
def updateFrom (e : Encoder) (t : TableView) (row : Nat) (columns : List String) :
    Encoder × Except TableError Unit :=
  match readMapped e.fields t row columns with
  | .ok values => ((e.update row values).1, .ok ())
  | .error error => (e, .error error)

/-- Writes an event of a table with the values that the table has now. An added row is written with
all its columns. -/
def event (e : Encoder) (t : TableView) (event : Event) : Encoder × Except TableError Unit :=
  match event.action with
  | .add => (e.add event.row).updateFrom t event.row t.columnIds
  | .update => e.updateFrom t event.row event.columns
  | .delete => (e.delete event.row, .ok ())

/-- Writes some rows of a table as added rows, up to the first that cannot be read. -/
def rows (e : Encoder) (t : TableView) : List Nat → Encoder × Except TableError Unit
  | [] => (e, .ok ())
  | row :: rest =>
    match (e.add row).updateFrom t row t.columnIds with
    | (e, .ok ()) => rows e t rest
    | (e, .error error) => (e, .error error)

/-- Writes every live row of a table. -/
def replay (e : Encoder) (t : TableView) : Encoder × Except TableError Unit := e.rows t t.rows

/-- Writes one change of a row. -/
def rowChange (e : Encoder) : RowChange → Encoder
  | .add row => e.add row
  | .update row values => (e.update row values).1
  | .delete row => e.delete row

/-- Writes a batch; updates of one row that follow each other share a record. -/
def batch (e : Encoder) (changes : List Change) : Encoder :=
  (RowChange.ofChanges changes).foldl rowChange e

/-- Takes the bytes written so far. -/
def take (e : Encoder) : Encoder × List UInt8 := ({ e with pending := [] }, e.pending)

/-- The encoder in the notation for inspection. -/
def inspect (e : Encoder) : String :=
  Text.inspect "DeltaEncoder" [("fields", toString e.fields.size), ("pending", toString e.pending.length)]

end Encoder

end LiveTables
