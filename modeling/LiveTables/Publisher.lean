import LiveTables.Delta.Encoder
import LiveTables.Ordered

/-!
# Publishers

A publisher encodes batches and sends the bytes to all its sinks. It keeps the last value of every
mapped column of every row, so that a sink that comes later is first brought up to date.

A sink that hung up is dropped when something is sent to it.
-/

namespace LiveTables

/-- A publisher: its encoder, the last values by row and column, both in ascending order, and the
sinks, oldest first. -/
structure Publisher where
  encoder : Encoder
  rows : List (Nat × List (String × Value)) := []
  sinks : List Nat := []

namespace Publisher

/-- A publisher that has published nothing. -/
def ofFields (fields : FieldMap) : Publisher := { encoder := { fields } }

/-- Takes a change into the last values. An added row starts without any; columns that are not mapped
and rows that are not known are left out. -/
def record (p : Publisher) : Change → Publisher
  | .add row => { p with rows := Ordered.put row [] p.rows }
  | .update row column value =>
    match p.encoder.fields.field? column, p.rows.lookup row with
    | some _, some values => { p with rows := Ordered.put row (Ordered.put column value values) p.rows }
    | _, _ => p
  | .delete row => { p with rows := p.rows.filter (·.1 ≠ row) }

/-- The bytes that bring a new sink up to date. -/
def replay (p : Publisher) : Publisher × List UInt8 :=
  let encoder := p.rows.foldl (fun e (row, values) => ((e.add row).update row values).1) p.encoder
  let (encoder, bytes) := encoder.take
  ({ p with encoder }, bytes)

/-- Takes a batch; answers the bytes to send. Sinks that hung up are dropped if there are any. -/
def publish (p : Publisher) (isOpen : Nat → Bool) (changes : List Change) : Publisher × List UInt8 :=
  let p := changes.foldl record p
  let (encoder, bytes) := (p.encoder.batch changes).take
  let p := { p with encoder }
  (if bytes.isEmpty then p else { p with sinks := p.sinks.filter isOpen }, bytes)

/-- Takes a sink in; answers the bytes to send to it. A sink that hung up is refused if there are any
bytes. -/
def attach (p : Publisher) (isOpen : Bool) (sink : Nat) : Publisher × Option (List UInt8) :=
  let (p, bytes) := p.replay
  if !isOpen && !bytes.isEmpty then (p, none) else ({ p with sinks := p.sinks ++ [sink] }, some bytes)

/-- The publisher in the notation for inspection. -/
def inspect (p : Publisher) : String :=
  Text.inspect "DeltaPublisher" [("rows", toString p.rows.length), ("sinks", toString p.sinks.length)]

end Publisher

end LiveTables
