import LiveTables.Change.Queue
import LiveTables.Config.Pipeline
import LiveTables.Table.View
import LiveTables.Text.Quoted

/-!
# Pipelines

A pipeline observes a table and turns its events into changes, with the values that it reads at that
moment. It sends them on at once, or lets them wait in a queue until it is flushed. A value that
cannot be read is left out.
-/

namespace LiveTables

/-- A pipeline: the name of its table, how it sends, and the changes that wait. -/
structure Pipeline where
  table : String
  config : PipelineConfig
  queue : ChangeQueue

namespace Pipeline

/-- A pipeline in which nothing waits. -/
def ofConfig (table : String) (config : PipelineConfig) : Pipeline :=
  { table, config, queue := { lastValue := config.lastValueColumns } }

/-- The changes of an event of a table. An added row may be followed by the values of all its
columns. -/
def changesOf (t : TableView) (snapshotAdds : Bool) (e : Event) : List Change :=
  let read (columns : List String) : List Change :=
    columns.filterMap fun c => ((t.get c e.row).toOption).map (.update e.row c)
  match e.action with
  | .add => .add e.row :: if snapshotAdds then read t.columnIds else []
  | .update => read e.columns
  | .delete => [.delete e.row]

/-- Observes an event; answers the batch to send at once, if there is one. -/
def observe (p : Pipeline) (t : TableView) (e : Event) : Pipeline × Option (List Change) :=
  let changes := changesOf t p.config.snapshotAdds e
  match p.config.mode with
  | .immediate => (p, if changes.isEmpty then none else some changes)
  | .batched _ => ({ p with queue := changes.foldl ChangeQueue.push p.queue }, none)

/-- Takes the changes that wait; answers the batch to send, if there is one. -/
def flush (p : Pipeline) : Pipeline × Option (List Change) :=
  let (queue, changes) := p.queue.drain
  ({ p with queue }, if changes.isEmpty then none else some changes)

/-- The last batch of a pipeline that is given up. -/
def close (p : Pipeline) : Option (List Change) :=
  match p.config.mode with
  | .immediate => none
  | .batched _ => p.flush.2

/-- A time in milliseconds in the notation for inspection: in seconds from one second on. -/
def inspectInterval (ms : Nat) : String :=
  if ms = 0 then "0ns"
  else if ms < 1000 then toString ms ++ "ms"
  else
    let digits := Nat.toDigits 10 (1000 + ms % 1000)
    let fraction := ((digits.drop 1).reverse.dropWhile (· = '0')).reverse
    toString (ms / 1000) ++ (if fraction.isEmpty then "" else "." ++ String.ofList fraction) ++ "s"

/-- A mode in the notation for inspection. -/
def inspectMode : BatchMode → String
  | .immediate => "Immediate"
  | .batched interval => Text.inspect "Batched" [("interval", inspectInterval interval)]

/-- The pipeline in the notation for inspection. -/
def inspect (p : Pipeline) : String :=
  Text.inspect "ReplicationPipeline" [("table", Text.quoted p.table), ("mode", inspectMode p.config.mode),
    ("pending", toString p.queue.size)]

end Pipeline

end LiveTables
