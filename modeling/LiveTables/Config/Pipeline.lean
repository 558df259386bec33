import LiveTables.Json.Document

/-!
# Configuration of pipelines and connections

Both are read from JSON documents in which every field may be left out. Fields of other names are
ignored; a field that stands twice, or holds something of another type, refuses the document.
-/

namespace LiveTables

-- Powers of `Nat` and `Int` are those of the core library, also in modules that see other instances.
attribute [instance (high), default_instance high] instPowNat

/-- When the changes that a pipeline observes are sent. -/
inductive BatchMode where
  /-- With every event. -/
  | immediate
  /-- Together, after so many milliseconds or when the pipeline is flushed. -/
  | batched (interval : Nat)
  deriving DecidableEq

/-- How a pipeline sends the changes of its table. -/
structure PipelineConfig where
  mode : BatchMode := .immediate
  /-- Columns of which only the last value that waits is sent. -/
  lastValueColumns : List String := []
  /-- Whether rows that exist at the start are sent as if they were added. -/
  replayExisting : Bool := true
  /-- Whether an added row is sent with the values of all its columns. -/
  snapshotAdds : Bool := false
  deriving DecidableEq

/-- Where a connection goes and how often, in milliseconds, it looks for an order to stop. -/
structure ConnectionConfig where
  address : String := "127.0.0.1:7400"
  pollInterval : Nat := 100
  deriving DecidableEq

/-- A field that may be left out. -/
private def orDefault {α : Type} (default : α) (read : Json → Option α) : Option Json → Option α
  | none => some default
  | some json => read json

namespace BatchMode

/-- Reads a mode. The immediate mode may be written as a member without a value. -/
def ofJson? : Json → Option BatchMode
  | .string text? => if text? = some "immediate" then some immediate else none
  | json => do
    match ← json.members? with
    | [(name, inner)] =>
      if name = "immediate" then
        match inner with
        | .null => some immediate
        | _ => none
      else if name = "batched" then
        match ← inner.fields? ["interval"] with
        | [some interval] => (interval.below? (2 ^ 64)).map batched
        | _ => none
      else none
    | _ => none

/-- Writes a mode. -/
def toJson : BatchMode → String
  | immediate => Json.writeString "immediate"
  | batched interval =>
    Json.writeObject [("batched", Json.writeObject [("interval", toString interval)])]

end BatchMode

namespace PipelineConfig

/-- Reads a configuration. -/
def ofJson? (json : Json) : Option PipelineConfig := do
  match ← json.fields? ["mode", "last_value_columns", "replay_existing", "snapshot_adds"] with
  | [mode, columns, replay, snapshot] =>
    let standard : PipelineConfig := {}
    return {
      mode := ← orDefault standard.mode BatchMode.ofJson? mode
      lastValueColumns :=
        ← orDefault standard.lastValueColumns (fun j => do (← j.items?).mapM Json.text?) columns
      replayExisting := ← orDefault standard.replayExisting Json.bool? replay
      snapshotAdds := ← orDefault standard.snapshotAdds Json.bool? snapshot }
  | _ => none

/-- Reads a configuration from text. -/
def parse? (s : String) : Option PipelineConfig := do ofJson? (← Json.parse? s)

/-- Writes a configuration. -/
def toJson (c : PipelineConfig) : String :=
  Json.writeObject [
    ("mode", c.mode.toJson),
    ("last_value_columns", Json.writeArray (c.lastValueColumns.map Json.writeString)),
    ("replay_existing", toString c.replayExisting),
    ("snapshot_adds", toString c.snapshotAdds)]

end PipelineConfig

namespace ConnectionConfig

/-- Reads a configuration. -/
def ofJson? (json : Json) : Option ConnectionConfig := do
  match ← json.fields? ["address", "poll_interval"] with
  | [address, interval] =>
    let standard : ConnectionConfig := {}
    return {
      address := ← orDefault standard.address Json.text? address
      pollInterval := ← orDefault standard.pollInterval (Json.below? (2 ^ 64)) interval }
  | _ => none

/-- Reads a configuration from text. -/
def parse? (s : String) : Option ConnectionConfig := do ofJson? (← Json.parse? s)

/-- Writes a configuration. -/
def toJson (c : ConnectionConfig) : String :=
  Json.writeObject [("address", Json.writeString c.address), ("poll_interval", toString c.pollInterval)]

end ConnectionConfig

end LiveTables
