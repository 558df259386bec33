import LiveTables.Change.Basic
import LiveTables.Computed.Basic
import LiveTables.Config.Pipeline
import LiveTables.Event
import LiveTables.FieldMap
import LiveTables.Join.Table
import LiveTables.Schema

/-!
# Commands of a session

A session works on objects under names: tables, observers, replicas, encoders and the like. A command
names its objects and says what to do. An observer may answer events with commands of its own, which
may speak of the row of the event (`RowRef.event`).
-/

namespace LiveTables

/-- A row: a given one, or in the reaction of an observer that of the event. -/
inductive RowRef where
  | fixed (row : Nat)
  | event

/-- The row meant while `here` is the row of the event. -/
def RowRef.resolve (here : Nat) : RowRef → Nat
  | fixed row => row
  | event => here

/-- What can be done with tables. -/
inductive TableCommand where
  | create (t name : String) (columns : List ColumnRequest)
  | join (t left right : String) (spec : JoinSpec)
  | computed (t : String) (column : ComputedColumn)
  | addRow (t : String)
  | set (t column : String) (row : RowRef) (value : Value)
  | delete (t : String) (row : RowRef)
  | get (t column : String) (row : RowRef)
  | getAs (t column : String) (row : RowRef) (kind : Kind)
  | dump (t : String)
  | info (t : String)
  | contains (t : String) (row : RowRef)
  | columnKind (t column : String)
  | sourceRow (t column : String) (row : RowRef)
  | sides (t : String) (row : RowRef)
  | replay (t : String)
  /-- Drops the name of a table. -/
  | drop (t : String)
  /-- Keeps a reference that does not hold the table. -/
  | weak (t reference : String)
  /-- Looks whether the table of a reference lives, and whether it is the one of another name. -/
  | upgrade (reference : String) (t? : Option String)

/-- What can be done with replicas. -/
inductive ReplicaCommand where
  | create (t replica : String)
  | add (replica : String) (row : RowRef)
  | update (replica : String) (row : RowRef) (column : String) (value : Value)
  | delete (replica : String) (row : RowRef)
  | batch (replica : String) (changes : List Change)
  | info (replica : String) (rows : List Nat)

/-- Where the bytes for an applier come from. -/
inductive ByteSource where
  | bytes (bytes : List UInt8)
  | encoder (encoder : String)
  | sink (sink : String)

/-- What can be done with the two ends of a stream. -/
inductive CodecCommand where
  | fields (map : String) (source : List String ⊕ List (String × Nat))
  | encoder (encoder map : String)
  | add (encoder : String) (row : RowRef)
  | delete (encoder : String) (row : RowRef)
  | update (encoder : String) (row : RowRef) (values : List (String × Value))
  | event (encoder t : String) (action : Action) (row : RowRef) (columns : List String)
  | replay (encoder t : String)
  | batch (encoder : String) (changes : List Change)
  | info (encoder : String)
  | take (encoder : String)
  | decoder (decoder : String)
  | applier (applier t map : String)
  | apply (applier : String) (source : ByteSource) (decoder? : Option String)
  | applierInfo (applier : String) (rows : List Nat)

/-- Where a pipeline sends its batches: to an inbox of its own, which may be a channel whose receiver
can hang up, or to a publisher. -/
inductive Target where
  | channel
  | inline
  | publisher (publisher : String)

/-- What can be done with pipelines. -/
inductive PipelineCommand where
  | create (t pipeline : String) (config : PipelineConfig) (target : Target)
  | flush (pipeline : String)
  | pending (pipeline : String)
  | drop (pipeline : String)
  | receive (pipeline : String) (replica? : Option String)
  | hangUp (pipeline : String)

/-- What can be done with publishers and their sinks. -/
inductive PublisherCommand where
  | create (publisher map : String)
  | publish (publisher : String) (changes : List Change)
  | info (publisher : String)
  | sink (publisher sink : String)
  | deadSink (publisher : String)
  | receive (sink : String)
  | dropSink (sink : String)

/-- How an observer watches a table: from its present state on or not, and what it notes beside each
event. -/
structure WatchOptions where
  replay : Bool := false
  /-- Columns whose cells are read in the row of the event. -/
  read : List String := []
  /-- An encoder to which the event is written. -/
  encoder? : Option String := none

/-- When a reaction fires: on which action, on which column, and how often. -/
structure Trigger where
  action? : Option Action := none
  column? : Option String := none
  limit : Nat := 1

/-- A command. -/
inductive Command where
  | table (command : TableCommand)
  | replica (command : ReplicaCommand)
  | codec (command : CodecCommand)
  | pipeline (command : PipelineCommand)
  | publisher (command : PublisherCommand)
  | subscribe (t observer : String) (options : WatchOptions) (reactions : List (Trigger × List Command))
  | subscribeCells (t column observer : String)
  | unsubscribe (observer : String)

/-- A reaction of an observer. -/
abbrev Reaction := Trigger × List Command

mutual
/-- A bound on the number of commands that a command can bring about, itself included: reactions fire
up to their limits, and each firing runs commands in turn. -/
def Command.weight : Command → Nat
  | .subscribe _ _ _ reactions => 1 + reactionsWeight reactions
  | _ => 1

/-- A bound on the number of firings and commands that reactions can bring about. -/
def reactionsWeight : List (Trigger × List Command) → Nat
  | [] => 0
  | (trigger, commands) :: rest => trigger.limit * (1 + commandsWeight commands) + reactionsWeight rest

/-- A bound on the number of commands that a program can bring about. -/
def commandsWeight : List Command → Nat
  | [] => 0
  | command :: rest => command.weight + commandsWeight rest
end

end LiveTables
