import LiveTables.Delta.Decoder
import LiveTables.Delta.Encoder
import LiveTables.Network.World
import LiveTables.Pipeline
import LiveTables.Publisher
import LiveTables.Replica.Applier
import LiveTables.Session.Command
import LiveTables.Session.Report

/-!
# The state of a session

A session keeps its objects under names. Objects that others refer to also have numbers, so that they
can go on after their names were given to others (`Shelf`).

Tables live in the network. The name of a table holds it, and so does every replica, applier and
pipeline of it; observers hold none. An observer of events reads the table that has the name at that
moment, but an observer of a column the table to which it listens; and it writes to the encoder that it
was given, whatever has that encoder's name by then.
-/

namespace LiveTables

/-- Objects under names. -/
abbrev Names (α : Type) := List (String × α)

namespace Names

/-- Puts an object under a name, instead of the one that had it. -/
def put {α : Type} (names : Names α) (name : String) (a : α) : Names α :=
  (name, a) :: names.filter (·.1 ≠ name)

/-- Frees a name. -/
def remove {α : Type} (names : Names α) (name : String) : Names α := names.filter (·.1 ≠ name)

end Names

/-- Objects under numbers, and names for some of the numbers. -/
structure Shelf (α : Type) where
  items : Array α := #[]
  names : Names Nat := []

namespace Shelf

variable {α : Type}

/-- The number and the object of a name. -/
def find? (s : Shelf α) (name : String) : Option (Nat × α) := do
  let n ← s.names.lookup name
  return (n, ← s.items[n]?)

/-- Adds an object without a name. -/
def push (s : Shelf α) (a : α) : Shelf α := { s with items := s.items.push a }

/-- Gives an object a name. -/
def bind (s : Shelf α) (name : String) (n : Nat) : Shelf α := { s with names := s.names.put name n }

/-- Adds an object under a name. -/
def put (s : Shelf α) (name : String) (a : α) : Shelf α := (s.push a).bind name s.items.size

/-- Replaces an object. -/
def set (s : Shelf α) (n : Nat) (a : α) : Shelf α := { s with items := s.items.setIfInBounds n a }

/-- Frees a name. -/
def unbind (s : Shelf α) (name : String) : Shelf α := { s with names := s.names.remove name }

end Shelf

/-- An observer of the events of a table, with the number of times that each of its reactions has
fired. -/
structure EventWatcher where
  name : String
  table : String
  /-- Columns whose cells are read in the row of the event. -/
  read : List String := []
  /-- The encoder to which the event is written. -/
  encoder? : Option Nat := none
  reactions : List (Reaction × Nat) := []

/-- An observer: one that notes the events of a table and reacts to them, one that notes the writes
to a column, or a pipeline. -/
inductive Watcher where
  | events (watcher : EventWatcher)
  | cells (name column : String) (node : Nat)
  | pipeline (number : Nat)

/-- The batches that a pipeline sent, oldest first. -/
structure Inbox where
  batches : List (List Change) := []
  isOpen : Bool := true

/-- The messages that a publisher sent to a sink, oldest first. -/
structure Sink where
  messages : List (List UInt8) := []
  isOpen : Bool := true

/-- Where the batches of a pipeline go: an inbox, or a publisher. -/
inductive Outlet where
  | inbox (number : Nat)
  | publisher (number : Nat)

/-- A pipeline at work: the table that it holds, where it sends, and its registration. -/
structure PipelineSlot where
  pipeline : Pipeline
  node : Nat
  outlet : Outlet
  registration? : Option Registration := none

/-- All objects of a session but the tables, and what observers noted. -/
structure Session where
  tables : Names Nat := []
  weak : Names Nat := []
  tokens : Names Registration := []
  watchers : Array Watcher := #[]
  fieldMaps : Names FieldMap := []
  encoders : Shelf Encoder := {}
  decoders : Names Decoder := []
  replicas : Shelf (Nat × Replica) := {}
  appliers : Shelf (Nat × Applier) := {}
  pipelines : Shelf PipelineSlot := {}
  inboxes : Array Inbox := #[]
  /-- The inboxes of pipelines that keep their batches, by the names of the pipelines. -/
  collectors : Names Nat := []
  /-- The inboxes behind channels, by the names of the pipelines that send into them. -/
  channels : Names Nat := []
  publishers : Shelf Publisher := {}
  sinks : Shelf Sink := {}
  /-- What observers noted during the present command. -/
  log : List Report := []

namespace Session

/-- A session with its tables. -/
abbrev Desk := World Session

/-- Means to announce changes in a session. -/
abbrev Means := Dispatch Session

/-- What a command leads to. -/
abbrev Outcome := Desk × Report

/-- Changes what is not a table. -/
def modify (w : Desk) (f : Session → Session) : Desk := { w with outside := f w.outside }

/-- Notes something down. -/
def note (w : Desk) (line : Report) : Desk := modify w fun s => { s with log := s.log ++ [line] }

/-- The number of the table of a name. -/
def node? (w : Desk) (t : String) : Option Nat := w.outside.tables.lookup t

/-- The view of the table of a name. -/
def view? (w : Desk) (t : String) : Option TableView := (node? w t).bind w.network.view?

/-- The stored table of a name, with its number. -/
def stored? (w : Desk) (t : String) : Option (Nat × Table) := do
  let node ← node? w t
  return (node, ← w.network.table? node)

/-- The joined table of a name, with its number. -/
def joined? (w : Desk) (t : String) : Option (Nat × JoinedTable) := do
  let node ← node? w t
  return (node, ← w.network.joined? node)

/-- Answers a question about the table of a name. -/
def ask (w : Desk) (t : String) (question : TableView → Report) : Outcome :=
  match view? w t with
  | some view => (w, question view)
  | none => (w, .unknown t)

/-- Holds a table. -/
def hold (w : Desk) (node : Nat) : Desk := w.modifyNetwork (·.hold node)

/-- Ends one hold of a table. -/
def release (w : Desk) (node : Nat) : Desk := w.modifyNetwork (·.release node)

/-- Ends one hold of a table, if there is one. -/
def releaseAny (w : Desk) (node? : Option Nat) : Desk :=
  match node? with
  | some node => release w node
  | none => w

/-- Gives a name to a table, which holds it from then on; the table that had the name is let go. -/
def nameTable (w : Desk) (t : String) (node : Nat) : Desk :=
  let old := node? w t
  let w := modify (hold w node) fun s => { s with tables := s.tables.put t node }
  releaseAny w old

/-- Ends a registration, if there is one. -/
def unsubscribeAny (w : Desk) (r? : Option Registration) : Desk :=
  match r? with
  | some r => w.modifyNetwork (·.unsubscribe r)
  | none => w

/-- Keeps a registration under a name; the one that had the name ends. -/
def nameToken (w : Desk) (name : String) (r : Registration) : Desk :=
  let old := w.outside.tokens.lookup name
  unsubscribeAny (modify w fun s => { s with tokens := s.tokens.put name r }) old

/-- The table that a replica or an applier changes. -/
def host (d : Means) (node : Nat) : TableHost Desk where
  table w := (w.network.table? node).getD { name := "", columns := [] }
  commit w t signals := w.commit d node t signals

end Session

end LiveTables
