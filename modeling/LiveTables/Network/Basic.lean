import LiveTables.Join.Table
import LiveTables.Subject.Basic
import LiveTables.Table.Basic

/-!
# Networks of tables

A network holds stored tables and the tables joined from them, each under a number, together with
those who listen to them. Numbers are counted up, so that a joined table has a greater number than
its sources; the list of nodes has the newest first, and whatever a node refers to stands behind it.

A table lives while somebody holds it, or a living joined table has it as a source. When the last
hold ends, the table goes, with its registrations at its sources (`Network.sweep`).
-/

namespace LiveTables

/-- Who listens to a stream: a joined table to one of its sources, or an observer outside, to all
events of a table or to the writes of one column. -/
inductive Listener where
  | join (joined : Nat) (side : Side)
  | observer (id : Nat)
  | cells (id : Nat) (column : String)
  deriving DecidableEq

/-- The streams of a table: its events, and for each stored column the rows whose cell is written. -/
inductive Stream where
  | events
  | cells (column : String)
  deriving DecidableEq

/-- The stream on which a signal is announced. -/
def Signal.stream : Signal → Stream
  | cell column _ => .cells column
  | event _ => .events

/-- A table of either sort. -/
inductive Content where
  | stored (table : Table)
  | joined (table : JoinedTable)

/-- A table in a network, with the listeners of its streams. -/
structure Node where
  id : Nat
  content : Content
  events : Subject Listener := ∅
  cells : List (String × Subject Listener) := []

namespace Node

/-- The sources of a joined table. -/
def sources (n : Node) : List Nat :=
  match n.content with
  | .stored _ => []
  | .joined j => [j.left, j.right]

/-- The listeners of a stream. -/
def subject (n : Node) : Stream → Subject Listener
  | .events => n.events
  | .cells column => (n.cells.lookup column).getD ∅

/-- Changes the listeners of a stream. -/
def modifySubject (n : Node) (stream : Stream) (f : Subject Listener → Subject Listener) : Node :=
  match stream with
  | .events => { n with events := f n.events }
  | .cells column =>
    { n with cells := (column, f (n.subject stream)) :: n.cells.filter (·.1 ≠ column) }

/-- Ends the registrations of joined tables that are not among the given ones. -/
def keepJoins (n : Node) (living : List Nat) : Node :=
  { n with events := n.events.forget fun
      | .join joined _ => joined ∉ living
      | _ => false }

end Node

/-- The nodes, the newest first; the next number; and the numbers that are held, each as often as it
is. -/
structure Network where
  nodes : List Node := []
  nextId : Nat := 0
  held : List Nat := []

/-- A registration as its holder has it. -/
structure Registration where
  node : Nat
  stream : Stream
  id : Nat
  deriving DecidableEq

namespace Network

/-- The node of a number. -/
def node? (net : Network) (id : Nat) : Option Node := net.nodes.find? (·.id = id)

/-- What the node of a number holds. -/
def content? (net : Network) (id : Nat) : Option Content := (net.node? id).map Node.content

/-- The stored table of a number. -/
def table? (net : Network) (id : Nat) : Option Table :=
  match net.content? id with
  | some (.stored t) => some t
  | _ => none

/-- The joined table of a number. -/
def joined? (net : Network) (id : Nat) : Option JoinedTable :=
  match net.content? id with
  | some (.joined j) => some j
  | _ => none

/-- The view of a table among some nodes. The sources of a joined table are looked for behind it. -/
def viewAmong : List Node → Nat → Option TableView
  | [], _ => none
  | n :: older, id =>
    if n.id = id then
      match n.content with
      | .stored t => some t.view
      | .joined j =>
        match viewAmong older j.left, viewAmong older j.right with
        | some left, some right => some (j.view fun | .left => left | .right => right)
        | _, _ => none
    else viewAmong older id

/-- The view of a table. -/
def view? (net : Network) (id : Nat) : Option TableView := viewAmong net.nodes id

/-- The listeners of a stream of a table. -/
def subject (net : Network) (id : Nat) (stream : Stream) : Subject Listener :=
  match net.node? id with
  | some n => n.subject stream
  | none => ∅

/-- Changes a node. -/
def modify (net : Network) (id : Nat) (f : Node → Node) : Network :=
  { net with nodes := net.nodes.map fun n => if n.id = id then f n else n }

/-- Puts another table in the place of one. -/
def setContent (net : Network) (id : Nat) (content : Content) : Network :=
  net.modify id fun n => { n with content }

/-- Adds a table; answers its number. -/
def insert (net : Network) (content : Content) : Network × Nat :=
  ({ net with nodes := { id := net.nextId, content } :: net.nodes, nextId := net.nextId + 1 }, net.nextId)

/-- Registers a listener. -/
def subscribe (net : Network) (node : Nat) (stream : Stream) (listener : Listener) :
    Network × Registration :=
  (net.modify node (·.modifySubject stream fun s => (s.subscribe listener).1),
    { node, stream, id := ((net.subject node stream).subscribe listener).2 })

/-- Ends a registration. -/
def unsubscribe (net : Network) (r : Registration) : Network :=
  net.modify r.node (·.modifySubject r.stream (·.unsubscribe r.id))

/-- Adds a joined table, which from then on listens to its sources, the left one first. -/
def insertJoined (net : Network) (j : JoinedTable) : Network × Nat :=
  let (net, id) := net.insert (.joined j)
  let (net, _) := net.subscribe j.left .events (.join id .left)
  let (net, _) := net.subscribe j.right .events (.join id .right)
  (net, id)

/-! ## Holding tables -/

/-- The nodes that are held, wanted, or sources of such nodes in front of them. -/
def living (held : List Nat) : List Node → (wanted : List Nat) → List Node
  | [], _ => []
  | n :: older, wanted =>
    if n.id ∈ held ∨ n.id ∈ wanted then n :: living held older (n.sources ++ wanted)
    else living held older wanted

/-- Removes the tables that nobody holds. -/
def sweep (net : Network) : Network :=
  let nodes := living net.held net.nodes []
  if nodes.length = net.nodes.length then net
  else { net with nodes := nodes.map (·.keepJoins (nodes.map (·.id))) }

/-- Holds a table once more. -/
def hold (net : Network) (id : Nat) : Network := { net with held := id :: net.held }

/-- Ends one hold of a table. -/
def release (net : Network) (id : Nat) : Network := sweep { net with held := net.held.erase id }

end Network

end LiveTables
