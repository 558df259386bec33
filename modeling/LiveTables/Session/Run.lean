import LiveTables.Session.Pipelines
import LiveTables.Session.Streams
import LiveTables.Session.Tables

/-!
# Running a session

Commands are run one after the other. What observers note while a command runs belongs to its result.

Announcements nest while observers react. A nested one is due either to a joined table, which has a
greater number than its source, or to a reaction that fires; and there are at most as many tables and
firings as `commandsWeight` tells. So a depth can be given from the start that is never used up
(`Session.depth`).
-/

namespace LiveTables.Session

/-- What an observer notes beside an event: the cells that it reads, and the number of bytes that
wait after the event was written to its encoder. It notes either only while its table has its name. -/
def noteEvent (w : Desk) (o : EventWatcher) (e : Event) : Desk :=
  let line := [("sub", Report.text o.name), ("update", .event e)]
  match view? w o.table with
  | none => note w (.record line)
  | some view =>
    let read := if o.read.isEmpty then []
      else [("read", Report.list ((view.cells o.read e.row).map .cell))]
    match o.encoder?.bind fun n => w.outside.encoders.items[n]?.map (n, ·) with
    | none => note w (.record (line ++ read))
    | some (n, encoder) =>
      let (encoder, result) := encoder.event view e
      let w := modify w fun s => { s with encoders := s.encoders.set n encoder }
      note w (.record (line ++ read ++
        [("encoded", .ofExcept (fun _ => .count encoder.pending.length) result)]))

/-- Whether a trigger matches an event. -/
def matches? (t : Trigger) (e : Event) : Bool := t.action?.all (· = e.action) && t.column?.all e.touches

/-- The number of the encoder to which an observer is to write: none if it names none, an error if
there is no encoder of that name. -/
def encoderOf (w : Desk) : Option String → Except Report (Option Nat)
  | none => .ok none
  | some name =>
    match w.outside.encoders.find? name with
    | some (n, _) => .ok (some n)
    | none => .error (.unknown name)

/-- Registers an observer of a table, from the table's present state on or not, and keeps its
registration under its name. -/
def subscribe (d : Means) (w : Desk) (node : Nat) (o : EventWatcher) (replay : Bool) : Outcome :=
  let observer := w.outside.watchers.size
  let w := modify w fun s => { s with watchers := s.watchers.push (.events o) }
  let (w, r) := if replay then w.subscribeWithReplay d node observer else w.subscribe node observer
  (nameToken w o.name r, .count r.id)

/-- Registers an observer of a column of a stored table: at the column, or for a computed column at
the events of the table. -/
def subscribeCells (w : Desk) (node : Nat) (table : Table) (column name : String) : Outcome :=
  let stream? : Option Stream :=
    if (table.column? column).isSome then some (.cells column)
    else if (table.computed.column? column).isSome then some .events
    else none
  match stream? with
  | none => (w, .tableError (.columnNotFound table.name column))
  | some stream =>
    let observer := w.outside.watchers.size
    let w := modify w fun s => { s with watchers := s.watchers.push (.cells name column node) }
    let (network, r) := w.network.subscribe node stream (.cells observer column)
    (nameToken { w with network } name r, .done)

/-- Runs a command; `here` is the row of the event to which it reacts. -/
def exec (d : Means) (here : Nat) (w : Desk) : Command → Outcome
  | .table c => runTable d here w c
  | .replica c => runReplica d here w c
  | .codec c => runCodec d here w c
  | .pipeline c => runPipeline d w c
  | .publisher c => runPublisher w c
  | .subscribe t name options reactions =>
    match node? w t, encoderOf w options.encoder? with
    | none, _ => (w, .unknown t)
    | some _, .error report => (w, report)
    | some node, .ok encoder? =>
      subscribe d w node { name, table := t, read := options.read, encoder?,
                           reactions := reactions.map (·, 0) } options.replay
  | .subscribeCells t column name =>
    match stored? w t with
    | none => (w, .unknown t)
    | some (node, table) => subscribeCells w node table column name
  | .unsubscribe name =>
    let old := w.outside.tokens.lookup name
    (unsubscribeAny (modify w fun s => { s with tokens := s.tokens.remove name }) old, .nothing)

/-- Fires the reaction at a place in an observer's list, if it matches the event and has firings left.
A firing counts before its commands run, and the result of each is noted. -/
def react (d : Means) (observer : Nat) (e : Event) (w : Desk) (place : Nat) : Desk :=
  match w.outside.watchers[observer]? with
  | some (.events o) =>
    match o.reactions[place]? with
    | none => w
    | some (reaction, fired) =>
      if matches? reaction.1 e && fired < reaction.1.limit then
        let counted := { o with reactions := o.reactions.set place (reaction, fired + 1) }
        let w := modify w fun s =>
          { s with watchers := s.watchers.setIfInBounds observer (.events counted) }
        reaction.2.foldl (fun w command =>
          let (w, report) := exec d e.row w command
          note w (.record [("by", .text o.name), ("result", report)])) w
      else w
  | _ => w

/-- What an observer does with an event: it notes it and reacts, or passes it into its pipeline. -/
def onEvent (d : Means) (w : Desk) (observer : Nat) (e : Event) : Desk :=
  match w.outside.watchers[observer]? with
  | some (.events o) =>
    (List.range o.reactions.length).foldl (react d observer e) (noteEvent w o e)
  | some (.pipeline n) => observePipeline w n e
  | _ => w

/-- What an observer of a column does with a write: it notes the row and what the cell holds now. It
reads the table to which it listens, whatever has the table's name by then. -/
def onCell (w : Desk) (observer row : Nat) : Desk :=
  match w.outside.watchers[observer]? with
  | some (.cells name column node) =>
    let now := match w.network.view? node with
      | some view => Report.cell (view.get column row)
      | none => .nothing
    note w (.record [("sub", .text name), ("row", .count row), ("now", now)])
  | _ => w

/-- The observers of a session. -/
def observers : Outside Session where
  onEvent := onEvent
  onCell _ := onCell

/-- A depth of announcements that a program does not use up. -/
def depth (commands : List Command) : Nat :=
  (commandsWeight commands + 1) * (commandsWeight commands + 2)

/-- The result of a command: what it answers, what observers noted, and the rows of some tables
afterwards. -/
structure Step where
  answer : Report
  events : List Report
  state : List (String × Report)

/-- Runs commands in a fresh session, watching the tables of some names. -/
def run (watched : List String) (commands : List Command) : List Step :=
  let d := World.dispatch observers (depth commands)
  (commands.foldl (fun (acc : Desk × List Step) command =>
    let (w, answer) := exec d 0 (modify acc.1 fun s => { s with log := [] }) command
    (w, acc.2 ++ [⟨answer, w.outside.log, watched.map fun t => (t, dump? w t)⟩]))
    (⟨{}, {}⟩, [])).2

end LiveTables.Session
