import LiveTables.Network.Basic

/-!
# Announcing changes

A world is a network of tables together with whatever its observers outside keep. A write changes its
table at once, and then announces what it did. An announcement goes to each listener in turn, and is
finished with one before it comes to the next: a joined table brings its rows up to date and announces
that in turn, and an observer outside does as it likes, which may be to read, to subscribe, to
unsubscribe and to write.

So announcements nest. `dispatch` allows them a given depth. What an observer does is a parameter
(`Outside`), which receives the means to announce one level deeper (`Dispatch`).
-/

namespace LiveTables

/-- A network of tables, and what is outside it. -/
structure World (ω : Type) where
  network : Network
  outside : ω

/-- The means to announce a signal of a table to its listeners, and to hand an event to a single
observer. -/
structure Dispatch (ω : Type) where
  announce : World ω → (node : Nat) → Signal → World ω
  inform : World ω → (observer : Nat) → Event → World ω

/-- What the observers outside do with an event, and with a row of a column whose cell was written. -/
structure Outside (ω : Type) where
  onEvent : Dispatch ω → World ω → (observer : Nat) → Event → World ω
  onCell : Dispatch ω → World ω → (observer row : Nat) → World ω

namespace World

variable {ω : Type}

/-- Changes the network. -/
def modifyNetwork (w : World ω) (f : Network → Network) : World ω := { w with network := f w.network }

/-- Does something while a table is held. -/
def holding (w : World ω) (node : Nat) (act : World ω → World ω) : World ω :=
  (act (w.modifyNetwork (·.hold node))).modifyNetwork (·.release node)

/-- Announces events of a table, one after the other. -/
def announceAll (d : Dispatch ω) (w : World ω) (node : Nat) (events : List Event) : World ω :=
  events.foldl (fun w e => d.announce w node (.event e)) w

/-! ## Joined tables -/

/-- Announces that columns of a joined row changed. -/
def announceUpdate (d : Dispatch ω) (w : World ω) (joined row : Nat) (columns : List String) : World ω :=
  match w.network.joined? joined with
  | none => w
  | some j => announceAll d w joined (j.updateEvents row columns)

/-- Announces a change of a joined row. A fresh row is updated in `all` columns. -/
def announceChange (d : Dispatch ω) (joined : Nat) (all : List String) (sideIds : Side → List String)
    (w : World ω) : JoinChange → World ω
  | .added row => announceAll d w joined [.added row, .updated row all]
  | .updated row side => announceUpdate d w joined row (sideIds side)
  | .deleted row => announceAll d w joined [.deleted row]

/-- Announces changes of joined rows, in order. -/
def publish (d : Dispatch ω) (w : World ω) (joined : Nat) (changes : List JoinChange) : World ω :=
  match w.network.joined? joined with
  | none => w
  | some j => changes.foldl (announceChange d joined j.columnIds j.sideIds) w

/-- Puts changed links into a joined table and announces what changed. -/
def commitLinks (d : Dispatch ω) (w : World ω) (joined : Nat) (j : JoinedTable)
    (result : JoinEngine × List JoinChange) : World ω :=
  publish d (w.modifyNetwork (·.setContent joined (.joined { j with engine := result.1 }))) joined result.2

/-- The current key of a source row. -/
def keyOf (w : World ω) (j : JoinedTable) (side : Side) (row : Nat) : Option Value :=
  (w.network.view? (j.source side)).bind fun source => (source.get (j.key side) row).toOption

/-- Links a source row under its current key, if the key can be read. Answers the joined rows whose
columns of the side were announced on the way. -/
def relink (d : Dispatch ω) (w : World ω) (joined : Nat) (j : JoinedTable) (side : Side) (row : Nat) :
    World ω × List Nat :=
  match w.keyOf j side row with
  | none => (w, [])
  | some key =>
    let result := j.engine.link side row key
    (commitLinks d w joined j result, result.2.filterMap fun
      | .added r => some r
      | .updated r s => if s = side then some r else none
      | .deleted _ => none)

/-- Announces changed columns of a source row in the joined rows where it stands, but for those rows
that were announced already. -/
def forward (d : Dispatch ω) (w : World ω) (joined : Nat) (side : Side) (row : Nat)
    (columns : List String) (announced : List Nat) : World ω :=
  match w.network.joined? joined with
  | none => w
  | some j =>
    ((j.engine.joinedRowsOf side row).filter (· ∉ announced)).foldl
      (fun w r => announceUpdate d w joined r columns) w

/-- What a joined table does with an event of a source. An added row is linked, a deleted one
unlinked. An updated row is linked anew if its key was touched, and then its other columns are
announced. -/
def onSourceEvent (d : Dispatch ω) (w : World ω) (joined : Nat) (j : JoinedTable) (side : Side)
    (e : Event) : World ω :=
  match e.action with
  | .add => (relink d w joined j side e.row).1
  | .delete => commitLinks d w joined j (j.engine.unlink side e.row)
  | .update =>
    let (w, announced) := if e.touches (j.key side) then relink d w joined j side e.row else (w, [])
    let columns := j.plainColumns side e.columns
    if columns.isEmpty then w else forward d w joined side e.row columns announced

/-! ## Listeners -/

/-- What a listener does with a signal. One who listens to a column by way of the events of the table
takes the updates that name it. -/
def respond (o : Outside ω) (d : Dispatch ω) (signal : Signal) (w : World ω) : Listener → World ω
  | .join joined side =>
    match signal, w.network.joined? joined with
    | .event e, some j => w.holding joined fun w => onSourceEvent d w joined j side e
    | _, _ => w
  | .observer id =>
    match signal with
    | .event e => o.onEvent d w id e
    | .cell _ _ => w
  | .cells id column =>
    match signal with
    | .event e => if e.action = .update ∧ e.touches column then o.onCell d w id e.row else w
    | .cell _ row => o.onCell d w id row

/-- Announces signals with announcements nested in each other down to a given depth. -/
def dispatch (o : Outside ω) : (depth : Nat) → Dispatch ω
  | 0 => { announce := fun w _ _ => w, inform := fun w _ _ => w }
  | depth + 1 =>
    { announce := fun w node signal =>
        Subject.deliver (fun w => w.network.subject node signal.stream)
          (fun w entry => respond o (dispatch o depth) signal w entry.2) w
      inform := fun w observer e => o.onEvent (dispatch o depth) w observer e }

/-! ## Writing and subscribing -/

/-- Puts a changed table in its place and announces the signals of the change. -/
def commit (d : Dispatch ω) (w : World ω) (node : Nat) (t : Table) (signals : List Signal) : World ω :=
  w.holding node fun w =>
    signals.foldl (fun w s => d.announce w node s) (w.modifyNetwork (·.setContent node (.stored t)))

/-- Registers an observer at the events of a table. -/
def subscribe (w : World ω) (node observer : Nat) : World ω × Registration :=
  let (network, r) := w.network.subscribe node .events (.observer observer)
  ({ w with network }, r)

/-- Hands an observer the events that bring it up to date, and then registers it. -/
def subscribeWithReplay (d : Dispatch ω) (w : World ω) (node observer : Nat) : World ω × Registration :=
  match w.network.view? node with
  | none => w.subscribe node observer
  | some t =>
    let w := w.modifyNetwork (·.hold node)
    let w := t.replay.foldl (fun w e => d.inform w observer e) w
    let (w, r) := w.subscribe node observer
    (w.modifyNetwork (·.release node), r)

end World

end LiveTables
