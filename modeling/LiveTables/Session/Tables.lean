import LiveTables.Session.State

/-!
# Commands on tables
-/

namespace LiveTables.Session

/-- Every live row of a table with its cells; for a joined table also with the rows of its sources. -/
def dump (w : Desk) (node : Nat) (view : TableView) : Report :=
  .list (view.rows.map fun row =>
    let cells := Report.list ((view.cells view.columnIds row).map .cell)
    match w.network.joined? node with
    | some j => .list [.count row, .list [.count? (j.engine.sourceRow? .left row),
        .count? (j.engine.sourceRow? .right row)], cells]
    | none => .list [.count row, cells])

/-- The rows of the table of a name, if it has one. -/
def dump? (w : Desk) (t : String) : Report :=
  match node? w t, view? w t with
  | some node, some view => dump w node view
  | _, _ => .nothing

/-- The sort of a table and its text for inspection. -/
def describe (net : Network) (node : Nat) : Report × String :=
  match net.content? node with
  | some (.stored t) => (.list [.text "table", .count t.columns.length], t.inspect)
  | some (.joined j) =>
    match net.view? j.left, net.view? j.right with
    | some left, some right => (.texts [j.engine.kind.name, left.name, right.name],
        j.inspect fun | .left => left | .right => right)
    | _, _ => (.nothing, "")
  | none => (.nothing, "")

/-- All about a table. -/
def info (w : Desk) (node : Nat) (view : TableView) : Report :=
  let (sort, text) := describe w.network node
  .record [("name", .text view.name), ("columns", .texts view.columnIds),
    ("types", .list (view.columnIds.map fun c => .ofExcept (fun k => .text k.name) (view.columnKind c))),
    ("row_count", .count view.rowCount), ("rows", .counts view.rows), ("kind", sort),
    ("subscribers", .count (w.network.subject node .events).size), ("debug", .text text)]

/-- Registers a computed column at a table of either sort. -/
def addComputed (net : Network) (node : Nat) (column : ComputedColumn) : Except TableError Network :=
  match net.content? node with
  | some (.stored t) =>
    let (t, answer) := t.addComputed column
    answer.map fun () => net.setContent node (.stored t)
  | some (.joined j) =>
    let (j, answer) := j.addComputed column
    answer.map fun () => net.setContent node (.joined j)
  | none => .ok net

/-- Joins two tables under a name. -/
def join (w : Desk) (t : String) (left right : Nat) (spec : JoinSpec) : Outcome :=
  match w.network.view? left, w.network.view? right with
  | some leftView, some rightView =>
    match JoinedTable.ofSources spec left right leftView rightView with
    | .error e => (w, .tableError e)
    | .ok j =>
      let (network, node) := w.network.insertJoined j
      (nameTable { w with network } t node, .done)
  | _, _ => (w, .unknown t)

/-- Puts a changed table in its place, or reports why there is none. -/
def commitResult (d : Means) (w : Desk) (node : Nat) : Table × Except TableError (List Signal) → Outcome
  | (t, .ok signals) => (w.commit d node t signals, .done)
  | (_, .error e) => (w, .tableError e)

/-- Runs a command on tables. -/
def runTable (d : Means) (here : Nat) (w : Desk) : TableCommand → Outcome
  | .create t name columns =>
    match Schema.ofRequests name columns with
    | .error e => (w, .tableError e)
    | .ok schema =>
      let (network, node) := w.network.insert (.stored (.ofSchema schema))
      (nameTable { w with network } t node, .done)
  | .join t left right spec =>
    match node? w left, node? w right with
    | some l, some r => join w t l r spec
    | _, _ => (w, .unknown t)
  | .computed t column =>
    match node? w t with
    | none => (w, .unknown t)
    | some node =>
      match addComputed w.network node column with
      | .ok network => ({ w with network }, .done)
      | .error e => (w, .tableError e)
  | .addRow t =>
    match stored? w t with
    | none => (w, .unknown t)
    | some (node, table) =>
      let (table, row, signals) := table.addRow
      (w.commit d node table signals, .count row)
  | .set t column row value =>
    match stored? w t with
    | none => (w, .unknown t)
    | some (node, table) => commitResult d w node (table.setValue column (row.resolve here) value)
  | .delete t row =>
    match stored? w t with
    | none => (w, .unknown t)
    | some (node, table) => commitResult d w node (table.deleteRow (row.resolve here))
  | .get t column row => ask w t fun view => .cell (view.get column (row.resolve here))
  | .getAs t column row kind => ask w t fun view =>
    .cell (view.get column (row.resolve here) >>= (·.readAs kind))
  | .dump t =>
    match node? w t with
    | none => (w, .unknown t)
    | some node => ask w t (dump w node)
  | .info t =>
    match node? w t with
    | none => (w, .unknown t)
    | some node => ask w t (info w node)
  | .contains t row => ask w t fun view => .flag (view.contains (row.resolve here))
  | .columnKind t column => ask w t fun view =>
    .ofExcept (fun k => .text k.name) (view.columnKind column)
  | .sourceRow t column row =>
    match joined? w t with
    | none => (w, .unknown t)
    | some (_, j) => (w, .ofExcept .count? (j.sourceRow column (row.resolve here)))
  | .sides t row =>
    match joined? w t with
    | none => (w, .unknown t)
    | some (_, j) => (w, .list [.count? (j.engine.sourceRow? .left (row.resolve here)),
        .count? (j.engine.sourceRow? .right (row.resolve here))])
  | .replay t => ask w t fun view => .list (view.replay.map .event)
  | .drop t =>
    (releaseAny (modify w fun s => { s with tables := s.tables.remove t }) (node? w t), .nothing)
  | .weak t reference =>
    match stored? w t with
    | none => (w, .unknown t)
    | some (node, _) => (modify w fun s => { s with weak := s.weak.put reference node }, .nothing)
  | .upgrade reference t? =>
    match w.outside.weak.lookup reference with
    | none => (w, .unknown reference)
    | some node =>
      match w.network.table? node with
      | none => (w, .nothing)
      | some table =>
        let same : Report := match t?.bind (stored? w) with
          | none => .nothing
          | some (other, _) => .flag (other = node)
        (w, .record [("rows", .count table.rowCount), ("same", same)])

end LiveTables.Session
