import LiveTables.Session.State

/-!
# Commands on replicas

A replica holds its table, and changes it through the means of the session, so that the observers of
the table hear of what the replica does.
-/

namespace LiveTables.Session

/-- Does something with the replica of a name; the function gets its number, its host and itself. -/
def withReplica (d : Means) (w : Desk) (name : String)
    (act : TableHost Desk → Replica → Desk × Replica × Report) : Outcome :=
  match w.outside.replicas.find? name with
  | none => (w, .unknown name)
  | some (n, node, r) =>
    let (w, r, report) := act (host d node) r
    (modify w fun s => { s with replicas := s.replicas.set n (node, r) }, report)

/-- Runs a command on replicas. -/
def runReplica (d : Means) (here : Nat) (w : Desk) : ReplicaCommand → Outcome
  | .create t name =>
    match stored? w t with
    | none => (w, .unknown t)
    | some (node, _) =>
      let old := (w.outside.replicas.find? name).map (·.2.1)
      let w := modify (hold w node) fun s => { s with replicas := s.replicas.put name (node, {}) }
      (releaseAny w old, .nothing)
  | .add name row => withReplica d w name fun host r =>
    let (w, r, row) := r.add host w (row.resolve here)
    (w, r, .count row)
  | .update name row column value => withReplica d w name fun host r =>
    let (w, hit) := r.update host w (row.resolve here) column value
    (w, r, .ofExcept .flag hit)
  | .delete name row => withReplica d w name fun host r =>
    let (w, r, hit) := r.delete host w (row.resolve here)
    (w, r, .ofExcept .flag hit)
  | .batch name changes => withReplica d w name fun host r =>
    let (w, r, hits) := r.applyBatch host w changes
    (w, r, .ofExcept .count hits)
  | .info name rows => withReplica d w name fun host r =>
    let table := host.table w
    (w, r, .record [("local", .list (rows.map fun row => .count? (r.localRow? row))),
      ("len", .count r.size), ("empty", .flag (r.size = 0)), ("table", .text table.name),
      ("debug", .text (r.inspect table))])

end LiveTables.Session
