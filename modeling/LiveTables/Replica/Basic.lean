import LiveTables.Change.Basic
import LiveTables.Table.Basic

/-!
# Replicas

A replica applies what happened to the rows of a remote table to a local one. The rows of the two are
numbered independently; the replica knows the local row of every remote row that it added.

A local table may stand alone or in a world of other tables and observers. A `TableHost` tells how it
is read there and how a change of it is put in place and announced; all of this module is written
for any host. `TableHost.alone` is the table by itself, with the signals that it announced. A table that
refuses a change is as it was, and is not put in place.
-/

namespace LiveTables

/-- How a table is read and changed in a world. -/
structure TableHost (σ : Type) where
  table : σ → Table
  commit : σ → Table → List Signal → σ

/-- A table by itself, with all it has announced, in order. -/
def TableHost.alone : TableHost (Table × List Signal) where
  table s := s.1
  commit s t signals := (t, s.2 ++ signals)

/-- The local row of each remote row that was added and not deleted. -/
structure Replica where
  rows : List (Nat × Nat) := []
  deriving DecidableEq

namespace Replica

variable {σ : Type}

/-- The local row of a remote row. -/
def localRow? (r : Replica) (remote : Nat) : Option Nat := r.rows.lookup remote

/-- The number of remote rows that have a local row. -/
def size (r : Replica) : Nat := r.rows.length

/-- Adds a local row for a remote row, unless there is one already. -/
def add (host : TableHost σ) (s : σ) (r : Replica) (remote : Nat) : σ × Replica × Nat :=
  match r.localRow? remote with
  | some row => (s, r, row)
  | none =>
    let (t, row, signals) := (host.table s).addRow
    (host.commit s t signals, { rows := (remote, row) :: r.rows }, row)

/-- Writes a cell of the local row; answers whether there is a local row. -/
def update (host : TableHost σ) (s : σ) (r : Replica) (remote : Nat) (column : String) (value : Value) :
    σ × Except TableError Bool :=
  match r.localRow? remote with
  | none => (s, .ok false)
  | some row =>
    match (host.table s).setValue column row value with
    | (t, .ok signals) => (host.commit s t signals, .ok true)
    | (_, .error e) => (s, .error e)

/-- Forgets the local row, and then deletes it; answers whether there was one. -/
def delete (host : TableHost σ) (s : σ) (r : Replica) (remote : Nat) :
    σ × Replica × Except TableError Bool :=
  match r.localRow? remote with
  | none => (s, r, .ok false)
  | some row =>
    let r := { rows := r.rows.filter (·.1 ≠ remote) }
    match (host.table s).deleteRow row with
    | (t, .ok signals) => (host.commit s t signals, r, .ok true)
    | (_, .error e) => (s, r, .error e)

/-- Applies a change; answers whether it found its row. -/
def applyChange (host : TableHost σ) (s : σ) (r : Replica) :
    Change → σ × Replica × Except TableError Bool
  | .add row =>
    let (s, r, _) := r.add host s row
    (s, r, .ok true)
  | .update row column value =>
    let (s, hit) := r.update host s row column value
    (s, r, hit)
  | .delete row => r.delete host s row

/-- Applies changes up to the first that fails; answers the number of those that found their row. -/
def applyBatch (host : TableHost σ) :
    σ → Replica → List Change → σ × Replica × Except TableError Nat
  | s, r, [] => (s, r, .ok 0)
  | s, r, change :: rest =>
    match r.applyChange host s change with
    | (s, r, .error e) => (s, r, .error e)
    | (s, r, .ok hit) =>
      let (s, r, count) := applyBatch host s r rest
      (s, r, count.map fun n => if hit then n + 1 else n)

/-- The replica of a table in the notation for inspection. -/
def inspect (r : Replica) (t : Table) : String :=
  Text.inspect "TableReplica" [("table", Text.quoted t.name), ("rows", toString r.size)]

end Replica

end LiveTables
