import LiveTables.Delta.Record
import LiveTables.Replica.Basic

/-!
# Applying delta records

The receiving end of a stream reads each field by the kind of the local column that it is mapped to.
Fields that have no column, or hold nothing that fits it, are left out and counted.
-/

namespace LiveTables

/-- What became of a record: the local row it was for, and the number of fields that were written
and left out. -/
structure Applied where
  localRow? : Option Nat := none
  applied : Nat := 0
  skipped : Nat := 0
  deriving DecidableEq

/-- A replica with the field map of its stream. -/
structure Applier where
  replica : Replica := {}
  fields : FieldMap
  deriving DecidableEq

namespace Applier

variable {σ : Type}

/-- The column and the value of a field, if it has a column whose kind it fits. -/
def read? (a : Applier) (t : Table) (field : Nat × Wire.Payload) : Option (String × Value) := do
  let column ← a.fields.column? field.1
  let kind ← (t.columnKind column).toOption
  return (column, ← field.2.toValue? kind)

/-- Writes a field to the local row of a remote one; answers whether it was written. -/
def writeField (host : TableHost σ) (a : Applier) (remote : Nat) (s : σ) (field : Nat × Wire.Payload) :
    σ × Bool :=
  match a.read? (host.table s) field with
  | none => (s, false)
  | some (column, value) =>
    match a.replica.update host s remote column value with
    | (s, .ok _) => (s, true)
    | (s, .error _) => (s, false)

/-- Writes fields one after the other, and counts those that were written and those that were not. -/
def writeFields (host : TableHost σ) (a : Applier) (remote : Nat) : σ → List (Nat × Wire.Payload) →
    σ × Nat × Nat
  | s, [] => (s, 0, 0)
  | s, field :: rest =>
    let (s, written) := a.writeField host remote s field
    let (s, applied, skipped) := writeFields host a remote s rest
    if written then (s, applied + 1, skipped) else (s, applied, skipped + 1)

/-- Applies a record. -/
def apply (host : TableHost σ) (s : σ) (a : Applier) (record : Record) :
    σ × Applier × Except TableError Applied :=
  match record.action with
  | .add =>
    let (s, replica, row) := a.replica.add host s record.row
    (s, { a with replica },
      .ok { localRow? := some row, skipped := record.skipped + record.fields.length })
  | .delete =>
    let localRow? := a.replica.localRow? record.row
    let (s, replica, hit) := a.replica.delete host s record.row
    (s, { a with replica }, hit.map fun _ => { localRow? })
  | .update =>
    match a.replica.localRow? record.row with
    | none => (s, a, .ok { skipped := record.skipped + record.fields.length })
    | some row =>
      let (s, applied, skipped) := a.writeFields host record.row s record.fields
      (s, a, .ok { localRow? := some row, applied, skipped := record.skipped + skipped })

/-- Applies records one after the other, whatever becomes of each. -/
def applyAll (host : TableHost σ) : σ → Applier → List Record →
    σ × Applier × List (Except TableError Applied)
  | s, a, [] => (s, a, [])
  | s, a, record :: rest =>
    let (s, a, result) := a.apply host s record
    let (s, a, results) := applyAll host s a rest
    (s, a, result :: results)

/-- The applier of a table in the notation for inspection. -/
def inspect (a : Applier) (t : Table) : String :=
  Text.inspect "DeltaApplier" [("replica", a.replica.inspect t), ("fields", toString a.fields.size)]

end Applier

end LiveTables
