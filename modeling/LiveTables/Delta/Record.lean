import LiveTables.Event
import LiveTables.FieldMap
import LiveTables.Wire.Payload

/-!
# Delta records

A delta stream is a list of records, one for each change of a row. On the wire a record is a group
whose number tells the action; inside stand the row under `rowField` and the fields of the columns.
-/

namespace LiveTables

/-- The number of the group that holds a record of the action. -/
def Action.group : Action → Nat
  | add => 1
  | update => 2
  | delete => 3

/-- The action whose records have the group number. -/
def Action.ofGroup? : Nat → Option Action
  | 1 => some add
  | 2 => some update
  | 3 => some delete
  | _ => none

/-- A change of a row as it came from a stream. The fields are not yet read as values; fields that
cannot be are only counted. -/
structure Record where
  action : Action
  row : Nat
  fields : List (Nat × Wire.Payload) := []
  skipped : Nat := 0
  deriving DecidableEq

/-- The bytes of a record without skipped fields. -/
def Record.toBytes (r : Record) : List UInt8 :=
  Wire.tag r.action.group .startGroup ++ Wire.tag rowField .varint ++ Wire.varint r.row ++
    r.fields.flatMap (fun (number, payload) => Wire.field number payload) ++
    Wire.tag r.action.group .endGroup

end LiveTables
