import LiveTables.FieldMap
import LiveTables.Json.Document

/-!
# Field maps as documents

A field map is written as an object from columns to fields, in ascending order of the columns, and
read from any such object that maps one to one.
-/

namespace LiveTables.FieldMap

/-- Writes a field map. -/
def toJson (m : FieldMap) : String :=
  Json.writeObject (m.byColumn.map fun (column, field) => (column, toString field))

/-- Reads a field map. Of members with one key the last counts. -/
def ofJson? (json : Json) : Option FieldMap := do
  let members ← json.members?
  let pairs ← members.mapM fun (column, item) => return (column, ← item.below? (2 ^ 32))
  (ofDictionary pairs).toOption

/-- Reads a field map from text. -/
def parse? (s : String) : Option FieldMap := do ofJson? (← Json.parse? s)

end LiveTables.FieldMap
