import LiveTables.Error
import LiveTables.Wire.Reader

/-!
# Errors of replication

What can go wrong between the two ends of a stream: its bytes, the table they are applied to, or the
connection.
-/

namespace LiveTables

/-- Why replication stopped. -/
inductive ReplicationError where
  | decode (error : Wire.WireError)
  | table (error : TableError)
  | disconnected
  deriving DecidableEq

/-- The wording of an error. -/
def ReplicationError.message : ReplicationError → String
  | decode error => s!"corrupt delta stream: {error.message}"
  | table error => s!"table error: {error.message}"
  | disconnected => "peer disconnected"

end LiveTables
