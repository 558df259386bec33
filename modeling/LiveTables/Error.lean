import LiveTables.Value.Kind

/-!
# Errors of tables

An error names its cause; `TableError.message` is the only place that words it.
-/

namespace LiveTables

/-- What is wrong with the description of a table or a join. -/
inductive SchemaFault where
  /-- A name is empty. -/
  | emptyName
  /-- A name starts with neither a letter nor an underscore. -/
  | badStart (name : String)
  /-- A name holds a character outside letters, digits, underscores and points. -/
  | badCharacter (name : String)
  /-- A key column of a join has a kind without a hash. -/
  | unhashableKeys (join : String) (left right : Kind)
  /-- The key columns of a join differ in kind. -/
  | keyKindsDiffer (join : String) (left right : Kind)
  deriving DecidableEq

/-- An operation that the object it is applied to never allows. -/
inductive Misuse where
  | scaleTooLarge
  | malformedDecimal
  | readOnlyColumn
  | slotOutOfRange
  deriving DecidableEq

/-- An error of an operation on a value, a schema or a table. -/
inductive TableError where
  | typeMismatch (expected got : Kind)
  | columnNotFound (table column : String)
  | duplicateColumn (table column : String)
  | rowNotFound (table : String) (row : Nat)
  | invalidSchema (fault : SchemaFault)
  | invalidOperation (misuse : Misuse)
  deriving DecidableEq

/-- The wording of a schema fault. -/
def SchemaFault.message : SchemaFault → String
  | emptyName => "Name cannot be empty"
  | badStart name => s!"Name must start with letter or underscore: {name}"
  | badCharacter name => s!"Name contains invalid characters: {name}"
  | unhashableKeys join left right =>
    s!"join {join}: key columns must be hashable, got {left.name} and {right.name}"
  | keyKindsDiffer join left right => s!"join {join}: key types differ, {left.name} and {right.name}"

/-- The wording of a misuse. -/
def Misuse.message : Misuse → String
  | scaleTooLarge => "decimal scale exceeds 28"
  | malformedDecimal => "malformed decimal literal"
  | readOnlyColumn => "computed columns are read-only"
  | slotOutOfRange => "column slot out of range"

/-- The wording of an error. -/
def TableError.message : TableError → String
  | typeMismatch expected got => s!"Type mismatch: expected {expected.name}, got {got.name}"
  | columnNotFound table column => s!"Column {column} not found in table {table}"
  | duplicateColumn table column => s!"Column {column} already exists in table {table}"
  | rowNotFound table row => s!"Row {row} not found in table {table}"
  | invalidSchema fault => s!"Invalid schema: {fault.message}"
  | invalidOperation misuse => s!"Invalid operation: {misuse.message}"

end LiveTables
