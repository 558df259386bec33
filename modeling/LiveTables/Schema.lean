import LiveTables.Value.Basic

/-!
# Schemas

A schema is a named list of columns. It is built one column at a time, and every addition is checked:
the name, then whether the column is new, then the kind of its default. A column that is given
together with its default value has the default checked first.
-/

namespace LiveTables

/-- A stored column: its identifier, the kind of its cells and the value that fresh cells hold. -/
structure ColumnSpec where
  id : String
  kind : Kind
  default? : Option Value := none
  deriving DecidableEq

namespace ColumnSpec

/-- The value that fresh cells hold: the one given, or the default of the kind. -/
def default (c : ColumnSpec) : Value := c.default?.getD c.kind.default

/-- Columns are told apart by identifier and kind alone. -/
def same (a b : ColumnSpec) : Bool := a.id = b.id && a.kind = b.kind

end ColumnSpec

/-- The table's name and its stored columns, in order of declaration. The columns have different
identifiers, and their defaults are of their kinds. -/
structure Schema where
  name : String
  columns : List ColumnSpec
  nodup : (columns.map (·.id)).Nodup
  kind_default : ∀ c ∈ columns, c.default.kind = c.kind

namespace Schema

/-- Letters, digits, underscores and points may stand in names; all of them are ASCII. -/
def isNameChar (c : Char) : Bool := c.isAlphanum || c = '_' || c = '.'

/-- Checks a name: it is not empty, starts with a letter or an underscore, and holds only the
characters of `isNameChar`. -/
def checkName (name : String) : Except TableError Unit :=
  match name.toList with
  | [] => .error (.invalidSchema .emptyName)
  | c :: cs =>
    if !(c.isAlpha || c = '_') then .error (.invalidSchema (.badStart name))
    else if !(c :: cs).all isNameChar then .error (.invalidSchema (.badCharacter name))
    else .ok ()

/-- A schema without columns. -/
def named (name : String) : Except TableError Schema := do
  checkName name
  return { name, columns := [], nodup := .nil, kind_default := by simp }

/-- The column of an identifier. -/
def column? (s : Schema) (id : String) : Option ColumnSpec := s.columns.find? (·.id = id)

/-- The position of a column. -/
def columnIndex? (s : Schema) (id : String) : Option Nat := s.columns.findIdx? (·.id = id)

/-- The column of an identifier, or the error that there is none. -/
def column (s : Schema) (id : String) : Except TableError ColumnSpec :=
  match s.column? id with
  | some c => .ok c
  | none => .error (.columnNotFound s.name id)

/-- The identifiers of the columns, in order of declaration. -/
def columnIds (s : Schema) : List String := s.columns.map (·.id)

/-- Adds a column at the end. -/
def add (s : Schema) (c : ColumnSpec) : Except TableError Schema :=
  match checkName c.id with
  | .error e => .error e
  | .ok () =>
    if fresh : c.id ∈ s.columnIds then .error (.duplicateColumn s.name c.id)
    else if kind : c.default.kind = c.kind then
      .ok {
        name := s.name
        columns := s.columns ++ [c]
        nodup := by
          rw [List.map_append]
          refine List.nodup_append.2 ⟨s.nodup, by simp, fun a ha b hb => ?_⟩
          rintro rfl
          have same : a = c.id := List.mem_singleton.1 hb
          exact fresh (same ▸ ha)
        kind_default := fun d hd => by
          rcases List.mem_append.1 hd with h | h
          · exact s.kind_default d h
          · exact List.mem_singleton.1 h ▸ kind }
    else .error (.typeMismatch c.kind c.default.kind)

/-- Adds a column whose fresh cells hold the default of the kind. -/
def addColumn (s : Schema) (id : String) (kind : Kind) : Except TableError Schema :=
  s.add { id, kind }

/-- Adds a column whose fresh cells hold the given value; its kind is checked before all else. -/
def addColumnWithDefault (s : Schema) (id : String) (kind : Kind) (value : Value) :
    Except TableError Schema := do
  value.expectKind kind
  s.add { id, kind, default? := some value }

end Schema

/-- How a column is asked for. -/
inductive ColumnRequest where
  /-- With the default of its kind. -/
  | plain (id : String) (kind : Kind)
  /-- With a default of its own. -/
  | withDefault (id : String) (kind : Kind) (value : Value)
  /-- As described beforehand. -/
  | prepared (spec : ColumnSpec)

namespace Schema

/-- Adds a column in the way it is asked for. -/
def addRequest (s : Schema) : ColumnRequest → Except TableError Schema
  | .plain id kind => s.addColumn id kind
  | .withDefault id kind value => s.addColumnWithDefault id kind value
  | .prepared spec => s.add spec

/-- The schema of a name and columns, up to the first error. -/
def ofRequests (name : String) (columns : List ColumnRequest) : Except TableError Schema := do
  columns.foldlM addRequest (← named name)

end Schema

end LiveTables
