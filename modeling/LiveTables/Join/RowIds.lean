/-!
# Identifiers of joined rows

Joined rows come and go, so their identifiers are used again: a fresh row takes the smallest
identifier that was given back, or the next one never used.
-/

namespace LiveTables

/-- The identifiers given back, and the first that was never given out. -/
structure RowIds where
  free : List Nat := []
  next : Nat := 0
  deriving DecidableEq

namespace RowIds

/-- Gives out an identifier: the smallest free one, or else the next. -/
def allocate (ids : RowIds) : RowIds × Nat :=
  match ids.free.min? with
  | some id => ({ ids with free := ids.free.erase id }, id)
  | none => ({ ids with next := ids.next + 1 }, ids.next)

/-- Takes an identifier back. -/
def release (ids : RowIds) (id : Nat) : RowIds := { ids with free := id :: ids.free }

/-- The number of identifiers ever needed at once. -/
def capacity (ids : RowIds) : Nat := ids.next

/-- The number of identifiers that were given back and not given out again. -/
def freeCount (ids : RowIds) : Nat := ids.free.length

end RowIds

end LiveTables
