import LiveTables.Join.Engine

/-!
# Joins in a plain form

A matching is what a join engine keeps, without numbers, slots and groups: for each side the rows with
their keys, and all pairings with their keys in one list. Linking and unlinking go through the whole list. The engine
does the same by looking at a single group (`JoinEngine.Represents`), so what is shown here of matchings
holds of engines.
-/

namespace LiveTables

/-- A pairing with the key of its rows. -/
structure Match where
  key : Value
  left : Option Nat
  right : Option Nat
  row : Option Nat

namespace Match

/-- The row of a side. -/
def on (p : Match) : Side → Option Nat
  | .left => p.left
  | .right => p.right

/-- Sets the row of a side. -/
def set (p : Match) (side : Side) (source : Option Nat) : Match :=
  match side with
  | .left => { p with left := source }
  | .right => { p with right := source }

/-- The pairing of a row of one side with what stands on the other. -/
def ofSides (key : Value) (side : Side) (source other : Option Nat) : Match :=
  (Match.mk key none none none |>.set side source).set side.other other

end Match

/-- The links of both sides, oldest first, and the pairings that follow from them. -/
structure Matching where
  kind : JoinKind
  left : List (Nat × Value) := []
  right : List (Nat × Value) := []
  pairings : List Match := []
  ids : RowIds := {}

namespace Matching

/-- The links of a side. -/
def links (m : Matching) : Side → List (Nat × Value)
  | .left => m.left
  | .right => m.right

/-- Sets the links of a side. -/
def setLinks (m : Matching) (side : Side) (links : List (Nat × Value)) : Matching :=
  match side with
  | .left => { m with left := links }
  | .right => { m with right := links }

/-- The key under which a row is linked. -/
def key? (m : Matching) (side : Side) (source : Nat) : Option Value :=
  (m.links side).lookup source

/-- The rows of a side that are linked under a key. -/
def rowsUnder (m : Matching) (side : Side) (key : Value) : List Nat :=
  ((m.links side).filter (·.2.same key)).map (·.1)

/-! ## Reading -/

/-- The pairing that is a joined row. -/
def pairing? (m : Matching) (row : Nat) : Option Match := m.pairings.find? (·.row = some row)

/-- The row that stands on a side of a joined row. -/
def sourceRow? (m : Matching) (side : Side) (row : Nat) : Option Nat :=
  (m.pairing? row).bind (·.on side)

/-- The identifiers of all joined rows, in ascending order. -/
def rows (m : Matching) : List Nat := (m.pairings.filterMap (·.row)).mergeSort (· ≤ ·)

/-- The joined rows in which a row stands on a side. -/
def joinedRowsOf (m : Matching) (side : Side) (source : Nat) : List Nat :=
  (m.pairings.filter (·.on side = some source)).filterMap (·.row)

/-! ## Linking and unlinking -/

/-- The identifiers in use and the changes made so far, in order. -/
structure Progress where
  ids : RowIds
  changes : List JoinChange := []

/-- Brings the identifier of a pairing in line with its visibility after the row of a side changed. -/
def settle (kind : JoinKind) (side : Side) (s : Progress) (p : Match) : Progress × Match :=
  match p.row, kind.isVisible p.left.isSome p.right.isSome with
  | some id, true => ({ s with changes := s.changes ++ [.updated id side] }, p)
  | some id, false =>
    ({ ids := s.ids.release id, changes := s.changes ++ [.deleted id] }, { p with row := none })
  | none, true =>
    let (ids, id) := s.ids.allocate
    ({ ids, changes := s.changes ++ [.added id] }, { p with row := some id })
  | none, false => (s, p)

/-- Removes a pairing. -/
def discard (s : Progress) (p : Match) : Progress :=
  match p.row with
  | some id => { ids := s.ids.release id, changes := s.changes ++ [.deleted id] }
  | none => s

/-- Changes or removes the members of a list, one after the other. -/
def revise {α : Type} (f : Progress → α → Progress × Option α) : Progress → List α → Progress × List α
  | s, [] => (s, [])
  | s, p :: rest =>
    let (s, kept) := f s p
    let (s, rest) := revise f s rest
    (s, kept.toList ++ rest)

/-- What is done to a list is done to what it is made from, if that holds of each member. -/
theorem revise_map {α β : Type} {f : Progress → α → Progress × Option α} {f' : Progress → β → Progress × Option β}
    (g : Progress → Progress) (h : α → β) (hf : ∀ s x, f' (g s) (h x) = (g (f s x).1, (f s x).2.map h))
    (s : Progress) (xs : List α) :
    revise f' (g s) (xs.map h) = (g (revise f s xs).1, (revise f s xs).2.map h) := by
  induction xs generalizing s with
  | nil => rfl
  | cons x xs ih =>
    simp only [List.map_cons, revise, hf, ih, List.map_append]
    rcases (f s x).2 with - | y <;> rfl

/-- Makes the pairings of a row with each of some others. -/
def createAll (kind : JoinKind) (side : Side) (key : Value) (source : Nat) :
    Progress → List (Option Nat) → Progress × List Match
  | s, [] => (s, [])
  | s, other :: rest =>
    let (s, p) := settle kind side s (.ofSides key side (some source) other)
    let (s, rest) := createAll kind side key source s rest
    (s, p :: rest)

/-- Takes the open side of a pairing of a key. -/
def fill (kind : JoinKind) (side : Side) (key : Value) (source : Nat) (s : Progress) (p : Match) :
    Progress × Option Match :=
  if p.key.same key ∧ p.on side = none then
    let (s, p) := settle kind side s (p.set side (some source))
    (s, some p)
  else (s, some p)

/-- Takes a row out of a pairing. If it is the last of its side, what stands on the other side stays
with the side left open; otherwise the pairing goes. -/
def vacate (kind : JoinKind) (side : Side) (source : Nat) (last : Bool) (s : Progress)
    (p : Match) : Progress × Option Match :=
  if p.on side = some source then
    if (p.on side.other).isSome && last then
      let (s, p) := settle kind side s (p.set side none)
      (s, some p)
    else (discard s p, none)
  else (s, some p)

/-- Links a row that is not linked. -/
def attach (m : Matching) (side : Side) (source : Nat) (key : Value) : Matching × List JoinChange :=
  let others := m.rowsUnder side.other key
  let start : Progress := { ids := m.ids }
  let (s, pairings) :=
    if others.isEmpty then
      let (s, created) := createAll m.kind side key source start [none]
      (s, m.pairings ++ created)
    else if (m.rowsUnder side key).isEmpty then
      revise (fill m.kind side key source) start m.pairings
    else
      let (s, created) := createAll m.kind side key source start (others.map some)
      (s, m.pairings ++ created)
  ({ m.setLinks side (m.links side ++ [(source, key)]) with pairings, ids := s.ids }, s.changes)

/-- Removes a row; nothing happens if it is not linked. -/
def unlink (m : Matching) (side : Side) (source : Nat) : Matching × List JoinChange :=
  match m.key? side source with
  | none => (m, [])
  | some key =>
    let links := (m.links side).filter (·.1 ≠ source)
    let last := !links.any (·.2.same key)
    let (s, pairings) := revise (vacate m.kind side source last) { ids := m.ids } m.pairings
    ({ m.setLinks side links with pairings, ids := s.ids }, s.changes)

/-- Links a row under a key. A row that is linked under another key is moved; one that is linked under
the same key stays as it is. -/
def link (m : Matching) (side : Side) (source : Nat) (key : Value) : Matching × List JoinChange :=
  match m.key? side source with
  | none => m.attach side source key
  | some current =>
    if current.same key then (m, [])
    else
      let (m, gone) := m.unlink side source
      let (m, come) := m.attach side source key
      (m, gone ++ come)

end Matching

end LiveTables
