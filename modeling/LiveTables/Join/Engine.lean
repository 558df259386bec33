import LiveTables.Join.Kind
import LiveTables.Join.RowIds
import LiveTables.Value.Basic

/-!
# Incremental joins

The engine keeps the join of two sets of keyed rows while rows are linked under keys and unlinked.
Rows with the same key form a group. The pairings of a group are

* every left row with every right row, if it has rows of both sides;
* otherwise every row alone, with the other side left open.

Which pairings are joined rows depends on the kind of the join. A pairing that becomes visible takes
an identifier, and gives it back when it disappears or becomes invisible. When the first row of a
side is linked, it takes the open side of the pairings that wait for it, which so keep their
identifiers; when the last one is unlinked, its pairings stay with an open side.

Pairings have numbers of their own. A group lists the numbers of its pairings in the order in which
they came to be, and a slot for every identifier tells which pairing is the joined row. The key of a
row leads to its group, so that to link or unlink a row only the pairings of one group are looked at.
-/

namespace LiveTables

/-- Rows that stand together, with the identifier of the joined row if the pairing is one. -/
structure Pairing where
  left : Option Nat := none
  right : Option Nat := none
  row : Option Nat := none
  deriving DecidableEq

namespace Pairing

/-- The row of a side. -/
def on (p : Pairing) : Side → Option Nat
  | .left => p.left
  | .right => p.right

/-- Sets the row of a side. -/
def set (p : Pairing) (side : Side) (source : Option Nat) : Pairing :=
  match side with
  | .left => { p with left := source }
  | .right => { p with right := source }

end Pairing

/-- What happened to a joined row. An update names the side whose row changed. -/
inductive JoinChange where
  | added (row : Nat)
  | updated (row : Nat) (side : Side)
  | deleted (row : Nat)
  deriving DecidableEq

/-- The rows that are linked under a key, oldest first, and the numbers of the pairings that follow from
them, in the order in which they came to be. -/
structure RowGroup where
  left : List Nat := []
  right : List Nat := []
  pairings : List Nat := []
  deriving DecidableEq

namespace RowGroup

/-- The rows of a side. -/
def rows (g : RowGroup) : Side → List Nat
  | .left => g.left
  | .right => g.right

/-- Sets the rows of a side. -/
def setRows (g : RowGroup) (side : Side) (rows : List Nat) : RowGroup :=
  match side with
  | .left => { g with left := rows }
  | .right => { g with right := rows }

end RowGroup

/-- The groups by their keys, the pairings by their numbers and the next number, the key of every row
that is linked, the pairing of every identifier, and the number of joined rows. -/
structure JoinEngine where
  kind : JoinKind
  groups : List (Value × RowGroup) := []
  pairings : List (Nat × Pairing) := []
  nextPairing : Nat := 0
  leftKeys : List (Nat × Value) := []
  rightKeys : List (Nat × Value) := []
  slots : List (Option Nat) := []
  ids : RowIds := {}
  rowCount : Nat := 0

namespace JoinEngine

/-! ## Reading -/

/-- The rows of a side with their keys. -/
def keys (e : JoinEngine) : Side → List (Nat × Value)
  | .left => e.leftKeys
  | .right => e.rightKeys

/-- The key under which a row is linked. -/
def key? (e : JoinEngine) (side : Side) (source : Nat) : Option Value := (e.keys side).lookup source

/-- The group of a key. -/
def group? (e : JoinEngine) (key : Value) : Option RowGroup := (e.groups.find? (·.1.same key)).map (·.2)

/-- The pairing of a number. -/
def pairing? (e : JoinEngine) (number : Nat) : Option Pairing := e.pairings.lookup number

/-- The number of the pairing that is a joined row. -/
def pairingAt? (e : JoinEngine) (row : Nat) : Option Nat := e.slots[row]?.join

/-- The number of different keys under which rows are linked. -/
def groupCount (e : JoinEngine) : Nat := e.groups.length

/-- Whether there is a joined row of the identifier. -/
def contains (e : JoinEngine) (row : Nat) : Bool := (e.pairingAt? row).isSome

/-- The identifiers of all joined rows, in ascending order. -/
def rows (e : JoinEngine) : List Nat := (e.slots.zipIdx.filter (·.1.isSome)).map (·.2)

/-- The row that stands on a side of a joined row. -/
def sourceRow? (e : JoinEngine) (side : Side) (row : Nat) : Option Nat :=
  ((e.pairingAt? row).bind e.pairing?).bind (·.on side)

/-- The pairings that a group lists. -/
def pairingsIn (e : JoinEngine) (g : RowGroup) : List Pairing := g.pairings.filterMap e.pairing?

/-- The joined rows in which a row stands on a side. -/
def joinedRowsOf (e : JoinEngine) (side : Side) (source : Nat) : List Nat :=
  match (e.key? side source).bind e.group? with
  | none => []
  | some g => ((e.pairingsIn g).filter (·.on side = some source)).filterMap (·.row)

/-! ## Fields -/

/-- Sets the keys of the rows of a side. -/
def setKeys (e : JoinEngine) (side : Side) (keys : List (Nat × Value)) : JoinEngine :=
  match side with
  | .left => { e with leftKeys := keys }
  | .right => { e with rightKeys := keys }

/-- Puts an entry behind others, in place of that of its key. -/
def insertEntry {α : Type} (entries : List (Nat × α)) (key : Nat) (content : α) : List (Nat × α) :=
  entries.filter (·.1 ≠ key) ++ [(key, content)]

/-- Puts the group of a key in its place. -/
def setGroup (e : JoinEngine) (key : Value) (g : RowGroup) : JoinEngine :=
  { e with groups :=
      if (e.group? key).isSome then e.groups.map fun x => (x.1, if x.1.same key then g else x.2)
      else e.groups ++ [(key, g)] }

/-- Removes the group of a key. -/
def removeGroup (e : JoinEngine) (key : Value) : JoinEngine :=
  { e with groups := e.groups.filter (!·.1.same key) }

/-- Changes the pairing of a number. -/
def modifyPairing (e : JoinEngine) (number : Nat) (f : Pairing → Pairing) : JoinEngine :=
  { e with pairings := e.pairings.map fun x => (x.1, if x.1 = number then f x.2 else x.2) }

/-! ## Pairings -/

/-- Gives an identifier to a pairing that becomes visible. -/
def reveal (e : JoinEngine) (number : Nat) : JoinEngine × Nat :=
  let (ids, id) := e.ids.allocate
  let slots := (e.slots ++ List.replicate (id + 1 - e.slots.length) none).set id (some number)
  ({ e with ids, slots, rowCount := e.rowCount + 1 }.modifyPairing number ({ · with row := some id }), id)

/-- Takes an identifier back. -/
def release (e : JoinEngine) (id : Nat) : JoinEngine :=
  { e with slots := e.slots.set id none, ids := e.ids.release id, rowCount := e.rowCount - 1 }

/-- Brings the identifier of a pairing in line with its visibility after the row of a side changed. -/
def refresh (e : JoinEngine) (number : Nat) (side : Side) (changes : List JoinChange) :
    JoinEngine × List JoinChange :=
  match e.pairing? number with
  | none => (e, changes)
  | some p =>
    match p.row, e.kind.isVisible p.left.isSome p.right.isSome with
    | some id, true => (e, changes ++ [.updated id side])
    | some id, false =>
      ((e.modifyPairing number ({ · with row := none })).release id, changes ++ [.deleted id])
    | none, true =>
      let (e, id) := e.reveal number
      (e, changes ++ [.added id])
    | none, false => (e, changes)

/-- Makes a pairing under the next number. -/
def create (e : JoinEngine) (side : Side) (source other : Option Nat) (changes : List JoinChange) :
    JoinEngine × List JoinChange :=
  let pairing := (Pairing.set {} side source).set side.other other
  { e with
    nextPairing := e.nextPairing + 1
    pairings := insertEntry e.pairings e.nextPairing pairing }.refresh e.nextPairing side changes

/-- Lists a pairing in the group of a key. -/
def attach (e : JoinEngine) (key : Value) (number : Nat) : JoinEngine :=
  match e.group? key with
  | none => e
  | some g => e.setGroup key { g with pairings := g.pairings ++ [number] }

/-- Removes a pairing. -/
def destroy (e : JoinEngine) (number : Nat) (changes : List JoinChange) : JoinEngine × List JoinChange :=
  let removed := { e with pairings := e.pairings.filter (·.1 ≠ number) }
  match (e.pairing? number).bind (·.row) with
  | none => (removed, changes)
  | some id => (removed.release id, changes ++ [.deleted id])

/-! ## Linking and unlinking -/

/-- Pairs a row with what stands on the other side of its group. -/
def pairUp (side : Side) (source : Nat) (key : Value) (s : JoinEngine × List JoinChange) (other : Option Nat) :
    JoinEngine × List JoinChange :=
  let (e, changes) := s.1.create side (some source) other s.2
  (e.attach key s.1.nextPairing, changes)

/-- A row takes the open side of a pairing. -/
def fill (side : Side) (source : Nat) (s : JoinEngine × List JoinChange) (number : Nat) :
    JoinEngine × List JoinChange :=
  (s.1.modifyPairing number (·.set side (some source))).refresh number side s.2

/-- Links a row that is not linked. If the other side of its group is empty, the row stands alone; if there
are pairings that wait for it, it takes their open sides; otherwise it is paired with every row of the
other side. -/
def linkInto (e : JoinEngine) (side : Side) (source : Nat) (key : Value) (changes : List JoinChange) :
    JoinEngine × List JoinChange :=
  let g := (e.group? key).getD {}
  let g := g.setRows side (g.rows side ++ [source])
  let e := (e.setKeys side (insertEntry (e.keys side) source key)).setGroup key g
  let others := g.rows side.other
  let waiting := g.pairings.filter fun number => (e.pairing? number).any (·.on side = none)
  if others.isEmpty then pairUp side source key (e, changes) none
  else if !waiting.isEmpty then waiting.foldl (fill side source) (e, changes)
  else (others.map some).foldl (pairUp side source key) (e, changes)

/-- Takes a row out of a pairing. If it is the last of its side, what stands on the other side stays with
the side left open; otherwise the pairing goes, and its number is noted. -/
def vacate (side : Side) (last : Bool) (s : (JoinEngine × List JoinChange) × List Nat) (number : Nat) :
    (JoinEngine × List JoinChange) × List Nat :=
  let ((e, changes), destroyed) := s
  let paired := (e.pairing? number).any fun p => (p.on side.other).isSome
  if paired && last then ((e.modifyPairing number (·.set side none)).refresh number side changes, destroyed)
  else (e.destroy number changes, destroyed ++ [number])

/-- Strikes pairings that are gone from the group of a key, and the group itself if none is left. -/
def strike (e : JoinEngine) (key : Value) (destroyed : List Nat) : JoinEngine :=
  match e.group? key with
  | none => e
  | some g =>
    let left := g.pairings.filter (· ∉ destroyed)
    if left.isEmpty then e.removeGroup key else e.setGroup key { g with pairings := left }

/-- Removes a row; nothing happens if it is not linked. -/
def unlinkInto (e : JoinEngine) (side : Side) (source : Nat) (changes : List JoinChange) :
    JoinEngine × List JoinChange :=
  match e.key? side source with
  | none => (e, changes)
  | some key =>
    let e := e.setKeys side ((e.keys side).filter (·.1 ≠ source))
    match e.group? key with
    | none => (e, changes)
    | some g =>
      let g := g.setRows side ((g.rows side).filter (· ≠ source))
      let e := e.setGroup key g
      let affected := g.pairings.filter fun number => (e.pairing? number).bind (·.on side) = some source
      let ((e, changes), destroyed) :=
        affected.foldl (vacate side (g.rows side).isEmpty) ((e, changes), [])
      (e.strike key destroyed, changes)

/-- Links a row under a key. A row that is linked under another key is moved; one that is linked under
the same key stays as it is. -/
def link (e : JoinEngine) (side : Side) (source : Nat) (key : Value) : JoinEngine × List JoinChange :=
  match e.key? side source with
  | none => e.linkInto side source key []
  | some current =>
    if current.same key then (e, [])
    else
      let (e, changes) := e.unlinkInto side source []
      e.linkInto side source key changes

/-- Removes a row from the join, as when it is deleted from its source. -/
def unlink (e : JoinEngine) (side : Side) (source : Nat) : JoinEngine × List JoinChange :=
  e.unlinkInto side source []

end JoinEngine

end LiveTables
