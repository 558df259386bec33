import LiveTables.Proofs.Change.Collapse
import Mathlib.Logic.Function.Basic
import Mathlib.Tactic.SplitIfs

/-!
# What changes make of rows

Who only hears of changes knows the rows by their numbers and the cells that were told of them: an image
(`Image`). A change turns one image into another (`Image.apply`); it looks at its own row and leaves the others
alone, so changes of different rows can change places, and so can updates of different columns.

So the values that a queue overwrites do not count (`Image.collapses`): what waits in the queue makes of an image
what all that was pushed makes of it (`ChangeQueue.applyAll_foldl_push`).
-/

namespace LiveTables

/-- The cells of a row by their columns. -/
abbrev Cells := String → Option Value

/-- Rows with their cells. -/
abbrev Image := Nat → Option Cells

variable {defaults : Cells} {i : Image} {row : Nat} {column : String} {value : Value} {c c' : Change}

/-- What a change makes of its row. A row that is added twice stays as it is. -/
def Change.effect (defaults : Cells) : Change → Option Cells → Option Cells
  | .add _, none => some defaults
  | .add _, some cells => some cells
  | .update _ column value, cells? => cells?.map fun cells => Function.update cells column (some value)
  | .delete _, _ => none

/-- The changes of a call, one for each value. -/
def RowChange.changes : RowChange → List Change
  | .add row => [.add row]
  | .update row values => values.map fun x => .update row x.1 x.2
  | .delete row => [.delete row]

/-- Updates that are joined are the same changes. -/
theorem RowChange.flatMap_ofChanges (list : List Change) : (ofChanges list).flatMap changes = list := by
  induction list with
  | nil => rfl
  | cons c list ih =>
    cases c with
    | add row | delete row =>
      rw [ofChanges, List.flatMap_cons, ih]
      rfl
    | update row column value =>
      -- an update joins the next one if that is of the same row
      rw [ofChanges]
      split
      · next row' values later hrest =>
        rw [hrest, List.flatMap_cons] at ih
        split_ifs with hrow
        · subst hrow
          rw [List.flatMap_cons, ← ih]
          rfl
        · rw [List.flatMap_cons, List.flatMap_cons, ih]
          rfl
      · rw [List.flatMap_cons, ih]
        rfl

/-- Whether a change is told to one who picked some columns. -/
def Change.isPicked (picked : String → Bool) : Change → Bool
  | .update _ column _ => picked column
  | _ => true

/-- One who picked all columns is told everything. -/
theorem filter_isPicked (changes : List Change) : changes.filter (Change.isPicked fun _ => true) = changes := by
  refine List.filter_eq_self.2 fun c _ => ?_
  cases c <;> rfl

namespace Image

/-- The image after a change. -/
def apply (defaults : Cells) (i : Image) (c : Change) : Image :=
  Function.update i c.row (c.effect defaults (i c.row))

/-- The image after changes, one after the other. -/
def applyAll (defaults : Cells) (i : Image) (changes : List Change) : Image :=
  changes.foldl (apply defaults) i

@[simp] theorem applyAll_nil (defaults : Cells) (i : Image) : i.applyAll defaults [] = i := rfl

@[simp] theorem applyAll_cons (defaults : Cells) (i : Image) (c : Change) (changes : List Change) :
    i.applyAll defaults (c :: changes) = (i.apply defaults c).applyAll defaults changes := rfl

theorem applyAll_append (defaults : Cells) (i : Image) (xs ys : List Change) :
    i.applyAll defaults (xs ++ ys) = (i.applyAll defaults xs).applyAll defaults ys :=
  List.foldl_append

theorem apply_self (defaults : Cells) (i : Image) (c : Change) :
    i.apply defaults c c.row = c.effect defaults (i c.row) := Function.update_self _ _ _

theorem apply_of_ne (h : row ≠ c.row) : i.apply defaults c row = i row := Function.update_of_ne h _ _

/-- A row stays unless it is deleted. -/
theorem applyAll_ne_none {changes : List Change} (h : i row ≠ none) (hstay : .delete row ∉ changes) :
    i.applyAll defaults changes row ≠ none := by
  induction changes generalizing i with
  | nil => exact h
  | cons c changes ih =>
    rw [List.mem_cons, not_or] at hstay
    apply ih _ hstay.2
    by_cases hrow : row = c.row
    · subst hrow
      rw [apply_self]
      cases c with
      | add row =>
        obtain ⟨cells, hcells⟩ := Option.ne_none_iff_exists'.1 h
        simp [hcells, Change.effect]
      | update row column value => simpa [Change.effect] using h
      | delete row => exact absurd rfl hstay.1
    · rwa [apply_of_ne hrow]

/-! ### Changes that change places -/

/-- Changes of different rows. -/
theorem apply_comm (h : c.row ≠ c'.row) :
    (i.apply defaults c).apply defaults c' = (i.apply defaults c').apply defaults c := by
  unfold apply
  rw [Function.update_of_ne h.symm, Function.update_of_ne h, Function.update_comm h]

/-- Two updates of a row write its cells one after the other. -/
theorem apply_update_twice {column' : String} {value' : Value} :
    (i.apply defaults (.update row column value)).apply defaults (.update row column' value') =
      Function.update i row ((i row).map fun cells =>
        Function.update (Function.update cells column (some value)) column' (some value')) := by
  unfold apply
  simp only [Change.row, Change.effect, Function.update_self, Function.update_idem, Option.map_map]
  rfl

/-- Updates of different columns. -/
theorem apply_update_comm {column' : String} {value' : Value} (h : column ≠ column') :
    (i.apply defaults (.update row column value)).apply defaults (.update row column' value') =
      (i.apply defaults (.update row column' value')).apply defaults (.update row column value) := by
  simp only [apply_update_twice, Function.update_comm h]

/-- Of two updates of a cell the last counts. -/
theorem apply_update_update (value' : Value) :
    (i.apply defaults (.update row column value)).apply defaults (.update row column value') =
      i.apply defaults (.update row column value') := by
  simp only [apply_update_twice, Function.update_idem]
  rfl

/-- Of changes of an image those that are overwritten do not count. -/
theorem collapses (defaults : Cells) :
    Change.Collapses (apply defaults) (fun _ => True) (fun _ => True) where
  kept _ _ := trivial
  last value' _ _ := apply_update_update value'
  comm := by
    intro i row column value c _ _ _ hclear
    cases c with
    | update r column' value' =>
      by_cases hrow : r = row
      · subst hrow
        exact apply_update_comm (hclear.resolve_left (not_not.2 rfl)).symm
      · exact apply_comm (Ne.symm hrow)
    | add r | delete r => exact apply_comm (Ne.symm hclear)

end Image

/-- What waits after pushes does to an image what waited before and then what was pushed. -/
theorem ChangeQueue.applyAll_foldl_push (defaults : Cells) (i : Image) {q : ChangeQueue} (hq : q.Indexed)
    (changes : List Change) : i.applyAll defaults (changes.foldl push q).changes =
      (i.applyAll defaults q.changes).applyAll defaults changes :=
  foldl_foldl_push (Image.collapses defaults) hq trivial (fun _ _ => trivial) fun _ _ => trivial

end LiveTables
