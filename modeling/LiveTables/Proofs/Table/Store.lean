import LiveTables.Proofs.Change.Image
import LiveTables.Proofs.Table.Operations
import Mathlib.Data.List.Induction

/-!
# A table as a list of rows

What a table is for those who use it: a list of rows in the order in which they were added, each a map from the
stored columns to values, or nothing once it is deleted (`Store`). How cells are kept, column by column, and which
values stand where a row was deleted, is not part of it.

A table refines its store (`Table.store`). Each call, whatever its arguments, answers what it answers for the
store, and leaves the table with the store that it should leave (`Table.WellFormed.refines`); so does a run of
calls (`Table.WellFormed.refines_run`).
-/

namespace LiveTables

namespace Table

/-- A call of a table. -/
inductive Call where
  | addRow
  | setValue (column : String) (row : Nat) (value : Value)
  | deleteRow (row : Nat)
  | addComputed (column : ComputedColumn)

/-- What a call answers: the number of the row if it adds one, and the error if it is refused. -/
abbrev Answer := Except TableError (Option Nat)

/-- Calls with what they answered, in order. -/
abbrev History := List (Call × Answer)

namespace Call

variable {σ : Type}

/-- What calls leave, one after the other, and the history of them. -/
def run (answer : σ → Call → σ × Answer) (s : σ) (calls : List Call) : σ × History :=
  calls.foldl (fun x c => ((answer x.1 c).1, x.2 ++ [(c, (answer x.1 c).2)])) (s, [])

theorem run_concat (answer : σ → Call → σ × Answer) (s : σ) (calls : List Call) (c : Call) :
    run answer s (calls ++ [c]) =
      ((answer (run answer s calls).1 c).1, (run answer s calls).2 ++ [(c, (answer (run answer s calls).1 c).2)]) := by
  rw [run, List.foldl_append]
  rfl

/-- A history has all calls, in order. -/
theorem calls_run (answer : σ → Call → σ × Answer) (s : σ) (calls : List Call) :
    (run answer s calls).2.map (·.1) = calls := by
  induction calls using List.reverseRecOn with
  | nil => rfl
  | append_singleton calls c ih => rw [run_concat, List.map_append, ih, List.map_singleton]

end Call

/-- The table after a call, what it announces and what it answers. -/
def call (t : Table) : Call → Table × List Signal × Answer
  | .addRow => (t.addRow.1, t.addRow.2.2, .ok (some t.addRow.2.1))
  | .setValue column row value =>
    match t.setValue column row value with
    | (t, .ok signals) => (t, signals, .ok none)
    | (t, .error e) => (t, [], .error e)
  | .deleteRow row =>
    match t.deleteRow row with
    | (t, .ok signals) => (t, signals, .ok none)
    | (t, .error e) => (t, [], .error e)
  | .addComputed column =>
    match t.addComputed column with
    | (t, .ok ()) => (t, [], .ok none)
    | (t, .error e) => (t, [], .error e)

/-- The table after a call and what it answers. -/
def answer (t : Table) (c : Call) : Table × Answer := ((t.call c).1, (t.call c).2.2)

end Table

open Table (Call Answer)

/-! ## Stores -/

/-- The stored columns, the names of the computed ones, and the rows. -/
structure Store where
  name : String
  specs : List ColumnSpec
  computed : List String := []
  rows : List (Option Cells) := []

namespace Store

/-- A store without rows. -/
def ofSchema (s : Schema) : Store := { name := s.name, specs := s.columns }

/-- The stored column of a name. -/
def spec? (p : Store) (id : String) : Option ColumnSpec := p.specs.find? (·.id = id)

/-- The cells of a row that was just added. -/
def defaults (p : Store) : Cells := fun id => (p.spec? id).map (·.default)

/-- The cells of a row that was added and not deleted. -/
def row? (p : Store) (row : Nat) : Option Cells := p.rows[row]?.join

/-- Whether a name is that of a column. -/
def known (p : Store) (id : String) : Bool := (p.spec? id).isSome || id ∈ p.computed

/-- The store after a call, and what it answers. The first thing that is wrong with a call is its answer. -/
def answer (p : Store) : Call → Store × Answer
  | .addRow => ({ p with rows := p.rows ++ [some p.defaults] }, .ok (some p.rows.length))
  | .setValue column row value =>
    match p.row? row with
    | none => (p, .error (.rowNotFound p.name row))
    | some cells =>
      if column ∈ p.computed then (p, .error (.invalidOperation .readOnlyColumn))
      else
        match p.spec? column with
        | none => (p, .error (.columnNotFound p.name column))
        | some spec =>
          if value.kind ≠ spec.kind then (p, .error (.typeMismatch spec.kind value.kind))
          else ({ p with rows := p.rows.set row (some (Function.update cells column (some value))) }, .ok none)
  | .deleteRow row =>
    match p.row? row with
    | none => (p, .error (.rowNotFound p.name row))
    | some _ => ({ p with rows := p.rows.set row none }, .ok none)
  | .addComputed column =>
    if p.known column.id then (p, .error (.duplicateColumn p.name column.id))
    else
      match column.dependencies.find? (!p.known ·) with
      | some missing => (p, .error (.columnNotFound p.name missing))
      | none => ({ p with computed := p.computed ++ [column.id] }, .ok none)

end Store

/-! ## The store of a table -/

namespace Table

variable {t t' : Table} {id : String} {row r : Nat} {value : Value}

/-- The cells of a live row. -/
def cells? (t : Table) (row : Nat) : Option Cells :=
  if t.isLive row then some fun id => (t.stored row id).toOption else none

/-- A table as a list of rows. -/
def store (t : Table) : Store where
  name := t.name
  specs := t.columns.map (·.spec)
  computed := t.computed.ids
  rows := (List.range t.live.size).map t.cells?

theorem cells?_of_live (h : r ∈ t.rows) : t.cells? r = some fun id => (t.stored r id).toOption := by
  rw [cells?, if_pos (mem_rows.1 h)]

theorem cells?_of_dead (h : r ∉ t.rows) : t.cells? r = none := by
  rw [cells?, if_neg (mt mem_rows.2 h)]

theorem cells?_ne_none : t.cells? r ≠ none ↔ r ∈ t.rows := by
  by_cases h : r ∈ t.rows
  · simp [cells?_of_live h, h]
  · simp [cells?_of_dead h, h]

/-- The cells of a row stay if it is live as before and its stored cells stay. -/
theorem cells?_eq (hlive : r ∈ t'.rows ↔ r ∈ t.rows) (hstored : r ∈ t.rows → ∀ id, t'.stored r id = t.stored r id) :
    t'.cells? r = t.cells? r := by
  by_cases h : r ∈ t.rows
  · rw [cells?_of_live h, cells?_of_live (hlive.2 h), funext (hstored h)]
  · rw [cells?_of_dead h, cells?_of_dead (mt hlive.1 h)]

@[simp] theorem length_rows_store (t : Table) : t.store.rows.length = t.live.size := by
  simp [store]

theorem row?_store (t : Table) (row : Nat) : t.store.row? row = t.cells? row := by
  by_cases h : row < t.live.size
  · simp [Store.row?, store, h]
  · have hdead : row ∉ t.rows := fun hlive => h (lt_of_mem_rows hlive)
    rw [cells?_of_dead hdead]
    simp [Store.row?, store, h]

theorem spec?_store (t : Table) (id : String) : t.store.spec? id = t.spec? id := by
  rw [Store.spec?, store, List.find?_map]
  rfl

theorem defaults_store (t : Table) : t.store.defaults = fun id => (t.spec? id).map (·.default) := by
  funext id
  rw [Store.defaults, spec?_store]

/-- Tables with the same columns differ in their rows alone. -/
theorem Alike.store_eq (h : t.Alike t') (hname : t'.name = t.name) :
    t'.store = { t.store with rows := t'.store.rows } := by
  simp only [store, hname, h.specs, h.computed]

/-- A single row of a table is changed. -/
theorem rows_store_set (hsize : t'.live.size = t.live.size) (hother : ∀ r, r ≠ row → t'.cells? r = t.cells? r) :
    t'.store.rows = t.store.rows.set row (t'.cells? row) := by
  refine List.ext_getElem (by simp [hsize]) fun r hr hr' => ?_
  rw [List.getElem_set]
  split_ifs with heq
  · subst heq
    simp [store]
  · simpa [store] using hother r (Ne.symm heq)

/-- A table without rows. -/
theorem store_ofSchema (s : Schema) : (ofSchema s).store = Store.ofSchema s := by
  simp [store, ofSchema, Store.ofSchema, Function.comp_def, Computed.ids, Computed.toList]

namespace WellFormed

theorem store_addRow (h : t.WellFormed) :
    t.addRow.1.store = { t.store with rows := t.store.rows ++ [some t.store.defaults] } := by
  have hold : ∀ r < t.live.size, t.addRow.1.cells? r = t.cells? r := by
    intro r hr
    refine cells?_eq ?_ h.stored_addRow
    rw [mem_rows_addRow, or_iff_left (by omega)]
  have hnew : t.addRow.1.cells? t.live.size = some t.store.defaults := by
    rw [cells?_of_live (mem_rows_addRow.2 (.inr rfl)), defaults_store, funext h.stored_addRow_self]
  have hrows : t.addRow.1.store.rows = t.store.rows ++ [some t.store.defaults] := by
    have hsize : t.addRow.1.live.size = t.live.size + 1 := by simp [Table.addRow]
    simp only [store, hsize, List.range_succ, List.map_append, List.map_cons, List.map_nil, hnew]
    rw [List.map_congr_left fun r hr => hold r (List.mem_range.1 hr)]
  rw [alike_addRow.store_eq rfl, hrows]

theorem store_write (h : t.WellFormed) (hrow : row ∈ t.rows) (hkind : t.storedKind? id = some value.kind)
    {cells : Cells} (hcells : t.cells? row = some cells) :
    (t.write id row value).store =
      { t.store with rows := t.store.rows.set row (some (Function.update cells id (some value))) } := by
  have hnew : (t.write id row value).cells? row = some (Function.update cells id (some value)) := by
    rw [cells?_of_live hrow, Option.some.injEq] at hcells
    rw [cells?_of_live (by rwa [rows_write]), ← hcells]
    congr 1
    funext id'
    by_cases hid : id' = id
    · subst hid
      rw [Function.update_self, h.stored_write_self hrow hkind]
      rfl
    · rw [Function.update_of_ne hid, stored_write_of_ne hid]
  have hrows : (t.write id row value).store.rows =
      t.store.rows.set row (some (Function.update cells id (some value))) := by
    rw [← hnew]
    exact rows_store_set rfl fun r hr => cells?_eq Iff.rfl fun _ => stored_write hr
  rw [alike_write.store_eq rfl, hrows]

end WellFormed

theorem store_remove (t : Table) (row : Nat) :
    (t.remove row).store = { t.store with rows := t.store.rows.set row none } := by
  have hnew : (t.remove row).cells? row = none := by
    refine cells?_of_dead fun hmem => ?_
    exact (mem_rows_remove.1 hmem).2 rfl
  have hrows : (t.remove row).store.rows = t.store.rows.set row none := by
    rw [← hnew]
    refine rows_store_set (by simp [remove]) fun r hr => cells?_eq ?_ fun _ => stored_remove hr
    rw [mem_rows_remove, and_iff_left hr]
  rw [alike_remove.store_eq rfl, hrows]

/-! ## Calls -/

/-- A row that is not live cannot be written. -/
theorem setValue_of_dead (h : row ∉ t.rows) : t.setValue id row value = (t, .error (.rowNotFound t.name row)) := by
  rw [setValue, if_pos (by simpa [mem_rows] using h)]

theorem setValue_of_computed (h : row ∈ t.rows) (hid : id ∈ t.computed.ids) :
    t.setValue id row value = (t, .error (.invalidOperation .readOnlyColumn)) := by
  rw [setValue, if_neg (by simpa using mem_rows.1 h), if_pos (Computed.mem_ids_iff.1 hid)]

theorem setValue_of_unknown (h : row ∈ t.rows) (hid : id ∉ t.computed.ids) (hspec : t.spec? id = none) :
    t.setValue id row value = (t, .error (.columnNotFound t.name id)) := by
  have hcolumn : t.column? id = none := Option.map_eq_none_iff.1 hspec
  rw [setValue, if_neg (by simpa using mem_rows.1 h), if_neg (mt Computed.mem_ids_iff.2 hid)]
  simp only [hcolumn]

theorem WellFormed.setValue_of_mismatch {spec : ColumnSpec} (hformed : t.WellFormed) (h : row ∈ t.rows)
    (hid : id ∉ t.computed.ids) (hspec : t.spec? id = some spec) (hkind : value.kind ≠ spec.kind) :
    t.setValue id row value = (t, .error (.typeMismatch spec.kind value.kind)) := by
  obtain ⟨column, hcolumn, rfl⟩ := Option.map_eq_some_iff.1 hspec
  rcases hset : t.setValue id row value with ⟨t', answer⟩
  have hanswer : (t.setValue id row value).2 = .error (.typeMismatch column.spec.kind value.kind) := by
    rw [setValue, if_neg (by simpa using mem_rows.1 h), if_neg (mt Computed.mem_ids_iff.2 hid)]
    simp only [hcolumn, Column.write, Value.expectKind, if_neg hkind]
    rfl
  rw [hset] at hanswer
  obtain rfl : answer = _ := hanswer
  rw [hformed.setValue_of_error hset]

theorem deleteRow_of_dead (h : row ∉ t.rows) : t.deleteRow row = (t, .error (.rowNotFound t.name row)) := by
  rw [deleteRow, if_pos (by simpa [mem_rows] using h)]

/-- Whether a name is that of a column. -/
def isKnown (t : Table) (id : String) : Bool := (t.column? id).isSome || (t.computed.column? id).isSome

theorem known_store (t : Table) : t.store.known = t.isKnown := by
  funext id
  have hstored : (t.spec? id).isSome = (t.column? id).isSome := Option.isSome_map
  have hcomputed : decide (id ∈ t.store.computed) = (t.computed.column? id).isSome := by
    rw [Bool.eq_iff_iff, decide_eq_true_iff]
    exact Computed.mem_ids_iff
  rw [Store.known, spec?_store, hstored, hcomputed, isKnown]

theorem addComputed_eq (t : Table) (column : ComputedColumn) :
    t.addComputed column = if t.isKnown column.id = true then (t, .error (.duplicateColumn t.name column.id))
      else match column.dependencies.find? (!t.isKnown ·) with
        | some missing => (t, .error (.columnNotFound t.name missing))
        | none => ({ t with computed := ⟨column :: t.computed.newestFirst⟩ }, .ok ()) := by
  have hadd : t.computed.register t.name (fun id => (t.column? id).isSome) column =
      if t.isKnown column.id = true then (t.computed, .error (.duplicateColumn t.name column.id))
      else match column.dependencies.find? (!t.isKnown ·) with
        | some missing => (t.computed, .error (.columnNotFound t.name missing))
        | none => (⟨column :: t.computed.newestFirst⟩, .ok ()) := rfl
  rw [addComputed, hadd]
  split_ifs
  · rfl
  · rcases column.dependencies.find? (!t.isKnown ·) <;> rfl

namespace WellFormed

theorem refines_setValue (h : t.WellFormed) (id : String) (row : Nat) (value : Value) :
    (t.answer (.setValue id row value)).1.WellFormed ∧
      ((t.answer (.setValue id row value)).1.store, (t.answer (.setValue id row value)).2) =
        t.store.answer (.setValue id row value) := by
  rw [Store.answer, row?_store, spec?_store]
  by_cases hrow : row ∈ t.rows
  · have hcells := cells?_of_live hrow
    simp only [hcells]
    by_cases hid : id ∈ t.computed.ids
    · simp only [answer, call, setValue_of_computed hrow hid]
      exact ⟨h, (if_pos hid).symm⟩
    rw [if_neg (show id ∉ t.store.computed from hid)]
    rcases hspec : t.spec? id with - | spec
    · simp only [answer, call, setValue_of_unknown hrow hid hspec]
      exact ⟨h, rfl⟩
    by_cases hkind : value.kind = spec.kind
    · have hstored : t.storedKind? id = some value.kind := by
        obtain ⟨column, hcolumn, rfl⟩ := Option.map_eq_some_iff.1 hspec
        rw [storedKind?, hcolumn, hkind, Option.map_some]
      obtain ⟨signals, hset⟩ := setValue_ok h hrow hstored
      simp only [answer, call, hset]
      refine ⟨h.write hstored row, ?_⟩
      rw [if_neg (not_not.2 hkind), h.store_write hrow hstored hcells]
    · simp only [answer, call, h.setValue_of_mismatch hrow hid hspec hkind]
      exact ⟨h, (if_pos hkind).symm⟩
  · simp only [cells?_of_dead hrow, answer, call, setValue_of_dead hrow]
    exact ⟨h, rfl⟩

theorem refines_deleteRow (h : t.WellFormed) (row : Nat) :
    (t.answer (.deleteRow row)).1.WellFormed ∧
      ((t.answer (.deleteRow row)).1.store, (t.answer (.deleteRow row)).2) = t.store.answer (.deleteRow row) := by
  rw [Store.answer, row?_store]
  by_cases hrow : row ∈ t.rows
  · simp only [cells?_of_live hrow, answer, call, deleteRow_ok hrow]
    exact ⟨h.remove hrow, by rw [store_remove]⟩
  · simp only [cells?_of_dead hrow, answer, call, deleteRow_of_dead hrow]
    exact ⟨h, rfl⟩

theorem refines_addComputed (h : t.WellFormed) (column : ComputedColumn) :
    (t.answer (.addComputed column)).1.WellFormed ∧
      ((t.answer (.addComputed column)).1.store, (t.answer (.addComputed column)).2) =
        t.store.answer (.addComputed column) := by
  have hname : t.store.name = t.name := rfl
  rw [Store.answer, known_store, hname]
  by_cases hduplicate : t.isKnown column.id = true
  · simp only [answer, call, addComputed_eq, if_pos hduplicate]
    exact ⟨h, trivial⟩
  rcases hfind : column.dependencies.find? (!t.isKnown ·) with - | missing
  · have hadd : t.addComputed column = ({ t with computed := ⟨column :: t.computed.newestFirst⟩ }, .ok ()) := by
      rw [addComputed_eq, if_neg hduplicate, hfind]
    simp only [answer, call, hadd, if_neg hduplicate]
    refine ⟨(h.addComputed hadd).1, ?_⟩
    have hids : Computed.ids ⟨column :: t.computed.newestFirst⟩ = t.computed.ids ++ [column.id] :=
      Computed.ids_of_cons rfl
    simp only [store, hids]
    rfl
  · simp only [answer, call, addComputed_eq, if_neg hduplicate, hfind]
    exact ⟨h, trivial⟩

/-- A call answers what it answers for the store, and leaves the store that it leaves. -/
theorem refines (h : t.WellFormed) (c : Call) :
    (t.answer c).1.WellFormed ∧ ((t.answer c).1.store, (t.answer c).2) = t.store.answer c := by
  cases c with
  | addRow =>
    refine ⟨h.addRow, ?_⟩
    rw [Store.answer, ← h.store_addRow, length_rows_store]
    rfl
  | setValue column row value => exact h.refines_setValue column row value
  | deleteRow row => exact h.refines_deleteRow row
  | addComputed column => exact h.refines_addComputed column

/-- So does a run of calls. -/
theorem refines_run (h : t.WellFormed) (calls : List Call) :
    (Call.run answer t calls).1.WellFormed ∧
      ((Call.run answer t calls).1.store, (Call.run answer t calls).2) = Call.run Store.answer t.store calls := by
  induction calls using List.reverseRecOn with
  | nil => exact ⟨h, rfl⟩
  | append_singleton calls c ih =>
    obtain ⟨hformed, hrun⟩ := ih
    obtain ⟨hnext, hcall⟩ := hformed.refines c
    rw [Call.run_concat, Call.run_concat, ← hrun]
    refine ⟨hnext, ?_⟩
    simp only [← hcall]

end WellFormed

end Table

end LiveTables
