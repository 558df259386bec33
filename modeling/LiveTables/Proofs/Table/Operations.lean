import LiveTables.Proofs.Computed.Registry
import LiveTables.Table.Basic
import Mathlib.Data.List.Nodup
import Mathlib.Data.List.Pairwise

/-!
# Operations of a stored table

Between operations a table has cells for all of its rows, each of the kind of its column, whatever its
computed columns compute, and counts the rows that are live (`Table.WellFormed`). An operation that goes through is
one of three changes of the columns: a row is added at the end, a row is taken out (`Table.remove`), or a cell is
written (`Table.write`). Each comes with the rows after it, and with what its cells read (`get_addRow`, `get_remove`,
`get_write`): the cells of other rows stay, and so do those of the same row that do not depend on the cell written.

An operation that is refused leaves the table as it was (`WellFormed.setValue_of_error`, `deleteRow_of_error`,
`addComputed_of_error`).
-/

namespace LiveTables

/-- What an operation leaves and answers, if it is not refused. -/
def accepted? {σ α : Type} : σ × Except TableError α → Option (σ × α)
  | (s, .ok a) => some (s, a)
  | (_, .error _) => none

theorem accepted?_eq_some {σ α : Type} {x : σ × Except TableError α} {s : σ} {a : α} :
    accepted? x = some (s, a) ↔ x = (s, .ok a) := by
  obtain ⟨s', e | a'⟩ := x <;> simp [accepted?]

/-- A column that refuses a value keeps its cells. -/
theorem Column.write_of_error {c c' : Column} {row : Nat} {value : Value} {e : TableError}
    (hset : c.write row value = (c', .error e)) : c' = c := by
  rw [write] at hset
  split at hset
  · exact (Prod.mk.inj hset).1.symm
  · split_ifs at hset
    · cases hset
    · exact (Prod.mk.inj hset).1.symm

namespace Table

variable {t t' : Table} {id : String} {row r : Nat} {value : Value} {signals : List Signal}

/-- The description of a stored column. -/
def spec? (t : Table) (id : String) : Option ColumnSpec := (t.column? id).map (·.spec)

/-- The kind of a stored column. -/
def storedKind? (t : Table) (id : String) : Option Kind := (t.column? id).map (·.spec.kind)

/-- What holds of a table between operations, whatever its computed columns compute. -/
structure WellFormed (t : Table) : Prop where
  nodup : (t.columns.map (·.spec.id)).Nodup
  sized : ∀ c ∈ t.columns, c.cells.size = t.live.size
  counted : t.rowCount = t.rows.length
  typed : ∀ c ∈ t.columns, ∀ v ∈ c.cells, v.kind = c.spec.kind
  defaults : ∀ c ∈ t.columns, c.spec.default.kind = c.spec.kind
  layered : Layered t.storedKind? t.computed.newestFirst

/-- The computed columns give values of their kinds. -/
def WellTyped (t : Table) : Prop :=
  ∀ id col, t.computed.column? id = some col → col.WellTyped (t.computed.kind? t.storedKind?)

/-! ## Reading -/

theorem mem_rows : r ∈ t.rows ↔ t.isLive r = true := by
  rw [rows, List.mem_filter, List.mem_range, and_iff_right_iff_imp]
  intro h
  by_contra hlt
  rw [isLive, Array.getElem?_eq_none (by omega)] at h
  exact Bool.noConfusion h

theorem lt_of_mem_rows (h : r ∈ t.rows) : r < t.live.size :=
  List.mem_range.1 (List.mem_filter.1 h).1

theorem nodup_rows (t : Table) : t.rows.Nodup := List.nodup_range.filter _

theorem column?_eq_some {c : Column} (h : t.column? id = some c) : c ∈ t.columns ∧ c.spec.id = id := by
  refine ⟨List.mem_of_find?_eq_some h, ?_⟩
  simpa using List.find?_some h

theorem exists_column? {k : Kind} (h : t.storedKind? id = some k) :
    ∃ c, t.column? id = some c ∧ c.spec.kind = k := Option.map_eq_some_iff.1 h

theorem columnKind_eq_ok_iff {k : Kind} :
    t.columnKind id = .ok k ↔ (t.column? id).map (·.spec.kind) = some k ∨
      t.column? id = none ∧ (t.computed.column? id).map (·.kind) = some k := by
  rw [columnKind]
  rcases t.column? id with - | c
  · rcases t.computed.column? id with - | c <;> simp
  · simp

theorem mem_columnIds {k : Kind} (hk : t.columnKind id = .ok k) : id ∈ t.columnIds := by
  rw [columnIds, List.mem_append]
  rcases columnKind_eq_ok_iff.1 hk with hc | ⟨-, hcol⟩
  · obtain ⟨c, hc, -⟩ := Option.map_eq_some_iff.1 hc
    obtain ⟨hmem, hid⟩ := column?_eq_some hc
    exact .inl (List.mem_map.2 ⟨c, hmem, hid⟩)
  · obtain ⟨col, hcol, -⟩ := Option.map_eq_some_iff.1 hcol
    exact .inr (Computed.mem_ids_of_column? hcol)

theorem get_of_live (h : r ∈ t.rows) : t.get id r = t.computed.read (t.stored r) id := by
  rw [get, if_pos (mem_rows.1 h)]

theorem get_of_dead (h : r ∉ t.rows) : t.get id r = .error (.rowNotFound t.name r) := by
  rw [get, if_neg (mt mem_rows.2 h)]

/-- A row reads as before if it is live as before and its stored cells stay. -/
theorem get_eq (hname : t'.name = t.name) (hcomputed : t'.computed = t.computed)
    (hlive : r ∈ t'.rows ↔ r ∈ t.rows) (hstored : r ∈ t.rows → ∀ id, t'.stored r id = t.stored r id) :
    t'.get id r = t.get id r := by
  by_cases hr : r ∈ t.rows
  · rw [get_of_live hr, get_of_live (hlive.2 hr), hcomputed, funext (hstored hr)]
  · rw [get_of_dead hr, get_of_dead (mt hlive.1 hr), hname]

namespace WellFormed

theorem column?_of_mem (h : t.WellFormed) {c : Column} (hc : c ∈ t.columns) (hid : c.spec.id = id) :
    t.column? id = some c := by
  rcases hcol : t.column? id with - | d
  · have hnot := List.find?_eq_none.1 hcol c hc
    exact absurd hid (by simpa using hnot)
  · obtain ⟨hd, hdid⟩ := column?_eq_some hcol
    rw [List.inj_on_of_nodup_map h.nodup hd hc (hdid.trans hid.symm)]

/-- A column has the kind that it was stored or registered with. -/
theorem columnKind_eq_ok (h : t.WellFormed) {k : Kind} :
    t.columnKind id = .ok k ↔ t.computed.kind? t.storedKind? id = some k := by
  rw [columnKind_eq_ok_iff, Computed.kind?_eq]
  rcases hcol : t.computed.column? id with - | c
  · simp [storedKind?]
  · have hnone : t.column? id = none := by simpa [storedKind?] using h.layered.kindOf_eq_none hcol
    simp [hnone]

theorem toOption_columnKind (h : t.WellFormed) (id : String) :
    (t.columnKind id).toOption = t.computed.kind? t.storedKind? id := by
  refine Option.ext fun k => ?_
  rw [← h.columnKind_eq_ok]
  cases t.columnKind id <;> simp [Except.toOption]

/-- Columns have different names. -/
theorem nodup_columnIds (h : t.WellFormed) : t.columnIds.Nodup := by
  obtain ⟨hnodup, hplain⟩ := h.layered.nodup_ids
  rw [columnIds, List.nodup_append']
  refine ⟨h.nodup, hnodup, fun id hid hcomputed => ?_⟩
  obtain ⟨c, hc, heq⟩ := List.mem_map.1 hid
  have hnone := hplain id hcomputed
  rw [storedKind?, h.column?_of_mem hc heq] at hnone
  exact absurd hnone (by simp)

/-- Every column of the table has a kind. -/
theorem exists_columnKind (h : t.WellFormed) (hid : id ∈ t.columnIds) : ∃ k, t.columnKind id = .ok k := by
  rw [columnIds, List.mem_append] at hid
  rcases hid with hid | hid
  · obtain ⟨c, hc, hcid⟩ := List.mem_map.1 hid
    refine ⟨c.spec.kind, columnKind_eq_ok_iff.2 (.inl ?_)⟩
    rw [h.column?_of_mem hc hcid, Option.map_some]
  · obtain ⟨col, hcol⟩ := Computed.exists_column?_of_mem_ids hid
    exact ⟨col.kind, h.columnKind_eq_ok.2 (Computed.kind?_of_column? hcol)⟩

/-- The cell of a live row in a stored column. -/
theorem stored_ok (h : t.WellFormed) (hr : r ∈ t.rows) {k : Kind} (hk : t.storedKind? id = some k) :
    ∃ v, t.stored r id = .ok v ∧ v.kind = k := by
  obtain ⟨c, hcol, rfl⟩ := exists_column? hk
  have hmem := (column?_eq_some hcol).1
  have hlt : r < c.cells.size := (h.sized c hmem).symm ▸ lt_of_mem_rows hr
  refine ⟨c.cells[r], ?_, h.typed c hmem _ (Array.getElem_mem hlt)⟩
  rw [stored, hcol]
  simp [Column.get?, hlt]

/-- Every cell of a row can be read, and is of the kind of its column. -/
theorem get_ok (h : t.WellFormed) (htyped : t.WellTyped) (hr : r ∈ t.rows) {k : Kind}
    (hk : t.columnKind id = .ok k) : ∃ v, t.get id r = .ok v ∧ v.kind = k := by
  rw [get_of_live hr]
  exact h.layered.read_ok htyped (fun id k hk => h.stored_ok hr hk) id k (h.columnKind_eq_ok.1 hk)

/-- What is read is of the kind of its column. -/
theorem columnKind_of_get (h : t.WellFormed) (hget : t.get id r = .ok value) :
    t.columnKind id = .ok value.kind := by
  have hr : r ∈ t.rows := by
    by_contra hdead
    rw [get_of_dead hdead] at hget
    cases hget
  rw [get_of_live hr] at hget
  rcases hcol : t.computed.column? id with - | col
  · rw [Computed.read_eq_stored hcol] at hget
    rcases hk : t.storedKind? id with - | k
    · have hnone : t.column? id = none := by simpa [storedKind?] using hk
      rw [stored, hnone] at hget
      cases hget
    · obtain ⟨v, hv, rfl⟩ := h.stored_ok hr hk
      obtain rfl := Except.ok.inj (hv.symm.trans hget)
      exact columnKind_eq_ok_iff.2 (.inl hk)
  · rw [h.layered.read_eq_evaluate hcol] at hget
    obtain ⟨vs, -, hkind, rfl⟩ := ComputedColumn.evaluate_eq_ok_iff.1 hget
    rw [h.columnKind_eq_ok, Computed.kind?_of_column? hcol, hkind]

/-- No computed column has the name of a stored one. -/
theorem computed_eq_none (h : t.WellFormed) (hid : t.storedKind? id ≠ none) : t.computed.column? id = none := by
  by_contra hsome
  obtain ⟨col, hcol⟩ := Option.ne_none_iff_exists'.1 hsome
  exact hid (h.layered.kindOf_eq_none hcol)

/-- A stored column reads its cells. -/
theorem get_stored (h : t.WellFormed) (hr : r ∈ t.rows) (hid : t.storedKind? id ≠ none) :
    t.get id r = t.stored r id := by
  rw [get_of_live hr, Computed.read_eq_stored (h.computed_eq_none hid)]

end WellFormed

/-! ## Changing all columns -/

section MapColumns

variable {f : Column → Column} {live : Array Bool} {rowCount : Nat}

theorem column?_map (hspec : ∀ c, (f c).spec = c.spec) :
    column? { t with columns := t.columns.map f, live, rowCount } id = (t.column? id).map f := by
  have hid : ((fun c : Column => decide (c.spec.id = id)) ∘ f) = fun c => decide (c.spec.id = id) := by
    funext c
    simp [hspec]
  rw [column?, List.find?_map, hid, column?]

theorem storedKind?_map (hspec : ∀ c, (f c).spec = c.spec) :
    storedKind? { t with columns := t.columns.map f, live, rowCount } = t.storedKind? := by
  funext id
  rw [storedKind?, column?_map hspec, storedKind?, Option.map_map]
  simp [Function.comp_def, hspec]

/-- Columns that are changed cell by cell. -/
theorem WellFormed.map (h : t.WellFormed) (hspec : ∀ c, (f c).spec = c.spec)
    (hsize : ∀ c ∈ t.columns, (f c).cells.size = live.size)
    (hcount : rowCount = (rows { t with columns := t.columns.map f, live, rowCount }).length)
    (htyped : ∀ c ∈ t.columns, ∀ v ∈ (f c).cells, v.kind = c.spec.kind) :
    WellFormed { t with columns := t.columns.map f, live, rowCount } where
  nodup := by
    have hids : (t.columns.map f).map (·.spec.id) = t.columns.map (·.spec.id) := by
      simp [Function.comp_def, hspec]
    exact hids ▸ h.nodup
  sized := by simpa using hsize
  counted := hcount
  typed := by simpa [hspec] using htyped
  defaults := by simpa [hspec] using h.defaults
  layered := by
    rw [storedKind?_map hspec]
    exact h.layered

/-- A stored cell changes only if the cell of its column does. -/
theorem stored_map (hspec : ∀ c, (f c).spec = c.spec)
    (hcell : ∀ c, t.column? id = some c → (f c).get? r = c.get? r) :
    stored { t with columns := t.columns.map f, live, rowCount } r id = t.stored r id := by
  rw [stored, column?_map hspec, stored]
  rcases hcol : t.column? id with - | c
  · rfl
  · simp only [Option.map_some, hcell c hcol]

/-- The identifiers of columns that are changed cell by cell. -/
theorem columnIds_map (hspec : ∀ c, (f c).spec = c.spec) :
    columnIds { t with columns := t.columns.map f, live, rowCount } = t.columnIds := by
  simp [columnIds, Function.comp_def, hspec]

end MapColumns

/-- Tables with the same columns, up to their cells. -/
structure Alike (t t' : Table) : Prop where
  specs : t'.columns.map (·.spec) = t.columns.map (·.spec)
  computed : t'.computed = t.computed

namespace Alike

theorem refl (t : Table) : t.Alike t := ⟨rfl, rfl⟩

theorem symm (h : t.Alike t') : t'.Alike t := ⟨h.specs.symm, h.computed.symm⟩

theorem trans {t'' : Table} (h : t.Alike t') (h' : t'.Alike t'') : t.Alike t'' :=
  ⟨h'.specs.trans h.specs, h'.computed.trans h.computed⟩

theorem map {f : Column → Column} {live : Array Bool} {rowCount : Nat} (hspec : ∀ c, (f c).spec = c.spec) :
    t.Alike { t with columns := t.columns.map f, live, rowCount } where
  specs := by simp [Function.comp_def, hspec]
  computed := rfl

theorem spec? (h : t.Alike t') : t'.spec? = t.spec? := by
  have hfind (t : Table) (id : String) :
      t.spec? id = (t.columns.map (·.spec)).find? fun s => decide (s.id = id) := by
    rw [List.find?_map]
    rfl
  funext id
  rw [hfind, hfind, h.specs]

theorem storedKind? (h : t.Alike t') : t'.storedKind? = t.storedKind? := by
  have hspec (t : Table) (id : String) : t.storedKind? id = (t.spec? id).map (·.kind) := by
    rw [Table.spec?, Option.map_map]
    rfl
  funext id
  rw [hspec, hspec, h.spec?]

theorem columnIds (h : t.Alike t') : t'.columnIds = t.columnIds := by
  have hids (t : Table) : t.columnIds = (t.columns.map (·.spec)).map (·.id) ++ t.computed.ids := by
    rw [List.map_map]
    rfl
  rw [hids, hids, h.specs, h.computed]

theorem columnKind (h : t.Alike t') (hformed : t.WellFormed) (hformed' : t'.WellFormed) :
    (t'.columnKind id).toOption = (t.columnKind id).toOption := by
  rw [hformed.toOption_columnKind, hformed'.toOption_columnKind, h.computed, h.storedKind?]

theorem wellTyped (h : t.Alike t') (htyped : t.WellTyped) : t'.WellTyped := by
  unfold WellTyped
  rw [h.computed, h.storedKind?]
  exact htyped

end Alike

/-- Rows with the same stored cells in tables with the same columns read the same. -/
theorem WellFormed.get_eq_of_alike {row' : Nat} (h : t.WellFormed) (halike : t.Alike t')
    (hrow : row ∈ t.rows) (hrow' : row' ∈ t'.rows)
    (hstored : ∀ c, (t.stored row c).toOption = (t'.stored row' c).toOption) (hid : id ∈ t.columnIds) :
    t.get id row = t'.get id row' := by
  obtain ⟨k, hk⟩ := h.exists_columnKind hid
  rw [get_of_live hrow, get_of_live hrow', halike.computed]
  refine h.layered.read_congr (fun c hc => ?_) id (by simp [h.columnKind_eq_ok.1 hk])
  obtain ⟨k, hk⟩ := Option.ne_none_iff_exists'.1 hc
  obtain ⟨v, hv, -⟩ := h.stored_ok hrow hk
  have hv' : (t'.stored row' c).toOption = some v := by
    rw [← hstored, hv]
    rfl
  rw [hv, Except.eq_ok_of_toOption hv']

/-- The events among signals. -/
def eventsOf (signals : List Signal) : List Event :=
  signals.filterMap fun
    | .event e => some e
    | .cell _ _ => none

/-- The events of a cell that is written. -/
theorem eventsOf_write (id : String) (row : Nat) (columns : List String) :
    eventsOf (.cell id row :: columns.map fun c => .event (.updated row [c])) =
      columns.map fun c => .updated row [c] := by
  simp [eventsOf, List.filterMap_map]

/-! ## Adding a row -/

theorem rows_addRow (t : Table) : t.addRow.1.rows = t.rows ++ [t.live.size] := by
  have hlive (row : Nat) : t.addRow.1.isLive row = if row = t.live.size then true else t.isLive row := by
    show (t.live.push true)[row]?.getD false = _
    rw [Array.getElem?_push]
    split_ifs <;> rfl
  have hsize : t.addRow.1.live.size = t.live.size + 1 := by simp [addRow]
  rw [rows, hsize, List.range_succ, List.filter_append, rows]
  congr 1
  · refine List.filter_congr fun row hrow => ?_
    rw [hlive, if_neg (Nat.ne_of_lt (List.mem_range.1 hrow))]
  · rw [List.filter_cons_of_pos (by rw [hlive, if_pos rfl]), List.filter_nil]

theorem mem_rows_addRow : r ∈ t.addRow.1.rows ↔ r ∈ t.rows ∨ r = t.live.size := by
  rw [rows_addRow, List.mem_append, List.mem_singleton]

theorem alike_addRow : t.Alike t.addRow.1 := .map fun _ => rfl

theorem WellFormed.addRow (h : t.WellFormed) : t.addRow.1.WellFormed := by
  refine h.map (fun c => rfl) (fun c hc => ?_) ?_ fun c hc v hv => ?_
  · simp [Column.push, h.sized c hc]
  · show t.rowCount + 1 = t.addRow.1.rows.length
    rw [rows_addRow, h.counted, List.length_append, List.length_singleton]
  · rcases Array.mem_push.1 hv with hv | rfl
    · exact h.typed c hc v hv
    · exact h.defaults c hc

/-- The cells of an old row are below the one that is pushed. -/
theorem WellFormed.stored_addRow (h : t.WellFormed) (hr : r ∈ t.rows) (id : String) :
    t.addRow.1.stored r id = t.stored r id := by
  refine stored_map (fun c => rfl) fun c hcol => ?_
  have hlt : r < c.cells.size := (h.sized c (column?_eq_some hcol).1).symm ▸ lt_of_mem_rows hr
  simp [Column.get?, Column.push, Array.getElem?_push, Nat.ne_of_lt hlt]

/-- Old rows read as before. -/
theorem WellFormed.get_addRow (h : t.WellFormed) (hr : r ≠ t.live.size) (id : String) :
    t.addRow.1.get id r = t.get id r := by
  have hlive : r ∈ t.addRow.1.rows ↔ r ∈ t.rows := by rw [mem_rows_addRow, or_iff_left hr]
  exact get_eq rfl rfl hlive h.stored_addRow

/-- The cells of the new row hold the defaults. -/
theorem WellFormed.stored_addRow_self (h : t.WellFormed) (id : String) :
    (t.addRow.1.stored t.live.size id).toOption = (t.spec? id).map (·.default) := by
  have hcol : t.addRow.1.column? id = (t.column? id).map Column.push := column?_map fun c => rfl
  rw [stored, hcol, spec?]
  rcases hc : t.column? id with - | c
  · rfl
  · have hsize : c.cells.size = t.live.size := h.sized c (column?_eq_some hc).1
    have hcell : c.push.get? t.live.size = some c.spec.default := by
      rw [← hsize]
      exact Array.getElem?_push_size
    simp only [Option.map_some, hcell]
    rfl

/-! ## Deleting a row -/

/-- The table without a row. -/
def remove (t : Table) (row : Nat) : Table :=
  { t with
    columns := t.columns.map (·.clear row), live := t.live.setIfInBounds row false, rowCount := t.rowCount - 1 }

/-- What the deletion of a row amounts to. -/
theorem deleteRow_eq_ok (hdelete : t.deleteRow row = (t', .ok signals)) :
    row ∈ t.rows ∧ t' = t.remove row ∧ signals = [.event (.deleted row)] := by
  rw [deleteRow] at hdelete
  split_ifs at hdelete with hlive
  · cases hdelete
  · obtain ⟨rfl, hsignals⟩ := Prod.mk.inj hdelete
    exact ⟨mem_rows.2 (by simpa using hlive), rfl, (Except.ok.inj hsignals).symm⟩

/-- A deletion that is refused leaves the table as it was. -/
theorem deleteRow_of_error {e : TableError} (hdelete : t.deleteRow row = (t', .error e)) : t' = t := by
  rw [deleteRow] at hdelete
  split_ifs at hdelete
  · exact (Prod.mk.inj hdelete).1.symm
  · cases hdelete

theorem deleteRow_ok (hrow : row ∈ t.rows) :
    t.deleteRow row = (t.remove row, .ok [.event (.deleted row)]) := by
  rw [deleteRow, if_neg (by simpa using mem_rows.1 hrow)]
  rfl

theorem rows_remove (t : Table) (row : Nat) : (t.remove row).rows = t.rows.erase row := by
  have hlive (r : Nat) : (t.remove row).isLive r = (r != row && t.isLive r) := by
    show (t.live.setIfInBounds row false)[r]?.getD false = _
    rw [Array.getElem?_setIfInBounds, isLive]
    by_cases heq : row = r
    · subst heq
      by_cases hlt : row < t.live.size <;> simp [hlt]
    · simp [heq, Ne.symm heq]
  have hsize : (t.remove row).live.size = t.live.size := by simp [remove]
  rw [t.nodup_rows.erase_eq_filter, rows, hsize, rows, List.filter_filter]
  exact List.filter_congr fun r _ => hlive r

theorem mem_rows_remove : r ∈ (t.remove row).rows ↔ r ∈ t.rows ∧ r ≠ row := by
  rw [rows_remove, t.nodup_rows.mem_erase_iff, and_comm]

theorem alike_remove : t.Alike (t.remove row) := .map fun _ => rfl

theorem WellFormed.remove (h : t.WellFormed) (hrow : row ∈ t.rows) : (t.remove row).WellFormed := by
  refine h.map (fun c => rfl) (fun c hc => ?_) ?_ fun c hc v hv => ?_
  · simp [Column.clear, h.sized c hc]
  · show t.rowCount - 1 = (t.remove row).rows.length
    rw [rows_remove, List.length_erase_of_mem hrow, h.counted]
  · rcases Array.mem_or_eq_of_mem_setIfInBounds hv with hv | rfl
    · exact h.typed c hc v hv
    · exact h.defaults c hc

theorem stored_remove (hne : r ≠ row) (id : String) : (t.remove row).stored r id = t.stored r id := by
  refine stored_map (fun c => rfl) fun c hcol => ?_
  simp [Column.get?, Column.clear, Ne.symm hne]

/-- Other rows read as before. -/
theorem get_remove (hne : r ≠ row) (id : String) : (t.remove row).get id r = t.get id r := by
  have hlive : r ∈ (t.remove row).rows ↔ r ∈ t.rows := by rw [mem_rows_remove, and_iff_left hne]
  exact get_eq rfl rfl hlive fun _ => stored_remove hne

/-! ## Writing a cell -/

/-- The change of the columns when a cell is written. -/
def writeCell (id : String) (row : Nat) (value : Value) (c : Column) : Column :=
  if c.spec.id = id then { c with cells := c.cells.setIfInBounds row value } else c

theorem spec_writeCell (c : Column) : (writeCell id row value c).spec = c.spec := by
  rw [writeCell]
  split_ifs <;> rfl

/-- The table after a cell was written. -/
def write (t : Table) (id : String) (row : Nat) (value : Value) : Table :=
  { t with columns := t.columns.map (writeCell id row value) }

theorem alike_write : t.Alike (t.write id row value) := .map spec_writeCell

@[simp] theorem rows_write : (t.write id row value).rows = t.rows := rfl

theorem WellFormed.write (h : t.WellFormed) (hkind : t.storedKind? id = some value.kind) (row : Nat) :
    (t.write id row value).WellFormed := by
  refine h.map spec_writeCell (fun c hc => ?_) h.counted fun c hc v hv => ?_
  · rw [writeCell]
    split_ifs
    · simpa using h.sized c hc
    · exact h.sized c hc
  · rw [writeCell] at hv
    split_ifs at hv with hid
    · rcases Array.mem_or_eq_of_mem_setIfInBounds hv with hv | rfl
      · exact h.typed c hc v hv
      · -- the value that is written has the kind of the column
        have hcol : t.column? id = some c := h.column?_of_mem hc hid
        rw [storedKind?, hcol] at hkind
        exact (Option.some.inj hkind).symm
    · exact h.typed c hc v hv

/-- What it takes that a cell is written, and what is put into the columns, in any table. -/
theorem exists_written (hset : t.setValue id row value = (t', .ok signals)) :
    ∃ c, row ∈ t.rows ∧ t.computed.column? id = none ∧ t.column? id = some c ∧ c.spec.kind = value.kind ∧
      row < c.cells.size ∧
      t' = { t with columns := t.columns.map fun d =>
        if d.spec.id = id then { c with cells := c.cells.setIfInBounds row value } else d } ∧
      signals = .cell id row :: (id :: t.computed.dependentsOf [id]).map fun c => .event (.updated row [c]) := by
  rw [setValue] at hset
  split_ifs at hset with hlive hcomputed
  · cases hset
  · cases hset
  rcases hcol : t.column? id with - | c
  · simp [hcol] at hset
  rw [hcol] at hset
  simp only [Column.write] at hset
  rcases hkind : value.expectKind c.spec.kind with e | u
  · simp [hkind, Except.map] at hset
  rw [hkind] at hset
  by_cases hlt : row < c.cells.size
  case neg => simp [hlt, Except.map] at hset
  simp only [if_pos hlt] at hset
  obtain ⟨rfl, hsignals⟩ := Prod.mk.inj hset
  obtain rfl := Except.ok.inj hsignals
  exact ⟨c, mem_rows.2 (by simpa using hlive), by simpa using hcomputed, rfl, (Value.expectKind_eq_ok.1 hkind).symm,
    hlt, rfl, rfl⟩

/-- A write that is refused leaves the table as it was. -/
theorem WellFormed.setValue_of_error {e : TableError} (h : t.WellFormed)
    (hset : t.setValue id row value = (t', .error e)) : t' = t := by
  rw [setValue] at hset
  split_ifs at hset with hlive hcomputed
  · exact (Prod.mk.inj hset).1.symm
  · exact (Prod.mk.inj hset).1.symm
  rcases hcol : t.column? id with - | c
  · rw [hcol] at hset
    exact (Prod.mk.inj hset).1.symm
  obtain ⟨hmem, hid⟩ := column?_eq_some hcol
  rcases hwritten : c.write row value with ⟨written, e' | ⟨⟩⟩
  · -- the column is put back as it was, and it is the only one of its identifier
    obtain rfl := Column.write_of_error hwritten
    have hcolumns : (t.columns.map fun d => if d.spec.id = id then written else d) = t.columns := by
      refine (List.map_congr_left fun d hd => ?_).trans (List.map_id _)
      split_ifs with hsame
      · rw [id_eq, List.inj_on_of_nodup_map h.nodup hd hmem (hsame.trans hid.symm)]
      · rfl
    simp only [hcol, hwritten, hcolumns] at hset
    exact (Prod.mk.inj hset).1.symm
  · simp [hcol, hwritten, Except.map] at hset

/-- What a write of a cell amounts to. -/
theorem setValue_eq_ok (h : t.WellFormed) (hset : t.setValue id row value = (t', .ok signals)) :
    row ∈ t.rows ∧ t.computed.column? id = none ∧ t.storedKind? id = some value.kind ∧
    t' = t.write id row value ∧
    signals = .cell id row :: (id :: t.computed.dependentsOf [id]).map fun c => .event (.updated row [c]) := by
  obtain ⟨c, hlive, hplain, hcol, hkind, -, rfl, rfl⟩ := exists_written hset
  obtain ⟨hmem, hid⟩ := column?_eq_some hcol
  refine ⟨hlive, hplain, by rw [storedKind?, hcol, Option.map_some, hkind], ?_, rfl⟩
  -- the column that is written is the only one of its identifier
  rw [write]
  congr 1
  refine List.map_congr_left fun d hd => ?_
  rw [writeCell]
  split_ifs with hsame
  · rw [List.inj_on_of_nodup_map h.nodup hd hmem (hsame.trans hid.symm)]
  · rfl

/-- The cell that was written reads as the value, in any table. -/
theorem get_of_setValue (hset : t.setValue id row value = (t', .ok signals)) : t'.get id row = .ok value := by
  obtain ⟨c, hlive, hplain, hcol, -, hlt, heq, -⟩ := exists_written hset
  have hlive' : row ∈ t'.rows := heq ▸ hlive
  obtain ⟨-, hid⟩ := column?_eq_some hcol
  set written : Column := { c with cells := c.cells.setIfInBounds row value } with hwritten
  -- all columns of the identifier are overwritten, and the first of them is what is read
  have hcol' : t'.column? id = some written := by
    have hfind : t.columns.find? ((fun d => decide (d.spec.id = id)) ∘ fun d => if d.spec.id = id then written else d) =
        some c := by
      rw [← hcol, column?]
      congr 1
      funext d
      by_cases hd : d.spec.id = id <;> simp [hd, hid, hwritten]
    rw [heq, column?, List.find?_map, hfind, Option.map_some, if_pos hid]
  have hplain' : t'.computed.column? id = none := heq ▸ hplain
  rw [get_of_live hlive', Computed.read_eq_stored hplain', stored, hcol']
  simp [hwritten, Column.get?, hlt]

/-- A value of the right kind can be written to a stored column of a live row. -/
theorem setValue_ok (h : t.WellFormed) (hrow : row ∈ t.rows) (hkind : t.storedKind? id = some value.kind) :
    ∃ signals, t.setValue id row value = (t.write id row value, .ok signals) := by
  obtain ⟨c, hcol, hc⟩ := exists_column? hkind
  have hlt : row < c.cells.size := by
    rw [h.sized c (column?_eq_some hcol).1]
    exact lt_of_mem_rows hrow
  have hplain : t.computed.column? id = none := by
    apply h.computed_eq_none
    simp [hkind]
  have hok : ∃ t' signals, t.setValue id row value = (t', .ok signals) := by
    rw [setValue, if_neg (by simpa using mem_rows.1 hrow), hplain]
    simp [hcol, Column.write, Value.expectKind_eq_ok.2 hc.symm, hlt, Except.map]
  obtain ⟨t', signals, hset⟩ := hok
  obtain ⟨-, -, -, rfl, -⟩ := setValue_eq_ok h hset
  exact ⟨signals, hset⟩

theorem stored_write (hne : r ≠ row) (id' : String) : (t.write id row value).stored r id' = t.stored r id' := by
  refine stored_map spec_writeCell fun c hc => ?_
  rw [writeCell]
  split_ifs
  · simp [Column.get?, Ne.symm hne]
  · rfl

/-- Other rows read as before. -/
theorem get_write_of_ne (hne : r ≠ row) (id' : String) : (t.write id row value).get id' r = t.get id' r :=
  get_eq rfl rfl Iff.rfl fun _ => stored_write hne

theorem stored_write_of_ne {id' : String} (hne : id' ≠ id) :
    (t.write id row value).stored r id' = t.stored r id' := by
  refine stored_map spec_writeCell fun c hc => ?_
  have hother : c.spec.id ≠ id := by
    rw [(column?_eq_some hc).2]
    exact hne
  rw [writeCell, if_neg hother]

/-- The cell that is written holds the value. -/
theorem WellFormed.stored_write_self (h : t.WellFormed) (hrow : row ∈ t.rows)
    (hkind : t.storedKind? id = some value.kind) : (t.write id row value).stored row id = .ok value := by
  obtain ⟨c, hcol, -⟩ := exists_column? hkind
  obtain ⟨hmem, hid⟩ := column?_eq_some hcol
  have hlt : row < c.cells.size := (h.sized c hmem).symm ▸ lt_of_mem_rows hrow
  have hcol' : (t.write id row value).column? id = some (writeCell id row value c) := by
    rw [Table.write, column?_map spec_writeCell, hcol, Option.map_some]
  rw [stored, hcol', writeCell, if_pos hid]
  simp [Column.get?, hlt]

/-- What does not depend on the cell that is written reads as before. -/
theorem WellFormed.get_write (h : t.WellFormed) {c : String} (hc : c ∉ id :: t.computed.dependentsOf [id]) :
    (t.write id row value).get c r = t.get c r := by
  by_cases hr : r ∉ t.rows
  · rw [get_of_dead hr, get_of_dead (by rwa [rows_write])]
    rfl
  rw [not_not] at hr
  rw [get_of_live hr, get_of_live (by rwa [rows_write])]
  have hplain (c : String) (hnone : t.computed.column? c = none)
      (hc : c ∉ id :: t.computed.dependentsOf [id]) :
      t.computed.read ((t.write id row value).stored r) c = t.computed.read (t.stored r) c := by
    rw [Computed.read_eq_stored hnone, Computed.read_eq_stored hnone]
    exact stored_write_of_ne fun heq => hc (heq ▸ List.mem_cons_self)
  -- the induction is only for columns that the table has
  by_cases hknown : t.computed.kind? t.storedKind? c = none
  · refine hplain c ?_ hc
    by_contra hsome
    obtain ⟨col, hcol⟩ := Option.ne_none_iff_exists'.1 hsome
    exact absurd ((Computed.kind?_of_column? hcol).symm.trans hknown) (by simp)
  revert hc
  refine h.layered.induction (motive := fun c => c ∉ id :: t.computed.dependentsOf [id] →
    t.computed.read ((t.write id row value).stored r) c = t.computed.read (t.stored r) c)
    (fun c hnone _ => hplain c hnone) (fun c col hcol ih hc => ?_) c hknown
  rw [h.layered.read_eq_evaluate hcol, h.layered.read_eq_evaluate hcol]
  refine ComputedColumn.evaluate_congr fun d hd => ih d hd fun hmem => hc ?_
  refine List.mem_cons_of_mem _ ((h.layered.mem_dependentsOf_iff hcol).2 ⟨d, hd, ?_⟩)
  simpa using hmem

/-- The columns that a write of a cell announces are columns of the table. -/
theorem WellFormed.mem_columnIds_of_write (h : t.WellFormed) {k : Kind} (hkind : t.storedKind? id = some k)
    {c : String} (hc : c ∈ id :: t.computed.dependentsOf [id]) : c ∈ t.columnIds := by
  rcases List.mem_cons.1 hc with rfl | hc
  · exact mem_columnIds (columnKind_eq_ok_iff.2 (.inl hkind))
  · obtain ⟨col, hcol⟩ := h.layered.exists_column?_of_mem hc
    exact mem_columnIds (h.columnKind_eq_ok.2 (Computed.kind?_of_column? hcol))

/-! ## Tables at the start -/

theorem wellFormed_ofSchema (s : Schema) : (ofSchema s).WellFormed where
  nodup := by simpa [ofSchema, Function.comp_def] using s.nodup
  sized := by simp [ofSchema]
  counted := rfl
  typed := by simp [ofSchema]
  defaults := by simpa [ofSchema] using s.kind_default
  layered := .nil

/-- Registering a column, whatever it computes. -/
theorem WellFormed.addComputed {col : ComputedColumn} (h : t.WellFormed) (hadd : t.addComputed col = (t', .ok ())) :
    t'.WellFormed ∧ ∃ computed, t' = { t with computed } ∧
      computed.newestFirst = col :: t.computed.newestFirst := by
  rw [Table.addComputed] at hadd
  rcases hc : t.computed.register t.name (fun id => (t.column? id).isSome) col with ⟨computed, answer⟩
  rw [hc] at hadd
  obtain ⟨rfl, rfl⟩ := Prod.mk.inj hadd
  obtain ⟨hlist, hlayered⟩ := h.layered.register (by simp [storedKind?]) hc
  exact ⟨⟨h.nodup, h.sized, h.counted, h.typed, h.defaults, hlayered⟩, computed, rfl, hlist⟩

/-- A column that is refused leaves the table as it was. -/
theorem addComputed_of_error {col : ComputedColumn} {e : TableError} (hadd : t.addComputed col = (t', .error e)) :
    t' = t := by
  rw [addComputed] at hadd
  rcases hregister : t.computed.register t.name (fun id => (t.column? id).isSome) col with ⟨computed, answer⟩
  rw [hregister] at hadd
  obtain ⟨rfl, rfl⟩ := Prod.mk.inj hadd
  rw [Computed.register_of_error hregister]

/-- The columns that were there keep their kinds. -/
theorem WellFormed.columnKind_addComputed {col : ComputedColumn} {k : Kind} (h : t.WellFormed)
    (hadd : t.addComputed col = (t', .ok ())) (hk : t.columnKind id = .ok k) : t'.columnKind id = .ok k := by
  obtain ⟨h', computed, rfl, hcons⟩ := h.addComputed hadd
  rw [h'.columnKind_eq_ok]
  exact h'.layered.kind?_of_cons (h.columnKind_eq_ok.1 hk) hcons

end Table

end LiveTables
