import LiveTables.Proofs.Table.Operations

/-!
# Writes that change places

Of two writes to a cell the last counts (`Table.write_write`). A write can change places with a write to another
cell (`Table.write_comm`), with the deletion of another row (`Table.remove_write`), and, if its row is there, with
the addition of a row (`Table.WellFormed.addRow_write`): the tables are the same to the last cell.
-/

namespace LiveTables

/-- Columns are the same if their descriptions and their cells are. -/
theorem Column.eq_of_cells {c c' : Column} (hspec : c.spec = c'.spec) (hcells : c.cells = c'.cells) : c = c' := by
  obtain ⟨spec, cells⟩ := c
  obtain ⟨spec', cells'⟩ := c'
  rw [Column.mk.injEq]
  exact ⟨hspec, hcells⟩

namespace Table

variable {t : Table} {id id' : String} {row row' : Nat} {value value' : Value} {c : Column}

/-! ### In a column -/

theorem cells_writeCell :
    (writeCell id row value c).cells = if c.spec.id = id then c.cells.setIfInBounds row value else c.cells := by
  rw [writeCell]
  split_ifs <;> rfl

theorem writeCell_writeCell :
    writeCell id row value' (writeCell id row value c) = writeCell id row value' c := by
  refine Column.eq_of_cells ?_ ?_
  · simp only [spec_writeCell]
  · simp only [cells_writeCell, spec_writeCell]
    split_ifs
    · rw [Array.setIfInBounds_setIfInBounds]
    · rfl

theorem writeCell_comm (h : row' ≠ row ∨ id' ≠ id) :
    writeCell id' row' value' (writeCell id row value c) =
      writeCell id row value (writeCell id' row' value' c) := by
  refine Column.eq_of_cells ?_ ?_
  · simp only [spec_writeCell]
  · simp only [cells_writeCell, spec_writeCell]
    split_ifs with hid' hid
    · -- both write to this column, and so to different rows
      have hrow : row ≠ row' := (h.resolve_right (not_not.2 (hid'.symm.trans hid))).symm
      exact Array.setIfInBounds_comm _ _ hrow
    · rfl
    · rfl
    · rfl

theorem clear_writeCell (h : row' ≠ row) :
    (writeCell id row value c).clear row' = writeCell id row value (c.clear row') := by
  refine Column.eq_of_cells ?_ ?_
  · simp only [Column.clear, spec_writeCell]
  · simp only [Column.clear, cells_writeCell, spec_writeCell]
    split_ifs
    · exact Array.setIfInBounds_comm _ _ h.symm
    · rfl

theorem push_writeCell (h : row < c.cells.size) :
    (writeCell id row value c).push = writeCell id row value c.push := by
  refine Column.eq_of_cells ?_ ?_
  · simp only [Column.push, spec_writeCell]
  · simp only [Column.push, cells_writeCell, spec_writeCell]
    split_ifs
    · simp [Array.setIfInBounds, h, Nat.lt_succ_of_lt h, Array.set_push]
    · rfl

/-! ### In a table -/

/-- Changes of the columns, two and two, that amount to the same. -/
theorem map_map_congr {f g f' g' : Column → Column} (h : ∀ c ∈ t.columns, g (f c) = g' (f' c)) :
    (t.columns.map f).map g = (t.columns.map f').map g' := by
  rw [List.map_map, List.map_map]
  exact List.map_congr_left h

theorem write_write (t : Table) (id : String) (row : Nat) (value value' : Value) :
    (t.write id row value).write id row value' = t.write id row value' := by
  unfold write
  congr 1
  rw [List.map_map]
  exact List.map_congr_left fun c _ => writeCell_writeCell

theorem write_comm (t : Table) (h : row' ≠ row ∨ id' ≠ id) :
    (t.write id row value).write id' row' value' = (t.write id' row' value').write id row value := by
  unfold write
  congr 1
  exact map_map_congr fun c _ => writeCell_comm h

theorem remove_write (t : Table) (h : row' ≠ row) :
    (t.write id row value).remove row' = (t.remove row').write id row value := by
  unfold write remove
  congr 1
  exact map_map_congr fun c _ => clear_writeCell h

theorem WellFormed.addRow_write (h : t.WellFormed) (hrow : row ∈ t.rows) :
    (t.write id row value).addRow.1 = t.addRow.1.write id row value := by
  have hcolumns : (t.columns.map (writeCell id row value)).map Column.push =
      (t.columns.map Column.push).map (writeCell id row value) := by
    refine map_map_congr fun c hc => push_writeCell ?_
    rw [h.sized c hc]
    exact lt_of_mem_rows hrow
  exact congrArg (fun columns => { t with
    columns, live := t.live.push true, rowCount := t.rowCount + 1 }) hcolumns

end Table

end LiveTables
