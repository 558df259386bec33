import LiveTables.Proofs.Network.Notice
import LiveTables.Proofs.Table.Operations

/-!
# Writes to a stored table

A valid table has cells for all of its rows, each of the kind of its column. It stays valid when a row is
added or deleted and when a cell is written (`Valid.writes_addRow`, `Valid.writes_setValue`,
`Valid.writes_deleteRow`), and the events that are announced tell all that changed (`Writes`): rows that
come and go, and every cell of a row whose class is another one, be it stored or computed.
-/

namespace LiveTables.Table

open Notice

variable {t t' : Table} {id : String} {row r : Nat} {value : Value} {signals : List Signal}

/-- What holds of a table between operations. -/
structure Valid (t : Table) : Prop where
  nodup : (t.columns.map (·.spec.id)).Nodup
  sized : ∀ c ∈ t.columns, c.cells.size = t.live.size
  counted : t.rowCount = t.rows.length
  typed : ∀ c ∈ t.columns, ∀ v ∈ c.cells, v.kind = c.spec.kind
  defaults : ∀ c ∈ t.columns, c.spec.default.kind = c.spec.kind
  registered : Registered t.storedKind? t.computed.newestFirst

namespace Valid

/-- A valid table is well-formed, and its computed columns respect the sameness of values besides. -/
theorem wellFormed (h : t.Valid) : t.WellFormed :=
  ⟨h.nodup, h.sized, h.counted, h.typed, h.defaults, h.registered.layered⟩

theorem wellTyped (h : t.Valid) : t.WellTyped := fun _ _ hcol => (h.registered.lawful hcol).wellTyped

/-- Columns that are changed cell by cell stay registered. -/
theorem of_alike (h : t.Valid) (halike : t.Alike t') (hformed : t'.WellFormed) : t'.Valid where
  nodup := hformed.nodup
  sized := hformed.sized
  counted := hformed.counted
  typed := hformed.typed
  defaults := hformed.defaults
  registered := by
    rw [halike.storedKind?, halike.computed]
    exact h.registered

/-- Every cell of a row can be read, and is of the kind of its column. -/
theorem get_ok (h : t.Valid) (hr : r ∈ t.rows) {k : Kind} (hk : t.columnKind id = .ok k) :
    ∃ v, t.get id r = .ok v ∧ v.kind = k :=
  h.wellFormed.get_ok h.wellTyped hr hk

end Valid

theorem class?_get_of_dead (h : r ∉ t.rows) : Value.class? (t.get id r) = none := by
  rw [get_of_dead h]
  rfl

/-! ## Operations -/

/-- What a write does to a table, as its readers are told. -/
structure Writes (t t' : Table) (signals : List Signal) : Prop where
  valid : t'.Valid
  kinds : t'.storedKind? = t.storedKind?
  computed : t'.computed = t.computed
  columnIds : t'.columnIds = t.columnIds
  publishes : Publishes t.rows t'.rows ((eventsOf signals).map fresh)
  tells : ∀ r c, Tells ((eventsOf signals).map fresh) r c ∨
    Adds ((eventsOf signals).map fresh) r ∧ r ∉ t.rows ∨
    Value.class? (t'.get c r) = Value.class? (t.get c r)
  settles : Settles (fun c => t.storedKind? c ≠ none) ((eventsOf signals).map fresh)

/-! ### Adding a row -/

theorem adds_addRow : Adds ((eventsOf t.addRow.2.2).map fresh) t.live.size :=
  ⟨fresh (.added t.live.size), List.mem_singleton_self _, rfl, rfl⟩

/-- Adding a row. -/
theorem Valid.writes_addRow (h : t.Valid) : t.Writes t.addRow.1 t.addRow.2.2 where
  valid := h.of_alike alike_addRow h.wellFormed.addRow
  kinds := storedKind?_map fun c => rfl
  computed := rfl
  columnIds := columnIds_map fun c => rfl
  publishes :=
    { comes := fun r hr hnot => (mem_rows_addRow.1 hr).resolve_left hnot ▸ adds_addRow
      goes := fun r hr hnot => absurd (mem_rows_addRow.2 (.inl hr)) hnot
      refills := ⟨fun hdelete => Action.noConfusion hdelete, trivial⟩
      alive := fun x hx _ => by
        obtain rfl := List.mem_singleton.1 hx
        exact mem_rows_addRow.2 (.inr rfl) }
  tells r c := by
    by_cases heq : r = t.live.size
    · subst heq
      exact .inr (.inl ⟨adds_addRow, fun hmem => absurd (lt_of_mem_rows hmem) (Nat.lt_irrefl _)⟩)
    · exact .inr (.inr (congrArg _ (h.wellFormed.get_addRow heq c)))
  settles := List.pairwise_singleton _ _

/-! ### Deleting a row -/

/-- Deleting a row. -/
theorem Valid.writes_deleteRow (h : t.Valid) (hdelete : t.deleteRow row = (t', .ok signals)) :
    t.Writes t' signals := by
  obtain ⟨hrow, rfl, rfl⟩ := deleteRow_eq_ok hdelete
  have hdeletes : Deletes ((eventsOf [.event (.deleted row)]).map fresh) row :=
    ⟨fresh (.deleted row), List.mem_singleton_self _, rfl, rfl⟩
  exact
    { valid := h.of_alike alike_remove (h.wellFormed.remove hrow)
      kinds := storedKind?_map fun c => rfl
      computed := rfl
      columnIds := columnIds_map fun c => rfl
      publishes :=
        { comes := fun r hr hnot => absurd (mem_rows_remove.1 hr).1 hnot
          goes := fun r hr hnot => by
            have heq : r = row := by
              by_contra hne
              exact hnot (mem_rows_remove.2 ⟨hr, hne⟩)
            exact heq ▸ hdeletes
          refills := ⟨fun _ hr => absurd rfl (mem_rows_remove.1 hr).2, trivial⟩
          alive := fun x hx haction => by
            obtain rfl := List.mem_singleton.1 hx
            exact absurd rfl haction }
      tells := fun r c => by
        by_cases heq : r = row
        · exact .inl (.inl (heq ▸ hdeletes))
        · exact .inr (.inr (congrArg _ (get_remove heq c)))
      settles := List.pairwise_singleton _ _ }

/-! ### Writing a cell -/

/-- The events of a written cell: the stored column comes first, and all that follow are computed. -/
theorem Valid.settles_touched (h : t.Valid) (id : String) (row : Nat) :
    Settles (fun c => t.storedKind? c ≠ none)
      ((id :: t.computed.dependentsOf [id]).map fun c => fresh (.updated row [c])) := by
  have hlater {b c : String} (hc : c ∈ t.computed.dependentsOf [id]) :
      (fresh (.updated row [b])).event.row = (fresh (.updated row [c])).event.row →
      (fresh (.updated row [b])).event.action ≠ .delete →
      (fresh (.updated row [c])).event.action = .update ∧ ((fresh (.updated row [c])).news = true →
        ∀ d ∈ (fresh (.updated row [c])).event.columns, ¬ t.storedKind? d ≠ none) := by
    refine fun _ _ => ⟨rfl, fun _ d hd => ?_⟩
    obtain rfl := List.mem_singleton.1 hd
    obtain ⟨col, hcol⟩ := h.registered.layered.exists_column?_of_mem hc
    exact not_not.2 (h.registered.layered.kindOf_eq_none hcol)
  rw [Settles, List.pairwise_map, List.pairwise_cons]
  exact ⟨fun c hc => hlater hc, List.pairwise_of_forall_mem_list fun b _ c hc => hlater hc⟩

/-- Writing a cell. -/
theorem Valid.writes_setValue (h : t.Valid) (hset : t.setValue id row value = (t', .ok signals)) :
    t.Writes t' signals := by
  obtain ⟨hmine, -, hkind, rfl, rfl⟩ := setValue_eq_ok h.wellFormed hset
  set touched := id :: t.computed.dependentsOf [id] with htouched
  set signals : List Signal := .cell id row :: touched.map fun c => .event (.updated row [c]) with hsignals
  have hqueue : (eventsOf signals).map fresh = touched.map fun c => fresh (.updated row [c]) := by
    rw [hsignals, eventsOf_write, List.map_map]
    rfl
  have hupdated {x : Notice} (hx : x ∈ (eventsOf signals).map fresh) : ∃ c, fresh (.updated row [c]) = x := by
    rw [hqueue] at hx
    obtain ⟨c, -, heq⟩ := List.mem_map.1 hx
    exact ⟨c, heq⟩
  exact
    { valid := h.of_alike alike_write (h.wellFormed.write hkind row)
      kinds := storedKind?_map spec_writeCell
      computed := rfl
      columnIds := columnIds_map spec_writeCell
      publishes :=
        { comes := fun r hr hnot => absurd hr hnot
          goes := fun r hr hnot => absurd hr hnot
          refills := refills_of_forall fun x hx hdelete => by
            obtain ⟨c, rfl⟩ := hupdated hx
            exact Action.noConfusion hdelete
          alive := fun x hx _ => by
            obtain ⟨c, rfl⟩ := hupdated hx
            exact hmine }
      tells := fun r c => by
        -- a cell is told of, or is in the row but does not depend on what was written, or is in another row
        by_cases hr : r = row
        · subst hr
          by_cases hc : c ∈ touched
          · refine .inl (.inr ⟨fresh (.updated r [c]), ?_, rfl, rfl, rfl, List.mem_singleton_self c⟩)
            rw [hqueue]
            exact List.mem_map_of_mem hc
          · exact .inr (.inr (congrArg _ (h.wellFormed.get_write hc)))
        · exact .inr (.inr (congrArg _ (get_write_of_ne hr c)))
      settles := hqueue ▸ h.settles_touched id row }

/-! ## Tables at the start -/

theorem valid_ofSchema (s : Schema) : (ofSchema s).Valid :=
  have h := wellFormed_ofSchema s
  ⟨h.nodup, h.sized, h.counted, h.typed, h.defaults, .nil⟩

/-- Registering a lawful column. -/
theorem Valid.addComputed {col : ComputedColumn} (h : t.Valid)
    (hlaw : col.Lawful (t.computed.kind? t.storedKind?)) (hadd : t.addComputed col = (t', .ok ())) :
    t'.Valid ∧ ∃ computed, t' = { t with computed } ∧
      computed.newestFirst = col :: t.computed.newestFirst := by
  obtain ⟨hformed, computed, rfl, hlist⟩ := h.wellFormed.addComputed hadd
  refine ⟨⟨h.nodup, h.sized, h.counted, h.typed, h.defaults, ?_⟩, computed, rfl, hlist⟩
  have hlayered := hformed.layered
  show Registered t.storedKind? computed.newestFirst
  change Layered t.storedKind? computed.newestFirst at hlayered
  rw [hlist] at hlayered ⊢
  exact h.registered.cons_of_layered hlaw hlayered

end LiveTables.Table
