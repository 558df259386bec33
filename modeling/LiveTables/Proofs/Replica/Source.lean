import LiveTables.Pipeline
import LiveTables.Proofs.Replica.Mirror
import LiveTables.Proofs.Table.Feed

/-!
# Images of a source

What a source tells of its rows is told to an image: that a row was added, values of its cells, and that it
was deleted. The image shows the source (`Image.Shows`) if it has its rows and the cells of the columns that
are picked. It does so once the rows are replayed (`Image.shows_replay`), and again after every edit whose
events were told (`Image.Shows.turns`), as long as every cell can be read. While the events of one edit are
on their way, it does not: a computed column may have another value before its event is told.

A replica that mirrors an image of a source follows the source (`Replica.Mirrors.follows`).
-/

namespace LiveTables

variable {picked : String → Bool} {view view' : TableView} {i : Image} {defaults : Cells} {row : Nat}
  {columns : List String}

/-- The changes that tell what some columns of a row hold. -/
def TableView.told (view : TableView) (row : Nat) (columns : List String) : List Change :=
  columns.filterMap fun c => ((view.get c row).toOption).map (.update row c)

/-- Every cell can be read. -/
def TableView.Readable (view : TableView) : Prop :=
  ∀ r ∈ view.rows, ∀ c ∈ view.columnIds, ∃ v, view.get c r = .ok v

theorem Table.WellFormed.readable {t : Table} (h : t.WellFormed) (htyped : t.WellTyped) : t.view.Readable := by
  intro r hr c hc
  obtain ⟨k, hk⟩ := h.exists_columnKind hc
  obtain ⟨v, hv, -⟩ := h.get_ok htyped hr hk
  exact ⟨v, hv⟩

theorem TableView.mem_told {c : Change} : c ∈ view.told row columns ↔
    ∃ column ∈ columns, ∃ v, view.get column row = .ok v ∧ c = .update row column v := by
  simp only [TableView.told, List.mem_filterMap, Option.map_eq_some_iff]
  refine exists_congr fun column => and_congr_right fun _ => exists_congr fun v => ?_
  constructor
  · rintro ⟨hv, rfl⟩
    exact ⟨Except.eq_ok_of_toOption hv, rfl⟩
  · rintro ⟨hv, rfl⟩
    exact ⟨by rw [hv]; rfl, rfl⟩

theorem TableView.filter_told (picked : String → Bool) (view : TableView) (row : Nat) (columns : List String) :
    (view.told row columns).filter (Change.isPicked picked) = view.told row (columns.filter picked) := by
  unfold TableView.told
  rw [List.filter_filterMap, List.filterMap_filter]
  congr 1
  funext c
  rcases view.get c row with e | v
  · simp [Except.toOption]
  · simp only [Except.toOption, Option.map_some, Option.filter, Change.isPicked]
    by_cases hc : picked c = true
    · simp [hc]
    · simp [hc]

/-- What columns hold that are told one by one is told together. -/
theorem TableView.flatMap_told (view : TableView) (row : Nat) (columns : List String) :
    columns.flatMap (fun c => view.told row [c]) = view.told row columns := by
  induction columns with
  | nil => rfl
  | cons c columns ih =>
    rw [List.flatMap_cons, ih]
    simp only [TableView.told, List.filterMap_cons, List.filterMap_nil]
    rcases ((view.get c row).toOption).map (Change.update row c) with - | change <;> rfl

/-- What is told of a table is of the kinds of its columns. -/
theorem suits_changesOf {t : Table} {snapshot : Bool} {e : Event} {c : Change} (h : t.WellFormed)
    (hc : c ∈ Pipeline.changesOf t.view snapshot e) : c.Suits fun id => (t.columnKind id).toOption := by
  have hread {columns : List String} (hc : c ∈ t.view.told e.row columns) :
      c.Suits fun id => (t.columnKind id).toOption := by
    obtain ⟨column, -, v, hv, rfl⟩ := TableView.mem_told.1 hc
    show (t.columnKind column).toOption = some v.kind
    rw [h.columnKind_of_get hv]
    rfl
  obtain ⟨action, row, columns⟩ := e
  cases action with
  | add =>
    rcases List.mem_cons.1 hc with rfl | hc
    · trivial
    · cases snapshot with
      | true => exact hread hc
      | false => cases hc
  | update => exact hread hc
  | delete =>
    obtain rfl := List.mem_singleton.1 hc
    trivial

namespace Image

/-- The cells told take the place of those known. -/
theorem applyAll_told (hread : ∀ c ∈ columns, ∃ v, view.get c row = .ok v) :
    i.applyAll defaults (view.told row columns) = Function.update i row
      ((i row).map fun cells c => if c ∈ columns then (view.get c row).toOption else cells c) := by
  induction columns generalizing i with
  | nil =>
    have hsame : ((i row).map fun cells c => if c ∈ ([] : List String) then (view.get c row).toOption else cells c) =
        i row := by simp
    rw [hsame, Function.update_eq_self]
    rfl
  | cons c columns ih =>
    obtain ⟨⟨v, hv⟩, hrest⟩ := List.forall_mem_cons.1 hread
    have htold : view.told row (c :: columns) = .update row c v :: view.told row columns := by
      simp [TableView.told, hv, Except.toOption]
    rw [htold, applyAll_cons, ih hrest, apply, Change.row, Function.update_self, Function.update_idem,
      Change.effect, Option.map_map]
    congr 2
    funext cells c'
    by_cases hc : c' = c
    · subst hc
      simp [hv, Except.toOption]
    · simp [hc]

/-- The image has the rows of a table, and of their cells those of the columns picked. -/
structure Shows (picked : String → Bool) (view : TableView) (i : Image) : Prop where
  rows : ∀ r, i r ≠ none ↔ r ∈ view.rows
  cells : ∀ r cells, i r = some cells → ∀ c ∈ view.columnIds, picked c = true →
    ∃ v, view.get c r = .ok v ∧ cells c = some v

/-- The image of nothing shows a table without rows. -/
theorem shows_empty (hrows : view.rows = []) : Shows picked view fun _ => none where
  rows := by simp [hrows]
  cells := by simp

namespace Shows

variable (h : Shows picked view i)

include h

/-- Tables with the same rows, columns and cells are shown by the same images. -/
theorem congr (hrows : ∀ r, r ∈ view'.rows ↔ r ∈ view.rows) (hids : view'.columnIds = view.columnIds)
    (hget : ∀ r ∈ view.rows, ∀ c, view'.get c r = view.get c r) : Shows picked view' i where
  rows r := by rw [h.rows, hrows]
  cells r cells hr c hc hpicked := by
    obtain ⟨v, hv, hcell⟩ := h.cells r cells hr c (hids ▸ hc) hpicked
    exact ⟨v, (hget r ((h.rows r).1 (by simp [hr])) c).trans hv, hcell⟩

/-- Cells of a row changed, and what changed is told. -/
theorem tell (hread : ∀ c ∈ columns, ∃ v, view'.get c row = .ok v)
    (hrows : view'.rows = view.rows) (hids : view'.columnIds = view.columnIds)
    (hget : ∀ c r, r ≠ row ∨ c ∉ columns → view'.get c r = view.get c r) :
    Shows picked view' (i.applyAll defaults (view'.told row (columns.filter picked))) := by
  rw [applyAll_told fun c hc => hread c (List.mem_filter.1 hc).1]
  constructor
  case rows =>
    intro r
    rw [hrows, ← h.rows]
    by_cases hr : r = row
    · subst hr
      rw [Function.update_self, ne_eq, Option.map_eq_none_iff]
    · rw [Function.update_of_ne hr]
  case cells =>
    intro r cells hr c hc hpicked
    by_cases heq : r = row
    · subst heq
      rw [Function.update_self, Option.map_eq_some_iff] at hr
      obtain ⟨old, hold, rfl⟩ := hr
      by_cases hmem : c ∈ columns
      · obtain ⟨v, hv⟩ := hread c hmem
        exact ⟨v, hv, by simp [hmem, hpicked, hv, Except.toOption]⟩
      · obtain ⟨v, hv, hcell⟩ := h.cells r old hold c (hids ▸ hc) hpicked
        exact ⟨v, (hget c r (.inr hmem)).trans hv, by simp [hmem, hcell]⟩
    · rw [Function.update_of_ne heq] at hr
      obtain ⟨v, hv, hcell⟩ := h.cells r cells hr c (hids ▸ hc) hpicked
      exact ⟨v, (hget c r (.inl heq)).trans hv, hcell⟩

/-- A row was added, and all its cells are told. -/
theorem add (hrow : row ∉ view.rows) (hread : ∀ c ∈ view.columnIds, ∃ v, view.get c row = .ok v) :
    Shows picked { view with rows := view.rows ++ [row] }
      (i.applyAll defaults (.add row :: view.told row (view.columnIds.filter picked))) := by
  have hnone : i row = none := by
    by_contra hsome
    exact hrow ((h.rows row).1 hsome)
  have hread' : ∀ c ∈ view.columnIds.filter picked, ∃ v, view.get c row = .ok v :=
    fun c hc => hread c (List.mem_filter.1 hc).1
  have hadd : i.apply defaults (.add row) = Function.update i row (some defaults) := by
    rw [apply, Change.row, hnone, Change.effect]
  rw [applyAll_cons, hadd, applyAll_told hread', Function.update_self, Function.update_idem, Option.map_some]
  constructor
  case rows =>
    intro r
    rw [List.mem_append, List.mem_singleton]
    by_cases hr : r = row
    · simp [hr]
    · rw [Function.update_of_ne hr, h.rows, or_iff_left hr]
  case cells =>
    intro r cells hr c hc hpicked
    by_cases heq : r = row
    · subst heq
      rw [Function.update_self] at hr
      obtain rfl := Option.some.inj hr
      obtain ⟨v, hv⟩ := hread c hc
      have hmem : c ∈ view.columnIds := hc
      exact ⟨v, hv, by simp [hmem, hpicked, hv, Except.toOption]⟩
    · rw [Function.update_of_ne heq] at hr
      exact h.cells r cells hr c hc hpicked

/-- A row was deleted. -/
theorem delete : Shows picked { view with rows := view.rows.filter (· ≠ row) }
    (i.apply defaults (.delete row)) := by
  constructor
  case rows =>
    intro r
    by_cases hr : r = row
    · subst hr
      have hself : i.apply defaults (.delete r) r = none := apply_self defaults i (.delete r)
      simp [hself]
    · rw [apply_of_ne (show r ≠ (Change.delete row).row from hr), h.rows]
      simp [hr]
  case cells =>
    intro r cells hr c hc hpicked
    by_cases heq : r = row
    · subst heq
      have hself : i.apply defaults (.delete r) r = none := apply_self defaults i (.delete r)
      rw [hself] at hr
      cases hr
    · rw [apply_of_ne (show r ≠ (Change.delete row).row from heq)] at hr
      exact h.cells r cells hr c hc hpicked

end Shows

/-! ### Edits -/

/-- An edit was made, and its events are told with what the table holds after it. -/
theorem Shows.turns {t t' : Table} {events : List Event} (h : Shows picked t.view i) (hformed : t.WellFormed)
    (htyped : t.WellTyped) (hturns : t.Turns t' events) :
    Shows picked t'.view (i.applyAll defaults
      ((events.flatMap (Pipeline.changesOf t'.view true)).filter (Change.isPicked picked))) := by
  have hread : t'.view.Readable :=
    (hturns.wellFormed hformed).readable (hturns.alike.wellTyped htyped)
  cases hturns with
  | refused => exact h
  | added =>
    have hchanges : ([Event.added t.live.size].flatMap (Pipeline.changesOf t.addRow.1.view true)).filter
        (Change.isPicked picked) =
          .add t.live.size :: t.addRow.1.view.told t.live.size (t.addRow.1.columnIds.filter picked) := by
      rw [← TableView.filter_told, List.flatMap_singleton]
      exact List.filter_cons_of_pos rfl
    have hfresh : t.live.size ∉ t.rows := fun hmem => Nat.lt_irrefl _ (Table.lt_of_mem_rows hmem)
    have hbefore : Shows picked { t.addRow.1.view with rows := t.rows } i := by
      refine h.congr (fun r => Iff.rfl) Table.alike_addRow.columnIds fun r hr c => ?_
      exact hformed.get_addRow (Nat.ne_of_lt (Table.lt_of_mem_rows hr)) c
    rw [hchanges]
    refine (hbefore.add hfresh fun c hc => ?_).congr (fun r => ?_) rfl fun r _ c => rfl
    · exact hread _ (Table.mem_rows_addRow.2 (.inr rfl)) c hc
    · exact Table.mem_rows_addRow.trans (by simp)
  | @written id row value hlive hkind =>
    set t' := t.write id row value with ht'
    set touched := id :: t.computed.dependentsOf [id] with htouched
    have hchanges : ((touched.map fun c => Event.updated row [c]).flatMap
        (Pipeline.changesOf t'.view true)).filter (Change.isPicked picked) =
          t'.view.told row (touched.filter picked) := by
      rw [← TableView.filter_told, ← TableView.flatMap_told, List.flatMap_map]
      rfl
    have hids : ∀ c ∈ touched, c ∈ t'.view.columnIds := by
      intro c hc
      show c ∈ t'.columnIds
      rw [Table.alike_write.columnIds]
      exact hformed.mem_columnIds_of_write hkind hc
    rw [hchanges]
    refine h.tell (fun c hc => hread row hlive c (hids c hc)) rfl Table.alike_write.columnIds fun c r hne => ?_
    rcases hne with hr | hc
    · exact Table.get_write_of_ne hr c
    · exact hformed.get_write hc
  | @removed row hlive =>
    refine (@Shows.delete _ _ _ _ row h).congr (fun r => ?_) Table.alike_remove.columnIds fun r hr c => ?_
    · exact Table.mem_rows_remove.trans (by simp [Table.view])
    · exact Table.get_remove (by simpa using (List.mem_filter.1 hr).2) c

/-! ### Replays -/

/-- The rows are told one after the other, each with its cells. -/
theorem shows_replay {tell : Nat → List Change} (hnodup : view.rows.Nodup)
    (htell : ∀ done row i, row ∈ view.rows → row ∉ done → Shows picked { view with rows := done } i →
      Shows picked { view with rows := done ++ [row] } (i.applyAll defaults (tell row))) :
    Shows picked view (applyAll defaults (fun _ => none) (view.rows.flatMap tell)) := by
  suffices hall : ∀ rest done i, done ++ rest = view.rows → Shows picked { view with rows := done } i →
      Shows picked view (i.applyAll defaults (rest.flatMap tell)) from
    hall view.rows [] _ rfl (shows_empty rfl)
  intro rest
  induction rest with
  | nil =>
    intro done i heq hshows
    rw [List.append_nil] at heq
    subst heq
    exact hshows
  | cons row rest ih =>
    intro done i heq hshows
    have hmem : row ∈ view.rows := by
      rw [← heq]
      simp
    have hnot : row ∉ done := by
      rw [← heq, List.nodup_append'] at hnodup
      exact fun hdone => hnodup.2.2 hdone List.mem_cons_self
    rw [List.flatMap_cons, applyAll_append]
    exact ih (done ++ [row]) _ (by simpa using heq) (htell done row i hmem hnot hshows)

end Image

/-! ## Following -/

namespace Replica

variable {base source target : Table} {r : Replica}

/-- A replica has the rows of a source, each with a live local row of its own that holds the same values in
some columns. -/
structure Follows (source : Table) (columns : List String) (r : Replica) (target : Table) : Prop where
  rows : (r.rows.map (·.1)).Perm source.rows
  locals : (r.rows.map (·.2)).Nodup
  live : ∀ e ∈ r.rows, e.2 ∈ target.rows
  cells : ∀ e ∈ r.rows, ∀ c ∈ columns, ∃ v, source.get c e.1 = .ok v ∧ target.get c e.2 = .ok v

/-- A replica that mirrors what is known of a source follows it in the columns that are picked. -/
theorem Mirrors.follows (h : Mirrors base i r target) (hshows : i.Shows picked source.view)
    (hcolumns : ∀ c ∈ columns, c ∈ source.columnIds ∧ picked c = true ∧ base.storedKind? c ≠ none) :
    r.Follows source columns target where
  rows := (List.perm_ext_iff_of_nodup h.remotes source.nodup_rows).2 fun remote =>
    h.mem_remotes.trans (hshows.rows remote)
  locals := h.locals
  live := h.live
  cells := by
    intro e he c hc
    obtain ⟨hid, hpicked, hstored⟩ := hcolumns c hc
    have hlocal : r.localRow? e.1 = some e.2 := (lookup_eq_some_iff_mem h.remotes).2 he
    obtain ⟨v, hv, hcell⟩ := hshows.cells e.1 _ (h.image_of_some hlocal) c hid hpicked
    refine ⟨v, hv, ?_⟩
    rw [h.formed.get_stored (h.live e he) (h.alike.storedKind? ▸ hstored)]
    exact Except.eq_ok_of_toOption hcell

end Replica

end LiveTables
