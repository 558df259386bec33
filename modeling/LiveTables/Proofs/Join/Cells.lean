import LiveTables.Join.Table
import LiveTables.Proofs.Computed.Registry
import LiveTables.Proofs.Join.Outcome

/-!
# The cells of a joined table

A joined table reads its source columns through the rows that its engine has linked. It can be read in two
ways: as it is, where the key column is read at the source like any other, and as it is linked, where the
key column shows the key under which the row is linked (`linkedCell`). Both ways are the same for
everything else, so that what the table shows is determined by the classes of the source cells
(`class?_stored`, `class?_linked`, `class?_gap`) and, for computed columns, by those of the dependencies
(`class?_congr`).
-/

namespace LiveTables

/-- The class of a cell; none if the cell cannot be read. -/
def TableView.class? (v : TableView) (row : Nat) (id : String) : Option Value := Value.class? (v.get id row)

/-- How the source columns of a joined table are read, given the sources. -/
abbrev CellReader :=
  JoinedTable → (Side → TableView) → (row : Nat) → (id : String) → Except TableError Value

namespace JoinedTable

/-- Reads a source column, but a key column where the engine has linked the row. -/
def linkedCell : CellReader := fun j source row id =>
  match j.column? id with
  | none => .error (.columnNotFound j.name id)
  | some (side, kind) =>
    match j.engine.sourceRow? side row with
    | some r =>
      if id = j.key side then
        match j.engine.key? side r with
        | some key => .ok key
        | none => .error (.rowNotFound j.name row)
      else (source side).get id r
    | none => (j.gap id kind).readAs kind

/-- The view of a joined table whose source columns are read in a given way. -/
def viewWith (cell : CellReader) (j : JoinedTable) (source : Side → TableView) : TableView :=
  { j.view source with
    get := fun id row =>
      if j.engine.contains row then j.computed.read (cell j source row) id
      else .error (.rowNotFound j.name row) }

theorem viewWith_stored (j : JoinedTable) (source : Side → TableView) :
    j.viewWith stored source = j.view source := rfl

/-- The kind of a source column. -/
def sourceKind? (j : JoinedTable) (id : String) : Option Kind := (j.column? id).map (·.2)

/-- The computed columns were new when they were registered, and what they depend on was known. -/
def Layers (j : JoinedTable) : Prop := Layered j.sourceKind? j.computed.newestFirst

/-- What holds of a joined table between operations, whatever its sources are. -/
structure Valid (j : JoinedTable) : Prop where
  nodup : (j.sideIds .left ++ j.sideIds .right).Nodup
  key : ∀ s, j.key s ∈ j.sideIds s
  gap : ∀ id kind, (j.gap id kind).kind = kind
  registered : Registered j.sourceKind? j.computed.newestFirst
  sound : j.engine.Sound

variable {j j' : JoinedTable} {cell cell' : CellReader} {source source' : Side → TableView} {row r : Nat}
  {id : String} {s : Side} {kind : Kind} {col : ComputedColumn}

/-! ## Source columns -/

theorem mem_columns_of_column? (h : j.column? id = some (s, kind)) : (id, kind) ∈ j.columns s := by
  rw [column?] at h
  rcases hleft : j.leftColumns.lookup id with - | k
  · rw [hleft] at h
    rcases hright : j.rightColumns.lookup id with - | k
    · simp [hright] at h
    · obtain ⟨rfl, rfl⟩ : Side.right = s ∧ k = kind := by simpa [hright] using h
      obtain ⟨before, after, hcolumns, -⟩ := List.lookup_eq_some_iff.1 hright
      rw [columns, hcolumns]
      simp
  · obtain ⟨rfl, rfl⟩ : Side.left = s ∧ k = kind := by simpa [hleft] using h
    obtain ⟨before, after, hcolumns, -⟩ := List.lookup_eq_some_iff.1 hleft
    rw [columns, hcolumns]
    simp

theorem mem_sideIds_of_column? (h : j.column? id = some (s, kind)) : id ∈ j.sideIds s :=
  List.mem_map.2 ⟨_, mem_columns_of_column? h, rfl⟩

theorem mem_plainColumns {columns : List String} :
    id ∈ j.plainColumns s columns ↔ id ∈ j.sideIds s ∧ id ≠ j.key s ∧ id ∈ columns := by
  rw [plainColumns, List.mem_filter]
  simp [and_assoc, and_comm]

/-- A column belongs to one side. -/
theorem Valid.exists_column? (h : j.Valid) (hid : id ∈ j.sideIds s) :
    ∃ kind, j.column? id = some (s, kind) := by
  have hlookup {columns : List (String × Kind)} (hmem : id ∈ columns.map (·.1)) :
      ∃ kind, columns.lookup id = some kind := by
    rcases hk : columns.lookup id with - | kind
    · obtain ⟨p, hp, rfl⟩ := List.mem_map.1 hmem
      simpa using List.lookup_eq_none_iff.1 hk p hp
    · exact ⟨kind, rfl⟩
  cases s with
  | left =>
    obtain ⟨kind, hk⟩ := hlookup hid
    have hk' : j.leftColumns.lookup id = some kind := hk
    exact ⟨kind, by rw [column?, hk']⟩
  | right =>
    obtain ⟨kind, hk⟩ := hlookup hid
    have hnot : j.leftColumns.lookup id = none := by
      rw [List.lookup_eq_none_iff]
      intro p hp
      have hne : id ≠ p.1 := fun heq =>
        (List.nodup_append'.1 h.nodup).2.2 (heq ▸ List.mem_map_of_mem hp) hid
      simpa using hne
    have hk' : j.rightColumns.lookup id = some kind := hk
    exact ⟨kind, by rw [column?, hnot, hk', Option.map_some]⟩

/-- The key column of a side. -/
theorem Valid.column?_key (h : j.Valid) (s : Side) : ∃ kind, j.column? (j.key s) = some (s, kind) :=
  h.exists_column? (h.key s)

theorem Valid.layers (h : j.Valid) : j.Layers := h.registered.layered

/-- No computed column is a source column. -/
theorem Layers.column?_eq_none (h : j.Layers) (hcol : j.computed.column? id = some col) : j.column? id = none := by
  have hnone := Layered.kindOf_eq_none h hcol
  rwa [sourceKind?, Option.map_eq_none_iff] at hnone

/-- No source column is computed. -/
theorem Valid.computed_eq_none (h : j.Valid) (hc : j.column? id = some (s, kind)) :
    j.computed.column? id = none := by
  rcases hcol : j.computed.column? id with - | col
  · rfl
  · have hnone := h.layers.column?_eq_none hcol
    simp [hc] at hnone

theorem Valid.column?_eq_none (h : j.Valid) (hcol : j.computed.column? id = some col) :
    j.column? id = none := h.layers.column?_eq_none hcol

theorem columnKind_eq_ok_iff : j.columnKind id = .ok kind ↔
    (j.column? id).map (·.2) = some kind ∨
      j.column? id = none ∧ (j.computed.column? id).map (·.kind) = some kind := by
  rw [columnKind]
  rcases j.column? id with - | ⟨s, k⟩
  · rcases j.computed.column? id with - | c <;> simp
  · simp

/-- A column has the kind with which it was found in a source or registered. -/
theorem Layers.columnKind_eq_ok (h : j.Layers) :
    j.columnKind id = .ok kind ↔ j.computed.kind? j.sourceKind? id = some kind := by
  rw [columnKind_eq_ok_iff, Computed.kind?_eq]
  rcases hcol : j.computed.column? id with - | c
  · simp [sourceKind?]
  · simp [h.column?_eq_none hcol]

theorem Valid.columnKind_eq_ok (h : j.Valid) :
    j.columnKind id = .ok kind ↔ j.computed.kind? j.sourceKind? id = some kind := h.layers.columnKind_eq_ok

/-- Columns have different names. -/
theorem Valid.nodup_columnIds (h : j.Valid) : j.columnIds.Nodup := by
  obtain ⟨hnodup, hplain⟩ := h.registered.layered.nodup_ids
  rw [columnIds, List.nodup_append']
  refine ⟨h.nodup, hnodup, fun id hid hcomputed => ?_⟩
  obtain ⟨s, hs⟩ : ∃ s, id ∈ j.sideIds s := (List.mem_append.1 hid).elim (⟨_, ·⟩) (⟨_, ·⟩)
  obtain ⟨kind, hc⟩ := h.exists_column? hs
  have hnone := hplain id hcomputed
  rw [sourceKind?, hc] at hnone
  exact absurd hnone (by simp)

theorem mem_columnIds_of_mem_sideIds (h : id ∈ j.sideIds s) : id ∈ j.columnIds := by
  cases s <;> simp [columnIds, h]

/-- Every column has a kind. -/
theorem Valid.exists_columnKind (h : j.Valid) (hid : id ∈ j.columnIds) :
    ∃ kind, j.columnKind id = .ok kind := by
  rcases List.mem_append.1 hid with hsource | hcomputed
  · obtain ⟨s, hs⟩ : ∃ s, id ∈ j.sideIds s := (List.mem_append.1 hsource).elim (⟨_, ·⟩) (⟨_, ·⟩)
    obtain ⟨kind, hc⟩ := h.exists_column? hs
    exact ⟨kind, columnKind_eq_ok_iff.2 (.inl (by rw [hc]; rfl))⟩
  · obtain ⟨col, hcol⟩ := Computed.exists_column?_of_mem_ids hcomputed
    exact ⟨col.kind, columnKind_eq_ok_iff.2 (.inr ⟨h.column?_eq_none hcol, by rw [hcol]; rfl⟩)⟩

theorem mem_columnIds (hk : j.columnKind id = .ok kind) : id ∈ j.columnIds := by
  rcases columnKind_eq_ok_iff.1 hk with hc | ⟨-, hcol⟩
  · obtain ⟨⟨s, k⟩, hc, -⟩ := Option.map_eq_some_iff.1 hc
    exact mem_columnIds_of_mem_sideIds (mem_sideIds_of_column? hc)
  · obtain ⟨col, hcol, -⟩ := Option.map_eq_some_iff.1 hcol
    exact List.mem_append_right _ (Computed.mem_ids_of_column? hcol)

/-- What holds of source columns and unknown ones, and of computed columns if it holds of their
dependencies, holds of all. -/
theorem Valid.column_induction (h : j.Valid) {motive : String → Prop}
    (source : ∀ id s kind, j.column? id = some (s, kind) → motive id)
    (unknown : ∀ id, j.column? id = none → j.computed.column? id = none → motive id)
    (computed : ∀ id col, j.computed.column? id = some col → (∀ d ∈ col.dependencies, motive d) → motive id)
    (id : String) : motive id := by
  have hplain (id : String) (hcol : j.computed.column? id = none) : motive id := by
    rcases hc : j.column? id with - | ⟨s, kind⟩
    · exact unknown id hc hcol
    · exact source id s kind hc
  by_cases hknown : j.computed.kind? j.sourceKind? id = none
  · refine hplain id ?_
    by_contra hcol
    obtain ⟨col, hcol⟩ := Option.ne_none_iff_exists'.1 hcol
    exact absurd ((Computed.kind?_of_column? hcol).symm.trans hknown) (by simp)
  · exact h.registered.layered.induction (fun id hcol _ => hplain id hcol) computed id hknown

/-! ## Reading cells -/

/-- A row that stands in a joined row is linked. -/
theorem Valid.exists_key? (h : j.Valid) (hr : j.engine.sourceRow? s row = some r) :
    ∃ key, j.engine.key? s r = some key :=
  Option.ne_none_iff_exists'.1 (mt JoinEngine.keyClass?_eq_none_iff.2 (h.sound.keyClass?_ne_none hr))

theorem class?_of_not_mem (h : row ∉ j.engine.rows) : (j.viewWith cell source).class? row id = none := by
  show Value.class? (if j.engine.contains row then _ else _) = none
  rw [if_neg (mt JoinEngine.contains_iff.1 h)]
  rfl

theorem get_of_mem (h : row ∈ j.engine.rows) :
    (j.viewWith cell source).get id row = j.computed.read (cell j source row) id := by
  show (if j.engine.contains row then _ else _) = _
  rw [if_pos (JoinEngine.contains_iff.2 h)]

/-- A column that is not computed is read where it comes from. -/
theorem class?_of_mem (h : row ∈ j.engine.rows) (hnone : j.computed.column? id = none) :
    (j.viewWith cell source).class? row id = Value.class? (cell j source row id) := by
  rw [TableView.class?, get_of_mem h, Computed.read_eq_stored hnone]

/-- A source column shows the cell of the source row. -/
theorem Valid.class?_stored (h : j.Valid) (hc : j.column? id = some (s, kind))
    (hr : j.engine.sourceRow? s row = some r) :
    (j.viewWith stored source).class? row id = (source s).class? r id := by
  rw [class?_of_mem (JoinEngine.mem_rows_of_sourceRow? hr) (h.computed_eq_none hc), stored, hc]
  simp only [hr]
  rfl

/-- As linked, a key column shows the key under which the source row is linked. -/
theorem Valid.class?_linked_key (h : j.Valid) (hr : j.engine.sourceRow? s row = some r) :
    (j.viewWith linkedCell source).class? row (j.key s) = j.engine.keyClass? s r := by
  obtain ⟨kind, hc⟩ := h.column?_key s
  obtain ⟨key, hkey⟩ := h.exists_key? hr
  rw [class?_of_mem (JoinEngine.mem_rows_of_sourceRow? hr) (h.computed_eq_none hc), linkedCell, hc]
  simp only [hr, if_true, hkey]
  exact (JoinEngine.keyClass?_eq_some_iff.2 ⟨key, hkey, rfl⟩).symm

/-- As linked, a source column that is not the key shows the cell of the source row. -/
theorem Valid.class?_linked (h : j.Valid) (hc : j.column? id = some (s, kind)) (hkey : id ≠ j.key s)
    (hr : j.engine.sourceRow? s row = some r) :
    (j.viewWith linkedCell source).class? row id = (source s).class? r id := by
  rw [class?_of_mem (JoinEngine.mem_rows_of_sourceRow? hr) (h.computed_eq_none hc), linkedCell, hc]
  simp only [hr, if_neg hkey]
  rfl

/-- Where no row stands, a source column shows the gap value. -/
theorem Valid.get_gap (h : j.Valid) (hc : j.column? id = some (s, kind)) (hrow : row ∈ j.engine.rows)
    (hr : j.engine.sourceRow? s row = none) (hcell : cell = stored ∨ cell = linkedCell) :
    (j.viewWith cell source).get id row = .ok (j.gap id kind) := by
  rw [get_of_mem hrow, Computed.read_eq_stored (h.computed_eq_none hc)]
  have hgap : (j.gap id kind).readAs kind = .ok (j.gap id kind) := Value.readAs_eq_ok.2 ⟨h.gap id kind, rfl⟩
  rcases hcell with rfl | rfl
  · rw [stored, hc]
    simp only [hr, hgap]
  · rw [linkedCell, hc]
    simp only [hr, hgap]

/-- A computed column is determined by the classes of its dependencies. -/
theorem Valid.class?_congr (h : j.Valid) (hcomputed : j'.computed = j.computed)
    (hrows : row ∈ j'.engine.rows ↔ row ∈ j.engine.rows) (hcol : j.computed.column? id = some col)
    (hdeps : ∀ d ∈ col.dependencies,
      (j'.viewWith cell' source').class? row d = (j.viewWith cell source).class? row d) :
    (j'.viewWith cell' source').class? row id = (j.viewWith cell source).class? row id := by
  by_cases hrow : row ∈ j.engine.rows
  · simp only [TableView.class?, get_of_mem hrow, get_of_mem (hrows.2 hrow), hcomputed] at hdeps ⊢
    exact h.registered.class?_read_congr hcol hdeps
  · rw [class?_of_not_mem hrow, class?_of_not_mem (mt hrows.1 hrow)]

/-- A column that is neither a source column nor a computed one cannot be read. -/
theorem class?_of_unknown (hc : j.column? id = none) (hcol : j.computed.column? id = none)
    (hcell : cell = stored ∨ cell = linkedCell) : (j.viewWith cell source).class? row id = none := by
  by_cases hrow : row ∈ j.engine.rows
  · rw [class?_of_mem hrow hcol]
    rcases hcell with rfl | rfl
    · rw [stored, hc]
      rfl
    · rw [linkedCell, hc]
      rfl
  · exact class?_of_not_mem hrow

/-- If the rows that stand in a joined row can be read, so can the joined row. -/
theorem Valid.get_ok (h : j.Valid) (hrow : row ∈ j.engine.rows)
    (hsource : ∀ s r, j.engine.sourceRow? s row = some r → ∀ id kind, (id, kind) ∈ j.columns s →
      ∃ v, (source s).get id r = .ok v ∧ v.kind = kind)
    (hk : j.columnKind id = .ok kind) : ∃ v, (j.viewWith stored source).get id row = .ok v ∧ v.kind = kind := by
  rw [get_of_mem hrow]
  refine h.registered.read_ok (fun id kind hk => ?_) id kind (h.columnKind_eq_ok.1 hk)
  rw [sourceKind?, Option.map_eq_some_iff] at hk
  obtain ⟨⟨s, k⟩, hc, rfl⟩ := hk
  rcases hr : j.engine.sourceRow? s row with - | r
  · refine ⟨j.gap id k, ?_, h.gap id k⟩
    rw [stored, hc]
    simp only [hr]
    exact Value.readAs_eq_ok.2 ⟨h.gap id k, rfl⟩
  · obtain ⟨v, hv, hkind⟩ := hsource s r hr id k (mem_columns_of_column? hc)
    refine ⟨v, ?_, hkind⟩
    rw [stored, hc]
    simp only [hr, hv]

/-- Registering a column, whatever it computes. -/
theorem Layers.addComputed (h : j.Layers) (hadd : j.addComputed col = (j', .ok ())) :
    j'.Layers ∧ ∃ computed, j' = { j with computed } ∧ computed.newestFirst = col :: j.computed.newestFirst := by
  rw [JoinedTable.addComputed] at hadd
  rcases hc : j.computed.register j.name (fun id => (j.column? id).isSome) col with ⟨computed, answer⟩
  rw [hc] at hadd
  obtain ⟨rfl, rfl⟩ := Prod.mk.inj hadd
  obtain ⟨hlist, hlayered⟩ := Layered.register h (by simp [sourceKind?]) hc
  exact ⟨hlayered, computed, rfl, hlist⟩

/-- The columns that were there keep their kinds. -/
theorem Layers.columnKind_addComputed (h : j.Layers) (hadd : j.addComputed col = (j', .ok ()))
    (hkind : j.columnKind id = .ok kind) : j'.columnKind id = .ok kind := by
  obtain ⟨h', computed, rfl, hcons⟩ := h.addComputed hadd
  rw [h'.columnKind_eq_ok]
  exact Layered.kind?_of_cons h' (h.columnKind_eq_ok.1 hkind) hcons

/-- Registering a lawful column. -/
theorem Valid.addComputed (h : j.Valid) (hlaw : col.Lawful (j.computed.kind? j.sourceKind?))
    (hadd : j.addComputed col = (j', .ok ())) : j'.Valid ∧ ∃ computed, j' = { j with computed } ∧
      computed.newestFirst = col :: j.computed.newestFirst := by
  obtain ⟨hlayers, computed, rfl, hlist⟩ := h.layers.addComputed hadd
  have hregistered : Registered j.sourceKind? computed.newestFirst := by
    change Layered j.sourceKind? computed.newestFirst at hlayers
    rw [hlist] at hlayers ⊢
    exact h.registered.cons_of_layered hlaw hlayers
  exact ⟨⟨h.nodup, h.key, h.gap, hregistered, h.sound⟩, computed, rfl, hlist⟩

end JoinedTable

end LiveTables
