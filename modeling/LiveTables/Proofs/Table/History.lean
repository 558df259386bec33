import LiveTables.Proofs.Table.Store

/-!
# What a table shows, told by its history

The calls of a table, with what they answered, say all that can be read of its stored columns (`Table.Recounts`).
Rows are numbered by the additions before them; those are live that were added and not deleted; and a cell of a
live row holds the value that was last written to it, or the default.

For the store of a table this is kept by everything that a call can do (`Store.Turns`, `Store.Records.turns`), and
so it holds of every store and of every table that calls make of a schema (`Table.refines_store`).
-/

namespace LiveTables

namespace Table.History

/-- Whether a call adds a row. -/
def isAdd : Call × Answer → Bool
  | (.addRow, _) => true
  | _ => false

/-- The row that a call has deleted. -/
def deleted? : Call × Answer → Option Nat
  | (.deleteRow row, .ok _) => some row
  | _ => none

/-- The value that a call has written to a cell. -/
def written? (column : String) (row : Nat) : Call × Answer → Option Value
  | (.setValue c r value, .ok _) => if c = column ∧ r = row then some value else none
  | _ => none

/-- The number of calls that add a row. -/
def added (h : History) : Nat := h.countP isAdd

/-- The rows that were deleted. -/
def deleted (h : History) : List Nat := h.filterMap deleted?

/-- The value that was last written to a cell. -/
def last? (h : History) (column : String) (row : Nat) : Option Value :=
  (h.filterMap (written? column row)).getLast?

/-- A call that adds a row answers the number of those before it. -/
def Numbered (h : History) : Prop :=
  ∀ before x after, h = before ++ x :: after → x.1 = .addRow → x.2 = .ok (some (added before))

variable {h : History} {x : Call × Answer} {column : String} {row : Nat} {value : Value} {answer? : Option Nat}

@[simp] theorem added_nil : added [] = 0 := rfl

@[simp] theorem deleted_nil : deleted [] = [] := rfl

@[simp] theorem last?_nil : last? [] column row = none := rfl

theorem added_concat : added (h ++ [x]) = added h + if isAdd x then 1 else 0 := by
  simp only [added, List.countP_append, List.countP_singleton]

theorem deleted_concat : deleted (h ++ [x]) = deleted h ++ (deleted? x).toList := by
  rw [deleted, List.filterMap_append]
  rcases hx : deleted? x with - | row <;> simp [deleted, hx]

theorem last?_concat : last? (h ++ [x]) column row = (written? column row x).or (last? h column row) := by
  rw [last?, List.filterMap_append]
  rcases hx : written? column row x with - | value <;> simp [last?, hx]

theorem numbered_nil : Numbered [] := by
  intro before x after h
  simp at h

theorem Numbered.concat (hn : Numbered h) (hx : x.1 = .addRow → x.2 = .ok (some (added h))) :
    Numbered (h ++ [x]) := by
  intro before y after heq hy
  rcases List.eq_nil_or_concat after with rfl | ⟨after, z, rfl⟩
  · obtain ⟨rfl, hlast⟩ := List.append_inj' heq rfl
    obtain rfl := List.singleton_inj.1 hlast
    exact hx hy
  · rw [List.concat_eq_append, ← List.cons_append, ← List.append_assoc] at heq
    exact hn before y after (List.append_inj' heq rfl).1 hy

end Table.History

open Table (Call Answer History)

/-! ## Stores -/

namespace Store

variable {p p' : Store} {c : Call} {a : Answer} {history : History} {row r : Nat}

/-- What a call makes of a store, and what it answers. -/
inductive Turns (p : Store) : Call → Store → Answer → Prop
  | refused {c : Call} {e : TableError} (hc : c ≠ .addRow) : Turns p c p (.error e)
  | added : Turns p .addRow { p with rows := p.rows ++ [some p.defaults] } (.ok (some p.rows.length))
  | written {column : String} {row : Nat} {value : Value} {cells : Cells} {spec : ColumnSpec}
      (live : p.row? row = some cells) (stored : p.spec? column = some spec) :
      Turns p (.setValue column row value)
        { p with rows := p.rows.set row (some (Function.update cells column (some value))) } (.ok none)
  | removed {row : Nat} (live : p.row? row ≠ none) :
      Turns p (.deleteRow row) { p with rows := p.rows.set row none } (.ok none)
  | registered {column : ComputedColumn} (computed : List String) :
      Turns p (.addComputed column) { p with computed } (.ok none)

/-- A call does one of these. -/
theorem turns_answer (p : Store) (c : Call) : p.Turns c (p.answer c).1 (p.answer c).2 := by
  cases c with
  | addRow => exact .added
  | setValue column row value =>
    rw [answer]
    rcases hrow : p.row? row with - | cells
    · exact .refused (by simp)
    · simp only
      split_ifs
      · exact .refused (by simp)
      · rcases hspec : p.spec? column with - | spec
        · exact .refused (by simp)
        · simp only
          split_ifs
          · exact .refused (by simp)
          · exact .written hrow hspec
  | deleteRow row =>
    rw [answer]
    rcases hrow : p.row? row with - | cells
    · exact .refused (by simp)
    · exact .removed (by simp [hrow])
  | addComputed column =>
    rw [answer]
    split_ifs
    · exact .refused (by simp)
    · rcases column.dependencies.find? (!p.known ·) with - | missing
      · exact .registered _
      · exact .refused (by simp)

/-! ### Rows -/

theorem lt_of_row? (hrow : p.row? row ≠ none) : row < p.rows.length := by
  by_contra hge
  apply hrow
  simp [row?, hge]

theorem row?_set (hrow : row < p.rows.length) (x : Option Cells) (r : Nat) :
    row? { p with rows := p.rows.set row x } r = if r = row then x else p.row? r := by
  by_cases heq : r = row
  · subst heq
    simp [row?, hrow]
  · simp [row?, heq, Ne.symm heq]

theorem row?_append (x : Option Cells) (r : Nat) :
    row? { p with rows := p.rows ++ [x] } r = if r = p.rows.length then x else p.row? r := by
  rw [row?, row?, List.getElem?_append]
  split_ifs with hlt heq heq
  · omega
  · rfl
  · simp [heq]
  · have hout : p.rows.length < r := by omega
    rw [List.getElem?_eq_none (by simp; omega), List.getElem?_eq_none (by omega)]

/-- A live row is taken out of those that are counted, or one that is still live is put in its place. -/
theorem countP_set (hrow : p.row? row ≠ none) (x : Option Cells) :
    (p.rows.set row x).countP Option.isSome + 1 =
      p.rows.countP Option.isSome + if x.isSome then 1 else 0 := by
  have hlt := lt_of_row? hrow
  obtain ⟨cells, hcells⟩ : ∃ cells, p.rows[row] = some cells := by
    simpa [row?, hlt, Option.ne_none_iff_exists'] using hrow
  have hpos : 0 < p.rows.countP Option.isSome :=
    List.countP_pos_iff.2 ⟨p.rows[row], List.getElem_mem hlt, by simp [hcells]⟩
  rw [List.countP_set hlt, hcells]
  simp only [Option.isSome_some, if_true]
  omega

/-- A store, told by its history. -/
structure Records (specs : List ColumnSpec) (p : Store) (h : History) : Prop where
  specs : p.specs = specs
  added : p.rows.length = h.added
  live : ∀ row, p.row? row ≠ none ↔ row < h.added ∧ row ∉ h.deleted
  deleted : ∀ row ∈ h.deleted, row < h.added
  count : p.rows.countP Option.isSome + h.deleted.length = h.added
  cells : ∀ row cells, p.row? row = some cells → ∀ column,
    cells column = (p.spec? column).map fun spec => (h.last? column row).getD spec.default
  fresh : ∀ row, h.added ≤ row → ∀ column, h.last? column row = none
  numbered : h.Numbered

namespace Records

variable {specs : List ColumnSpec}

theorem ofSchema (s : Schema) : Records s.columns (Store.ofSchema s) [] where
  specs := rfl
  added := rfl
  live := by simp [Store.ofSchema, row?]
  deleted := by simp
  count := rfl
  cells := by simp [Store.ofSchema, row?]
  fresh _ _ _ := rfl
  numbered := History.numbered_nil

variable (h : Records specs p history)

include h

/-- A row that can be found was added and not deleted. -/
theorem lt_added (hrow : p.row? row ≠ none) : row < history.added := ((h.live row).1 hrow).1

/-- A new row has not been deleted before. -/
theorem not_mem_deleted : history.added ∉ history.deleted := by
  intro hmem
  have hlt := h.deleted _ hmem
  omega

theorem add : Records specs { p with rows := p.rows ++ [some p.defaults] }
    (history ++ [(.addRow, .ok (some p.rows.length))]) := by
  have hlen := h.added
  have hadded : History.added (history ++ [(.addRow, .ok (some p.rows.length))]) = history.added + 1 :=
    History.added_concat
  have hdeleted : History.deleted (history ++ [(.addRow, .ok (some p.rows.length))]) = history.deleted := by
    simp [History.deleted_concat, History.deleted?]
  have hlast (column : String) (r : Nat) :
      History.last? (history ++ [(.addRow, .ok (some p.rows.length))]) column r = history.last? column r := by
    simp [History.last?_concat, History.written?]
  refine
    { specs := h.specs
      added := by rw [hadded, ← hlen]; simp
      live := fun r => ?_
      deleted := fun r hr => ?_
      count := ?_
      cells := fun r cells hr column => ?_
      fresh := fun r hr column => ?_
      numbered := h.numbered.concat fun _ => by rw [hlen] }
  · rw [row?_append, hadded, hdeleted]
    split_ifs with heq
    · subst heq
      simp [h.not_mem_deleted, hlen]
    · rw [h.live r]
      refine and_congr_left fun _ => ?_
      omega
  · rw [hdeleted] at hr
    have hlt := h.deleted r hr
    omega
  · have hcount := h.count
    rw [hadded, hdeleted]
    simp only [List.countP_append, List.countP_singleton, Option.isSome_some, if_true]
    omega
  · rw [row?_append] at hr
    rw [hlast]
    split_ifs at hr with heq
    · obtain rfl := Option.some.inj hr
      rw [h.fresh r (by omega)]
      rfl
    · exact h.cells r cells hr column
  · rw [hadded] at hr
    rw [hlast]
    exact h.fresh r (by omega) column

/-- A call that adds no row: the row that it deletes is taken out, and the value that it writes is put in. -/
theorem concat {x : Call × Answer} (hadd : x.1 ≠ .addRow) (hspecs : p'.specs = p.specs)
    (hlength : p'.rows.length = p.rows.length)
    (hlive : ∀ r, p'.row? r ≠ none ↔ p.row? r ≠ none ∧ History.deleted? x ≠ some r)
    (hdeleted : ∀ r, History.deleted? x = some r → p.row? r ≠ none)
    (hcount : p'.rows.countP Option.isSome + (History.deleted? x).toList.length = p.rows.countP Option.isSome)
    (hwritten : ∀ column r value, History.written? column r x = some value → p.row? r ≠ none)
    (hcells : ∀ r cells', p'.row? r = some cells' → ∃ cells, p.row? r = some cells ∧ ∀ column,
      cells' column =
        (History.written? column r x).elim (cells column) fun value => (p.spec? column).map fun _ => value) :
    Records specs p' (history ++ [x]) := by
  have hadded : History.added (history ++ [x]) = history.added := by
    obtain ⟨c, a⟩ := x
    cases c with
    | addRow => exact absurd rfl hadd
    | setValue | deleteRow | addComputed => exact History.added_concat
  have hspec (column : String) : p'.spec? column = p.spec? column := by rw [spec?, spec?, hspecs]
  refine
    { specs := hspecs.trans h.specs
      added := by rw [hlength, hadded, h.added]
      live := fun r => ?_
      deleted := fun r hr => ?_
      count := ?_
      cells := fun r cells' hr column => ?_
      fresh := fun r hr column => ?_
      numbered := h.numbered.concat fun hx => absurd hx hadd }
  · rw [hlive, h.live, hadded, History.deleted_concat, List.mem_append, Option.mem_toList, not_or, and_assoc]
  · rw [History.deleted_concat, List.mem_append, Option.mem_toList] at hr
    rw [hadded]
    rcases hr with hr | hr
    · exact h.deleted r hr
    · exact h.lt_added (hdeleted r hr)
  · rw [History.deleted_concat, List.length_append, hadded, ← h.count]
    omega
  · obtain ⟨cells, hcells', hcolumn⟩ := hcells r cells' hr
    rw [hcolumn, hspec, History.last?_concat, h.cells r cells hcells' column]
    rcases History.written? column r x with - | value <;> rfl
  · rw [hadded] at hr
    rw [History.last?_concat, h.fresh r hr, Option.or_none]
    by_contra hsome
    obtain ⟨value, hvalue⟩ := Option.ne_none_iff_exists'.1 hsome
    have hlt := h.lt_added (hwritten column r value hvalue)
    omega

/-- A call that leaves the rows. -/
theorem other {x : Call × Answer} (hspecs : p'.specs = p.specs) (hrows : p'.rows = p.rows) (hadd : x.1 ≠ .addRow)
    (hdeleted : History.deleted? x = none) (hwritten : ∀ column row, History.written? column row x = none) :
    Records specs p' (history ++ [x]) := by
  have hrow (r : Nat) : p'.row? r = p.row? r := by rw [row?, row?, hrows]
  refine h.concat hadd hspecs (by rw [hrows]) (fun r => ?_) (fun r hr => ?_) ?_ (fun column r value hr => ?_)
    fun r cells hr => ⟨cells, by rwa [hrow] at hr, fun column => by rw [hwritten]; rfl⟩
  · simp [hrow, hdeleted]
  · simp [hdeleted] at hr
  · simp [hrows, hdeleted]
  · simp [hwritten] at hr

theorem write {column : String} {row : Nat} {value : Value} {cells : Cells} {spec : ColumnSpec}
    (hrow : p.row? row = some cells) (hspec : p.spec? column = some spec) :
    Records specs { p with rows := p.rows.set row (some (Function.update cells column (some value))) }
      (history ++ [(.setValue column row value, .ok none)]) := by
  have hlive : p.row? row ≠ none := by simp [hrow]
  refine h.concat (by simp) rfl (by simp) (fun r => ?_) (fun r hr => by cases hr) ?_
    (fun column' r value' hr => ?_) fun r cells' hr => ?_
  · rw [row?_set (lt_of_row? hlive)]
    split_ifs with heq
    · simp [heq, hlive, History.deleted?]
    · simp [History.deleted?]
  · have hset := countP_set hlive (some (Function.update cells column (some value)))
    simp only [Option.isSome_some, if_true] at hset
    exact Nat.succ.inj hset
  · simp only [History.written?] at hr
    split_ifs at hr with hcell
    exact hcell.2 ▸ hlive
  · rw [row?_set (lt_of_row? hlive)] at hr
    split_ifs at hr with heq
    · -- the cell that is written, and the others of its row
      subst heq
      obtain rfl := Option.some.inj hr
      refine ⟨cells, hrow, fun column' => ?_⟩
      by_cases hcolumn : column' = column
      · subst hcolumn
        simp [History.written?, hspec]
      · simp [History.written?, hcolumn, Ne.symm hcolumn]
    · exact ⟨cells', hr, fun column' => by simp [History.written?, Ne.symm heq]⟩

theorem remove {row : Nat} (hrow : p.row? row ≠ none) :
    Records specs { p with rows := p.rows.set row none } (history ++ [(.deleteRow row, .ok none)]) := by
  refine h.concat (by simp) rfl (by simp) (fun r => ?_) (fun r hr => ?_) ?_ (fun _ _ _ hr => by cases hr)
    fun r cells' hr => ?_
  · rw [row?_set (lt_of_row? hrow)]
    split_ifs with heq
    · simp [heq, History.deleted?]
    · simp [History.deleted?, Ne.symm heq]
  · obtain rfl : row = r := Option.some.inj hr
    exact hrow
  · exact countP_set hrow none
  · rw [row?_set (lt_of_row? hrow)] at hr
    split_ifs at hr
    exact ⟨cells', hr, fun _ => rfl⟩

/-- Whatever a call does, its history tells the store. -/
theorem turns (hturns : p.Turns c p' a) : Records specs p' (history ++ [(c, a)]) := by
  cases hturns with
  | @refused c e hc =>
    refine h.other rfl rfl hc ?_ fun column row => ?_
    · cases c <;> rfl
    · cases c <;> rfl
  | added => exact h.add
  | written hrow hspec => exact h.write hrow hspec
  | removed hrow => exact h.remove hrow
  | registered computed => exact h.other rfl rfl (by simp) rfl fun _ _ => rfl

end Records

/-- Every store that calls make of a schema is told by its history. -/
theorem records_run (s : Schema) (calls : List Call) :
    Records s.columns (Call.run answer (ofSchema s) calls).1 (Call.run answer (ofSchema s) calls).2 := by
  induction calls using List.reverseRecOn with
  | nil => exact .ofSchema s
  | append_singleton calls c ih =>
    rw [Call.run_concat]
    exact ih.turns (turns_answer _ c)

end Store

/-! ## Tables -/

namespace Table

variable {t : Table} {specs : List ColumnSpec} {history : History}

/-- What can be read of a table, told by its history. -/
structure Recounts (specs : List ColumnSpec) (history : History) (t : Table) : Prop where
  rows : t.view.rows = (List.range history.added).filter (· ∉ history.deleted)
  contains : ∀ row, t.view.contains row = true ↔ row < history.added ∧ row ∉ history.deleted
  count : t.view.rows.length + history.deleted.length = history.added
  rowCount : t.view.rowCount = t.view.rows.length
  get : ∀ row ∈ t.view.rows, ∀ spec ∈ specs,
    t.view.get spec.id row = .ok ((history.last? spec.id row).getD spec.default)

/-- A table whose store is told by a history. -/
theorem WellFormed.recounts (h : t.WellFormed) (hrecords : t.store.Records specs history) :
    t.Recounts specs history := by
  have hlive (row : Nat) : row ∈ t.rows ↔ row < history.added ∧ row ∉ history.deleted := by
    rw [← hrecords.live, row?_store, cells?_ne_none]
  have hsize : t.live.size = history.added := by rw [← hrecords.added, length_rows_store]
  refine
    { rows := ?_
      contains := fun row => ?_
      count := ?_
      rowCount := h.counted
      get := fun row hrow spec hspec => ?_ }
  · show t.rows = _
    rw [rows, hsize]
    refine List.filter_congr fun row hrow => ?_
    rw [Bool.eq_iff_iff, decide_eq_true_iff, ← mem_rows, hlive row]
    exact and_iff_right (List.mem_range.1 hrow)
  · rw [TableView.contains, decide_eq_true_iff]
    exact hlive row
  · have hcount : t.rows.length = t.store.rows.countP Option.isSome := by
      rw [rows, ← List.countP_eq_length_filter, store, List.countP_map]
      refine List.countP_congr fun row _ => ?_
      rw [← mem_rows, ← cells?_ne_none, Function.comp_apply, ← Option.isSome_iff_ne_none]
    show t.rows.length + _ = _
    rw [hcount, hrecords.count]
  · obtain ⟨column, hcolumn, rfl⟩ : ∃ column ∈ t.columns, column.spec = spec :=
      List.mem_map.1 (show spec ∈ t.store.specs from hrecords.specs ▸ hspec)
    have hfound : t.column? column.spec.id = some column := h.column?_of_mem hcolumn rfl
    have hstored : t.spec? column.spec.id = some column.spec := by rw [spec?, hfound, Option.map_some]
    have hkind : t.storedKind? column.spec.id ≠ none := by simp [storedKind?, hfound]
    have hcells := hrecords.cells row _ ((row?_store t row).trans (cells?_of_live hrow)) column.spec.id
    rw [spec?_store, hstored, Option.map_some] at hcells
    show t.get column.spec.id row = _
    rw [h.get_stored hrow hkind]
    exact Except.eq_ok_of_toOption hcells

/-- A call that is refused changes nothing and announces nothing. -/
theorem WellFormed.call_eq_of_error (h : t.WellFormed) {c : Call} {e : TableError} (he : (t.call c).2.2 = .error e) :
    t.call c = (t, [], .error e) := by
  cases c with
  | addRow => cases he
  | setValue column row value =>
    rcases hset : t.setValue column row value with ⟨t', e' | signals⟩
    · simp only [call, hset] at he ⊢
      rw [h.setValue_of_error hset, he]
    · simp [call, hset] at he
  | deleteRow row =>
    rcases hdelete : t.deleteRow row with ⟨t', e' | signals⟩
    · simp only [call, hdelete] at he ⊢
      rw [deleteRow_of_error hdelete, he]
    · simp [call, hdelete] at he
  | addComputed column =>
    rcases hadd : t.addComputed column with ⟨t', e' | ⟨⟩⟩
    · simp only [call, hadd] at he ⊢
      rw [addComputed_of_error hadd, he]
    · simp [call, hadd] at he

/-- Calls of a table that is made of a schema, with any arguments. The table refines its store: it is left with the
same rows, and every call answers the same. What can be read of it is told by the history of the calls, where rows
are numbered in the order in which they were added; and a call that is refused changes nothing and announces
nothing. -/
theorem refines_store (s : Schema) (calls : List Call) :
    let t := (Call.run answer (ofSchema s) calls).1
    let history : History := (Call.run answer (ofSchema s) calls).2
    (t.store, history) = Call.run Store.answer (Store.ofSchema s) calls ∧
      history.map (·.1) = calls ∧ history.Numbered ∧ t.Recounts s.columns history ∧
      ∀ c e, (t.call c).2.2 = .error e → t.call c = (t, [], .error e) := by
  intro t history
  obtain ⟨hformed, hrun⟩ := (wellFormed_ofSchema s).refines_run calls
  rw [store_ofSchema] at hrun
  have hrecords := Store.records_run s calls
  rw [← hrun] at hrecords
  exact ⟨hrun, Call.calls_run answer (ofSchema s) calls, hrecords.numbered, hformed.recounts hrecords,
    fun c e he => hformed.call_eq_of_error he⟩

end Table

end LiveTables
