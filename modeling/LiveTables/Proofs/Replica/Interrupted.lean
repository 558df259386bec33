import LiveTables.Proofs.Replica.Streamed

/-!
# Encoders that come upon a cell that cannot be read

An encoder writes the addition of a row before it reads the row, and the values only when all of them are read.
Reading stops at the first mapped cell that cannot be read (`TableView.StopsAt`); of a stored table with lawful
columns this is so where the row is not live, and nowhere else (`Table.stopsAt_iff`).

So an update that cannot be read leaves the bytes as they were. Of an added row the addition stays, and of a
replay the rows up to there, with the addition of the one that cannot be read (`Encoder.left_by_error`). It is
always records in whole that stay (`Encoder.foldl_rowChange`).
-/

namespace LiveTables

variable {m : FieldMap} {view : TableView} {row : Nat} {columns : List String} {error : TableError} {e e' : Encoder}

/-- Reading the mapped ones of some columns of a row stops at the first that cannot be read, with its error. -/
def TableView.StopsAt (view : TableView) (m : FieldMap) (row : Nat) (columns : List String) (error : TableError) :
    Prop :=
  ∃ before c after, columns.filter m.maps = before ++ c :: after ∧
    (∀ d ∈ before, ∃ v, view.get d row = .ok v) ∧ view.get c row = .error error

/-- Of a stored table with lawful columns only a row that is not live stops the reading of what is mapped. -/
theorem Table.stopsAt_iff {t : Table} (h : t.WellFormed) (htyped : t.WellTyped) :
    t.view.StopsAt m row t.columnIds error ↔
      row ∉ t.rows ∧ (∃ c ∈ t.columnIds, m.maps c = true) ∧ error = .rowNotFound t.name row := by
  constructor
  · rintro ⟨before, c, after, hsplit, -, herror⟩
    obtain ⟨hid, hmaps⟩ : c ∈ t.columnIds ∧ m.maps c = true := List.mem_filter.1 (hsplit ▸ by simp)
    have hdead : row ∉ t.rows := by
      intro hlive
      obtain ⟨v, hv⟩ := h.readable htyped row hlive c hid
      rw [hv] at herror
      cases herror
    have hget : t.get c row = .error error := herror
    rw [get_of_dead hdead] at hget
    exact ⟨hdead, ⟨c, hid, hmaps⟩, (Except.error.inj hget).symm⟩
  · rintro ⟨hdead, ⟨c, hid, hmaps⟩, rfl⟩
    obtain ⟨first, rest, hsplit⟩ := List.exists_cons_of_ne_nil (List.ne_nil_of_mem (List.mem_filter.2 ⟨hid, hmaps⟩))
    exact ⟨[], first, rest, hsplit, by simp, get_of_dead hdead⟩

namespace Encoder

/-! ### Reading -/

/-- Mapped columns are read in order, up to the first that cannot be. -/
theorem readMapped_eq_error_iff :
    readMapped m view row columns = .error error ↔ view.StopsAt m row columns error := by
  have hok (c : String) : (∃ x, (return (c, ← view.get c row) : Except TableError (String × Value)) = .ok x) ↔
      ∃ v, view.get c row = .ok v := by
    rcases view.get c row with error | v <;> simp [bind, Except.bind, pure, Except.pure]
  have herror (c : String) :
      (return (c, ← view.get c row) : Except TableError (String × Value)) = .error error ↔
        view.get c row = .error error := by
    rcases view.get c row with error | v <;> simp [bind, Except.bind, pure, Except.pure]
  rw [readMapped, mapM_eq_error_iff]
  simp only [hok, herror]
  rfl

/-- Either all that is mapped is read, and the values are written, or nothing is. -/
theorem updateFrom_cases (e : Encoder) (view : TableView) (row : Nat) (columns : List String) :
    view.ReadsMapped e.fields row columns ∧
        e.updateFrom view row columns = (e.rowChange (.update row (view.values row columns)), .ok ()) ∨
      ∃ error, view.StopsAt e.fields row columns error ∧ e.updateFrom view row columns = (e, .error error) := by
  rcases hread : readMapped e.fields view row columns with error | values
  · exact .inr ⟨error, readMapped_eq_error_iff.1 hread, by simp only [updateFrom, hread]⟩
  · have hall : view.ReadsMapped e.fields row columns := by
      intro c hc hmaps
      obtain ⟨x, hx⟩ := exists_ok_of_mapM hread c (List.mem_filter.2 ⟨hc, hmaps⟩)
      obtain ⟨v, hv, -⟩ := bind_eq_ok_iff.1 hx
      exact ⟨v, hv⟩
    exact .inl ⟨hall, updateFrom_eq e hall⟩

theorem updateFrom_eq_error_iff :
    e.updateFrom view row columns = (e', .error error) ↔ view.StopsAt e.fields row columns error ∧ e' = e := by
  rw [← readMapped_eq_error_iff]
  rcases hread : readMapped e.fields view row columns with other | values
  · simp [updateFrom, hread, eq_comm, and_comm]
  · simp [updateFrom, hread]

/-! ### What is left -/

theorem event_eq_error_iff {event : Event} :
    e.event view event = (e', .error error) ↔
      event.action = .update ∧ view.StopsAt e.fields event.row event.columns error ∧ e' = e ∨
        event.action = .add ∧ view.StopsAt e.fields event.row view.columnIds error ∧ e' = e.add event.row := by
  obtain ⟨action, row, columns⟩ := event
  cases action with
  | add => simp [Encoder.event, updateFrom_eq_error_iff, add, write]
  | update => simp [Encoder.event, updateFrom_eq_error_iff]
  | delete => simp [Encoder.event]

/-- Rows are written up to the first that cannot be read, of which the addition is written. -/
theorem rows_eq_error_iff {rows : List Nat} :
    e.rows view rows = (e', .error error) ↔
      ∃ before row after, rows = before ++ row :: after ∧
        (∀ r ∈ before, view.ReadsMapped e.fields r view.columnIds) ∧
        view.StopsAt e.fields row view.columnIds error ∧
        e' = (((before.map .added).flatMap (Event.calls view)).foldl rowChange e).add row := by
  constructor
  · intro h
    induction rows generalizing e with
    | nil => simp [Encoder.rows] at h
    | cons row rows ih =>
      rcases updateFrom_cases (e.add row) view row view.columnIds with ⟨hread, heq⟩ | ⟨stopped, hstops, heq⟩
      · rw [Encoder.rows, heq] at h
        obtain ⟨before, failing, after, rfl, hbefore, hstops, rfl⟩ := ih h
        rw [fields_rowChange] at hbefore hstops
        exact ⟨row :: before, failing, after, rfl, List.forall_mem_cons.2 ⟨hread, hbefore⟩, hstops, rfl⟩
      · rw [Encoder.rows, heq] at h
        obtain ⟨rfl, herror⟩ := Prod.mk.inj h
        obtain rfl := Except.error.inj herror
        exact ⟨[], row, rows, rfl, by simp, hstops, rfl⟩
  · rintro ⟨before, row, after, rfl, hbefore, hstops, rfl⟩
    set done := ((before.map .added).flatMap (Event.calls view)).foldl rowChange e with hdone
    have hfields : (done.add row).fields = e.fields := fields_foldl_rowChange e _
    have hfails : (done.add row).updateFrom view row view.columnIds = (done.add row, .error error) :=
      updateFrom_eq_error_iff.2 ⟨hfields ▸ hstops, rfl⟩
    rw [rows_append e hbefore, ← hdone, Encoder.rows, hfails]

/-- Calls leave what was written before them. -/
theorem prefix_foldl_rowChange (e : Encoder) (calls : List RowChange) :
    e.pending <+: (calls.foldl rowChange e).pending := by
  rw [foldl_rowChange]
  exact List.prefix_append _ _

theorem length_lt_add (e : Encoder) (row : Nat) : e.pending.length < (e.add row).pending.length := by
  have htag : 0 < (Wire.tag Action.add.group .startGroup).length := List.length_pos_iff.2 (Wire.varint_ne_nil _)
  simp only [add, write, Record.toBytes, List.length_append]
  omega

/-- What an encoder holds once it failed. An event fails if the row that it updates or adds cannot be read: of an
update nothing was written by then, of an added row the addition. A replay fails at the first row that cannot be
read: all rows before it were written, and its addition. So the bytes are as before if an update failed, and there
are more of them otherwise. -/
theorem left_by_error (e e' : Encoder) (view : TableView) (error : TableError) :
    (∀ event, e.event view event = (e', .error error) ↔
      event.action = .update ∧ view.StopsAt e.fields event.row event.columns error ∧ e' = e ∨
        event.action = .add ∧ view.StopsAt e.fields event.row view.columnIds error ∧ e' = e.add event.row) ∧
    (e.replay view = (e', .error error) ↔
      ∃ before row after, view.rows = before ++ row :: after ∧
        (∀ r ∈ before, view.ReadsMapped e.fields r view.columnIds) ∧
        view.StopsAt e.fields row view.columnIds error ∧
        e' = (((before.map .added).flatMap (Event.calls view)).foldl rowChange e).add row) ∧
    (∀ event, e.event view event = (e', .error error) → (e'.pending = e.pending ↔ event.action = .update)) ∧
    (e.replay view = (e', .error error) → e.pending.length < e'.pending.length) := by
  refine ⟨fun event => event_eq_error_iff, rows_eq_error_iff, fun event h => ?_, fun h => ?_⟩
  · rcases event_eq_error_iff.1 h with ⟨haction, -, rfl⟩ | ⟨haction, -, rfl⟩
    · simp [haction]
    · have hlonger := length_lt_add e event.row
      simp only [haction, reduceCtorEq, iff_false]
      exact fun heq => absurd (congrArg List.length heq) (by omega)
  · obtain ⟨before, row, after, -, -, -, rfl⟩ := rows_eq_error_iff.1 h
    exact Nat.lt_of_le_of_lt (prefix_foldl_rowChange e _).length_le (length_lt_add _ row)

end Encoder

/-! A table with a column whose values are of its kind in the first row only. -/

namespace Mistyped

/-- A column that shows one where `a` is one, and elsewhere a truth value. -/
def flag : ComputedColumn where
  id := "p"
  kind := .int32
  dependencies := ["a"]
  compute vs := if vs = [.int32 1] then .int32 1 else .boolean false

def source : Table :=
  Table.performAll { Table.ofSchema Doubled.sourceSchema with computed := ⟨[flag]⟩ }
    [.addRow, .setValue "a" 0 (.int32 1), .addRow]

/-- A replay of the table fails in the second row. -/
theorem left_by_error_second :
    let e : Encoder := { fields := ⟨[("a", 1), ("p", 2)], [(1, "a"), (2, "p")]⟩ }
    let e' := (e.replay source.view).1
    e.replay source.view = (e', .error (.typeMismatch .int32 .boolean)) ∧
      Record.ofBytes e'.pending =
        .ok [⟨.add, 0, [], 0⟩, ⟨.update, 0, [(1, .varint 2), (2, .varint 2)], 0⟩, ⟨.add, 1, [], 0⟩] ∧
      e.pending.length < e'.pending.length := by
  intro e e'
  have hfails : e.replay source.view = (e', .error (.typeMismatch .int32 .boolean)) := by decide +kernel
  obtain ⟨-, -, -, hreplay⟩ := Encoder.left_by_error e e' source.view (.typeMismatch .int32 .boolean)
  exact ⟨hfails, by decide +kernel, hreplay hfails⟩

/-- The second row is added: an encoder that fails has not the bytes that it had before. -/
theorem not_kept_by_error :
    ¬ ∀ (e e' : Encoder) (view : TableView) (error : TableError),
      (∀ event, e.event view event = (e', .error error) → e'.pending = e.pending) ∧
        (e.replay view = (e', .error error) → e'.pending = e.pending) := by
  intro h
  obtain ⟨hevent, -⟩ := h { fields := ⟨[("p", 2)], [(2, "p")]⟩ } _ source.view (.typeMismatch .int32 .boolean)
  have hadded := hevent (.added 1) rfl
  revert hadded
  decide +kernel

end Mistyped

end LiveTables
