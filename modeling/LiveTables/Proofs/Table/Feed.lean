import LiveTables.Proofs.Table.Operations

/-!
# A table and one who listens to it

A table that is written by calls alone goes through one edit after the other; a call that is refused changes
nothing and announces nothing. What an edit that goes through does, and what events it announces, is one of
three things (`Table.Turns`, `Table.turns_perform`).

One who listens to the table hears each of these events with the table as it is after the edit
(`Table.feed`). So it is in a network too, as `World.foldl_edit_crowd` shows.
-/

namespace LiveTables.Table

variable {σ : Type} {t t' : Table} {events : List Event}

/-- A call that edits the rows of a table. -/
inductive Edit where
  | addRow
  | setValue (column : String) (row : Nat) (value : Value)
  | deleteRow (row : Nat)
  deriving DecidableEq

/-- The table after a call, and what it announces. -/
def perform (t : Table) : Edit → Table × List Signal
  | .addRow => (t.addRow.1, t.addRow.2.2)
  | .setValue column row value =>
    match t.setValue column row value with
    | (t, .ok signals) => (t, signals)
    | (t, .error _) => (t, [])
  | .deleteRow row =>
    match t.deleteRow row with
    | (t, .ok signals) => (t, signals)
    | (t, .error _) => (t, [])

/-- The table after calls, one after the other. -/
def performAll (t : Table) (edits : List Edit) : Table := edits.foldl (fun t e => (t.perform e).1) t

/-- A table and what a listener keeps, after a call. The listener hears of every event in turn, and may read
the table then, which has been edited before. -/
def feed (hear : TableView → Event → σ → σ) (s : Table × σ) (e : Edit) : Table × σ :=
  let (t, signals) := s.1.perform e
  (t, (eventsOf signals).foldl (fun kept event => hear t.view event kept) s.2)

/-- What an edit makes of a table, and the events that it announces. -/
inductive Turns (t : Table) : Table → List Event → Prop
  | refused : Turns t t []
  | added : Turns t t.addRow.1 [.added t.live.size]
  | written {id : String} {row : Nat} {value : Value} (live : row ∈ t.rows)
      (kind : t.storedKind? id = some value.kind) :
      Turns t (t.write id row value) ((id :: t.computed.dependentsOf [id]).map fun c => .updated row [c])
  | removed {row : Nat} (live : row ∈ t.rows) : Turns t (t.remove row) [.deleted row]

/-- A call edits the table in one of these ways. -/
theorem turns_perform (h : t.WellFormed) (e : Edit) :
    t.Turns (t.perform e).1 (eventsOf (t.perform e).2) := by
  cases e with
  | addRow => exact .added
  | setValue column row value =>
    simp only [perform]
    rcases hset : t.setValue column row value with ⟨t', e | signals⟩
    · rw [h.setValue_of_error hset]
      exact .refused
    · obtain ⟨hlive, -, hkind, rfl, rfl⟩ := setValue_eq_ok h hset
      simp only [eventsOf_write]
      exact .written hlive hkind
  | deleteRow row =>
    simp only [perform]
    rcases hdelete : t.deleteRow row with ⟨t', e | signals⟩
    · rw [deleteRow_of_error hdelete]
      exact .refused
    · obtain ⟨hlive, rfl, rfl⟩ := deleteRow_eq_ok hdelete
      exact .removed hlive

theorem Turns.wellFormed (h : t.WellFormed) (hturns : t.Turns t' events) : t'.WellFormed := by
  cases hturns with
  | refused => exact h
  | added => exact h.addRow
  | written _ hkind => exact h.write hkind _
  | removed hrow => exact h.remove hrow

theorem Turns.alike (hturns : t.Turns t' events) : t.Alike t' := by
  cases hturns with
  | refused => exact .refl t
  | added => exact alike_addRow
  | written _ _ => exact alike_write
  | removed _ => exact alike_remove

/-- The events of an edit are about rows that were added. -/
theorem Turns.row_lt (hturns : t.Turns t' events) : ∀ e ∈ events, e.row < t'.live.size := by
  intro e he
  cases hturns with
  | refused => cases he
  | added =>
    obtain rfl := List.mem_singleton.1 he
    show t.live.size < (t.live.push true).size
    simp
  | written hlive _ =>
    obtain ⟨c, -, rfl⟩ := List.mem_map.1 he
    exact lt_of_mem_rows hlive
  | @removed row hlive =>
    obtain rfl := List.mem_singleton.1 he
    show row < (t.live.setIfInBounds row false).size
    rw [Array.size_setIfInBounds]
    exact lt_of_mem_rows hlive

/-- The columns that an event names are there to be read in its row after the edit. -/
theorem Turns.mem_columnIds (h : t.WellFormed) (hturns : t.Turns t' events) {e : Event} (he : e ∈ events)
    {c : String} (hc : c ∈ if e.action = .add then t'.columnIds else e.columns) :
    e.row ∈ t'.rows ∧ c ∈ t'.columnIds := by
  cases hturns with
  | refused => cases he
  | added =>
    obtain rfl := List.mem_singleton.1 he
    exact ⟨mem_rows_addRow.2 (.inr rfl), hc⟩
  | @written id row value hlive hkind =>
    obtain ⟨d, hd, rfl⟩ := List.mem_map.1 he
    obtain rfl : c = d := List.mem_singleton.1 hc
    rw [alike_write.columnIds]
    exact ⟨hlive, h.mem_columnIds_of_write hkind hd⟩
  | removed _ =>
    obtain rfl := List.mem_singleton.1 he
    cases hc

/-- What can be made of a schema by registering columns and by edits. -/
inductive Reachable : Table → Prop
  | ofSchema (s : Schema) : Reachable (ofSchema s)
  | addComputed {t t' : Table} {column : ComputedColumn} (before : Reachable t)
      (done : t.addComputed column = (t', .ok ())) : Reachable t'
  | perform {t : Table} (before : Reachable t) (e : Edit) : Reachable (t.perform e).1

theorem Reachable.wellFormed (h : t.Reachable) : t.WellFormed := by
  induction h with
  | ofSchema s => exact wellFormed_ofSchema s
  | addComputed _ hadd ih => exact (ih.addComputed hadd).1
  | perform _ e ih => exact (turns_perform ih e).wellFormed ih

/-! ## Runs -/

theorem WellFormed.performAll (h : t.WellFormed) (edits : List Edit) : (t.performAll edits).WellFormed := by
  induction edits generalizing t with
  | nil => exact h
  | cons e edits ih => exact ih ((turns_perform h e).wellFormed h)

/-- What holds of a table and what its listener keeps, and is kept by what an edit does, holds after calls.
Of the table after each call it may be known that it is one of some `P`. -/
theorem WellFormed.feed_induction {hear : TableView → Event → σ → σ} {P : Table → Prop} {motive : Table → σ → Prop}
    {kept : σ} {edits : List Edit} (h : t.WellFormed) (hall : ∀ front, front <+: edits → P (t.performAll front))
    (start : motive t kept)
    (step : ∀ t t' events kept, t.WellFormed → t.Turns t' events → P t' → motive t kept →
      motive t' (events.foldl (fun kept event => hear t'.view event kept) kept)) :
    motive (edits.foldl (feed hear) (t, kept)).1 (edits.foldl (feed hear) (t, kept)).2 := by
  induction edits generalizing t kept with
  | nil => exact start
  | cons e edits ih =>
    have hturns := turns_perform h e
    have hfirst : P (t.perform e).1 := hall [e] (List.prefix_append [e] edits)
    have hlater : ∀ front, front <+: edits → P ((t.perform e).1.performAll front) :=
      fun front hfront => hall (e :: front) ((List.prefix_cons_inj e).2 hfront)
    exact ih (hturns.wellFormed h) hlater (step t _ _ kept h hturns hfirst start)

end LiveTables.Table
