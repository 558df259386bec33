import LiveTables.Proofs.Network.Telling
import Mathlib.Data.Finset.Lattice.Lemmas

/-!
# What an observer hears

Events can be replayed on the rows that an observer has (`Event.replay`): an added row must be absent, an
updated or deleted one present. What a joined table tells can be replayed on its rows
(`JoinedTable.replay_tell`).

The account of an observer is what it has heard, each event with the table as it was shown then (`Account`).
An account determines what somebody has of a column who looks at a cell when its row is added and when an
update names it (`Account.latest`).
-/

namespace LiveTables

namespace Event

variable {rows rows' mid : Finset ℕ} {e : Event} {es es' : List Event} {k : Nat}

/-- The rows after an event, if it fits the rows before. -/
def applyTo (rows : Finset ℕ) (e : Event) : Option (Finset ℕ) :=
  match e.action with
  | .add => if e.row ∈ rows then none else some (insert e.row rows)
  | .update => if e.row ∈ rows then some rows else none
  | .delete => if e.row ∈ rows then some (rows.erase e.row) else none

/-- The rows after some events, if each of them fits the rows at its turn. -/
def replay (rows : Finset ℕ) (es : List Event) : Option (Finset ℕ) := es.foldlM applyTo rows

@[simp] theorem replay_nil : replay rows [] = some rows := rfl

theorem replay_cons_eq_some :
    replay rows (e :: es) = some rows' ↔ ∃ mid, e.applyTo rows = some mid ∧ replay mid es = some rows' := by
  rw [replay, List.foldlM_cons]
  exact Option.bind_eq_some_iff

theorem replay_append_eq_some : replay rows (es ++ es') = some rows' ↔
    ∃ mid, replay rows es = some mid ∧ replay mid es' = some rows' := by
  rw [replay, List.foldlM_append]
  exact Option.bind_eq_some_iff

theorem applyTo_add (h : e.action = .add) :
    e.applyTo rows = some rows' ↔ e.row ∉ rows ∧ insert e.row rows = rows' := by
  simp [applyTo, h]

theorem applyTo_update (h : e.action = .update) :
    e.applyTo rows = some rows' ↔ e.row ∈ rows ∧ rows = rows' := by
  simp [applyTo, h]

theorem applyTo_delete (h : e.action = .delete) :
    e.applyTo rows = some rows' ↔ e.row ∈ rows ∧ rows.erase e.row = rows' := by
  simp [applyTo, h]

/-- Updates of rows that are there change nothing. -/
theorem replay_updates (h : ∀ e ∈ es, e.action = .update ∧ e.row ∈ rows) : replay rows es = some rows := by
  induction es with
  | nil => rfl
  | cons e es ih =>
    obtain ⟨haction, hrow⟩ := h e List.mem_cons_self
    refine replay_cons_eq_some.2 ⟨rows, (applyTo_update haction).2 ⟨hrow, rfl⟩, ih fun e he => ?_⟩
    exact h e (List.mem_cons_of_mem _ he)

/-- A row that comes is added by an event. -/
theorem exists_add_of_replay (h : replay rows es = some rows') (hk : k ∉ rows) (hk' : k ∈ rows') :
    ∃ e ∈ es, e.action = .add ∧ e.row = k := by
  induction es generalizing rows with
  | nil =>
    obtain rfl := Option.some.inj h
    exact absurd hk' hk
  | cons e es ih =>
    obtain ⟨mid, happly, hrest⟩ := replay_cons_eq_some.1 h
    by_cases hmid : k ∈ mid
    · refine ⟨e, List.mem_cons_self, ?_⟩
      cases haction : e.action with
      | add =>
        obtain ⟨-, rfl⟩ := (applyTo_add haction).1 happly
        exact ⟨rfl, ((Finset.mem_insert.1 hmid).resolve_right hk).symm⟩
      | update =>
        obtain ⟨-, rfl⟩ := (applyTo_update haction).1 happly
        exact absurd hmid hk
      | delete =>
        obtain ⟨-, rfl⟩ := (applyTo_delete haction).1 happly
        exact absurd (Finset.mem_of_mem_erase hmid) hk
    · -- it is still absent after the first event
      obtain ⟨e', he', hadd⟩ := ih hrest hmid
      exact ⟨e', List.mem_cons_of_mem _ he', hadd⟩

end Event

/-! ## Replays -/

namespace TableView

open Event

variable {t : TableView}

/-- The events of a replay are about rows that are shown. -/
theorem mem_replay {e : Event} (he : e ∈ t.replay) :
    ∃ k ∈ t.rows, e = .added k ∨ e = .updated k t.columnIds := by
  obtain ⟨k, hk, he⟩ := List.mem_flatMap.1 he
  exact ⟨k, hk, by simpa using he⟩

/-- A replay leads from no rows to those that are shown. -/
theorem replay_replay (h : t.rows.Nodup) : Event.replay ∅ t.replay = some t.rows.toFinset := by
  have hall (rows : List Nat) (done : Finset ℕ) (hnodup : rows.Nodup) (hdone : ∀ k ∈ rows, k ∉ done) :
      Event.replay done (rows.flatMap fun k => [.added k, .updated k t.columnIds]) =
        some (done ∪ rows.toFinset) := by
    induction rows generalizing done with
    | nil => simp
    | cons k rows ih =>
      obtain ⟨hk, hnodup⟩ := List.nodup_cons.1 hnodup
      refine replay_cons_eq_some.2
        ⟨insert k done, (applyTo_add rfl).2 ⟨hdone k List.mem_cons_self, rfl⟩, ?_⟩
      refine replay_cons_eq_some.2
        ⟨insert k done, (applyTo_update rfl).2 ⟨Finset.mem_insert_self k done, rfl⟩, ?_⟩
      refine (ih _ hnodup fun r hr => ?_).trans ?_
      · rw [Finset.mem_insert, not_or]
        exact ⟨fun heq => hk (heq ▸ hr), hdone r (List.mem_cons_of_mem _ hr)⟩
      · rw [List.toFinset_cons, Finset.insert_union, Finset.union_insert]
  rw [replay, hall _ _ h fun k _ => Finset.notMem_empty k, Finset.empty_union]

end TableView

/-! ## What a joined table tells -/

namespace JoinedTable

open Notice Event

variable {j : JoinedTable} {e : JoinEngine} {side : Side} {row k : Nat} {columns : List String}
  {changes : List JoinChange} {change : JoinChange} {x : Notice} {rows rows' : Finset ℕ}

theorem replay_tellUpdate (hk : k ∈ rows) :
    Event.replay rows ((j.tellUpdate k columns).map (·.event)) = some rows := by
  refine replay_updates fun e he => ?_
  obtain ⟨x, hx, rfl⟩ := List.mem_map.1 he
  obtain ⟨haction, hrow⟩ := of_mem_tellUpdate hx
  exact ⟨haction, hrow ▸ hk⟩

/-- What is told of a change does to the rows what the change does. -/
theorem replay_tellChange (h : change.applyTo rows = some rows') :
    Event.replay rows ((j.tellChange change).map (·.event)) = some rows' := by
  cases change with
  | added k =>
    obtain ⟨hk, rfl⟩ : k ∉ rows ∧ insert k rows = rows' := by simpa [JoinChange.applyTo] using h
    refine replay_cons_eq_some.2 ⟨insert k rows, (applyTo_add rfl).2 ⟨hk, rfl⟩, replay_updates fun e he => ?_⟩
    obtain rfl := List.mem_singleton.1 he
    exact ⟨rfl, Finset.mem_insert_self k rows⟩
  | updated k s =>
    obtain ⟨hk, rfl⟩ : k ∈ rows ∧ rows = rows' := by simpa [JoinChange.applyTo] using h
    exact replay_tellUpdate hk
  | deleted k =>
    obtain ⟨hk, rfl⟩ : k ∈ rows ∧ rows.erase k = rows' := by simpa [JoinChange.applyTo] using h
    exact replay_cons_eq_some.2 ⟨rows.erase k, (applyTo_delete rfl).2 ⟨hk, rfl⟩, rfl⟩

/-- What a joined table tells leads from the joined rows before to those after. -/
theorem replay_tell (hscript : e.EditScript j.engine side changes) (hsound : j.engine.Sound) :
    Event.replay e.rows.toFinset ((j.tell side row changes columns).map (·.event)) =
      some j.engine.rows.toFinset := by
  rw [tell, List.map_append, replay_append_eq_some]
  refine ⟨j.engine.rows.toFinset, ?_, replay_updates fun e he => ?_⟩
  · -- the changes one by one, from whatever rows they fit
    have hreplay := hscript.replay
    generalize e.rows.toFinset = rows at hreplay
    clear hscript
    induction changes generalizing rows with
    | nil => exact hreplay
    | cons change changes ih =>
      obtain ⟨mid, happly, hrest⟩ := JoinChange.replay_cons_eq_some.1 hreplay
      rw [List.flatMap_cons, List.map_append, replay_append_eq_some]
      exact ⟨mid, replay_tellChange happly, ih mid hrest⟩
  · obtain ⟨x, hx, rfl⟩ := List.mem_map.1 he
    obtain ⟨-, k, hk, -, hx⟩ := of_mem_tellRest hx
    obtain ⟨haction, hrow⟩ := of_mem_tellUpdate hx
    refine ⟨haction, List.mem_toFinset.2 ?_⟩
    rw [hrow]
    exact JoinEngine.mem_rows_of_sourceRow? ((mem_joinedRowsOf hsound).1 hk)

/-- Columns of which a joined table tells that they changed are columns of the table. -/
theorem mem_columnIds_of_tellUpdate (hvalid : j.Valid) (hx : x ∈ j.tellUpdate k columns)
    (hcolumns : ∀ c ∈ columns, c ∈ j.columnIds) : ∀ c ∈ x.event.columns, c ∈ j.columnIds := by
  rcases mem_tellUpdate.1 hx with rfl | ⟨d, hd, rfl⟩
  · exact hcolumns
  · intro c hc
    obtain rfl := List.mem_singleton.1 hc
    obtain ⟨col, hcol⟩ := hvalid.registered.layered.exists_column?_of_mem hd
    exact List.mem_append_right _ (Computed.mem_ids_of_column? hcol)

/-- So it is with all that a joined table tells. -/
theorem mem_columnIds_of_tell (hvalid : j.Valid) (hcolumns : ∀ c ∈ columns, c ∈ j.sideIds side)
    (hx : x ∈ j.tell side row changes columns) : ∀ c ∈ x.event.columns, c ∈ j.columnIds := by
  rcases List.mem_append.1 hx with hx | hx
  · obtain ⟨change, -, hx⟩ := List.mem_flatMap.1 hx
    cases change with
    | added k =>
      have hcases : x = fresh (.added k) ∨ x = repeated (.updated k j.columnIds) := by
        simpa [tellChange] using hx
      rcases hcases with rfl | rfl
      · exact fun c hc => absurd hc List.not_mem_nil
      · exact fun c hc => hc
    | updated k s => exact mem_columnIds_of_tellUpdate hvalid hx fun c hc => mem_columnIds_of_mem_sideIds hc
    | deleted k =>
      obtain rfl := List.mem_singleton.1 hx
      exact fun c hc => absurd hc List.not_mem_nil
  · obtain ⟨-, k, -, -, hx⟩ := of_mem_tellRest hx
    exact mem_columnIds_of_tellUpdate hvalid hx fun c hc => mem_columnIds_of_mem_sideIds (hcolumns c hc)

end JoinedTable

/-! ## Accounts -/

/-- What an observer has heard, each event with the table as it was shown then. -/
abbrev Account := List (TableView × Event)

namespace Account

variable {L : Account} {x : TableView × Event} {c : String} {f : Nat → Option Value} {k : Nat}

/-- The events of an account. -/
def events (L : Account) : List Event := L.map (·.2)

@[simp] theorem events_nil : events [] = [] := rfl

@[simp] theorem events_append (L L' : Account) : events (L ++ L') = events L ++ events L' := List.map_append

/-- What somebody has of the cells of a column after an event who looks at a cell when its row is added, and
when an update names the column. -/
def look (c : String) (f : Nat → Option Value) (x : TableView × Event) : Nat → Option Value := fun k =>
  if k = x.2.row then
    match x.2.action with
    | .add => x.1.class? k c
    | .update => if c ∈ x.2.columns then x.1.class? k c else f k
    | .delete => none
  else f k

/-- What somebody has after all events. -/
def latest (L : Account) (c : String) (f : Nat → Option Value) : Nat → Option Value := L.foldl (look c) f

@[simp] theorem latest_nil : latest [] c f = f := rfl

theorem latest_concat : (L ++ [x]).latest c f = look c (L.latest c f) x := by
  rw [latest, List.foldl_append]
  rfl

theorem look_of_ne (h : k ≠ x.2.row) : look c f x k = f k := if_neg h

theorem look_add (h : x.2.action = .add) : look c f x x.2.row = x.1.class? x.2.row c := by
  simp [look, h]

theorem look_named (h : x.2.action = .update) (hc : c ∈ x.2.columns) :
    look c f x x.2.row = x.1.class? x.2.row c := by
  simp [look, h, hc]

theorem look_other (h : x.2.action = .update) (hc : c ∉ x.2.columns) : look c f x x.2.row = f x.2.row := by
  simp [look, h, hc]

theorem look_delete (h : x.2.action = .delete) : look c f x x.2.row = none := by
  simp [look, h]

end Account

end LiveTables
