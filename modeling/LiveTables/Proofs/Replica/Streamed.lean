import LiveTables.Proofs.Replica.Applied
import LiveTables.Proofs.Replica.Piped
import Mathlib.Data.List.Infix

/-!
# Replicas at the end of a byte stream

An encoder is attached to a table: it writes what the table holds, and then every event as it is delivered,
with the values that the table has at that moment. What an event makes it write are calls whose changes are
those that a pipeline would make of the event (`Event.calls`, `flatMap_changes_calls`). The other end decodes
the bytes and applies the records to a new replica, which then follows the table in the columns that the field
map names (`follows_streamed`).
-/

namespace LiveTables

variable {m : FieldMap} {view : TableView} {row : Nat} {columns : List String} {kindOf : String → Option Kind}

/-- The values of columns of a row, as far as they can be read. -/
def TableView.values (view : TableView) (row : Nat) (columns : List String) : List (String × Value) :=
  columns.filterMap fun c => ((view.get c row).toOption).map (c, ·)

/-- The mapped ones of some columns of a row can be read. -/
def TableView.ReadsMapped (view : TableView) (m : FieldMap) (row : Nat) (columns : List String) : Prop :=
  ∀ c ∈ columns, m.maps c = true → ∃ v, view.get c row = .ok v

/-- The calls by which an event is written. -/
def Event.calls (view : TableView) (e : Event) : List RowChange :=
  match e.action with
  | .add => [.add e.row, .update e.row (view.values e.row view.columnIds)]
  | .update => [.update e.row (view.values e.row e.columns)]
  | .delete => [.delete e.row]

theorem changes_update_values (view : TableView) (row : Nat) (columns : List String) :
    (RowChange.update row (view.values row columns)).changes = view.told row columns := by
  simp only [RowChange.changes, TableView.values, TableView.told, List.map_filterMap, Option.map_map]
  rfl

/-- What is written of an event is what it tells. -/
theorem flatMap_changes_calls (view : TableView) (e : Event) :
    (e.calls view).flatMap RowChange.changes = Pipeline.changesOf view true e := by
  obtain ⟨action, row, columns⟩ := e
  cases action with
  | add =>
    simp only [Event.calls, List.flatMap_cons, List.flatMap_nil, changes_update_values, List.append_nil]
    rfl
  | update =>
    simp only [Event.calls, List.flatMap_cons, List.flatMap_nil, changes_update_values, List.append_nil]
    rfl
  | delete => rfl

/-- Columns that can be read are read. -/
theorem TableView.mapM_get (hread : ∀ c ∈ columns, ∃ v, view.get c row = .ok v) :
    (columns.mapM fun c => return (c, ← view.get c row)) = .ok (view.values row columns) := by
  rw [mapM_eq_ok_iff]
  induction columns with
  | nil => exact .nil
  | cons c columns ih =>
    obtain ⟨⟨v, hv⟩, hrest⟩ := List.forall_mem_cons.1 hread
    have hvalues : view.values row (c :: columns) = (c, v) :: view.values row columns := by
      simp [values, hv, Except.toOption]
    rw [hvalues]
    refine .cons ?_ (ih hrest)
    simp only [hv]
    rfl

theorem TableView.filter_values (m : FieldMap) (view : TableView) (row : Nat) (columns : List String) :
    (view.values row columns).filter (fun x => m.maps x.1) = view.values row (columns.filter m.maps) := by
  rw [values, values, List.filter_filterMap, List.filterMap_filter]
  congr 1
  funext c
  rcases (view.get c row).toOption with - | v <;> simp [Option.filter]

namespace Encoder

/-- Mapped columns that can be read are read. -/
theorem readMapped_eq (hread : view.ReadsMapped m row columns) :
    readMapped m view row columns = .ok ((view.values row columns).filter fun x => m.maps x.1) := by
  rw [TableView.filter_values]
  exact TableView.mapM_get fun c hc => hread c (List.mem_filter.1 hc).1 (List.mem_filter.1 hc).2

/-- Columns that are not mapped make no difference. -/
theorem payloads_filter (m : FieldMap) (values : List (String × Value)) :
    payloads m (values.filter fun x => m.maps x.1) = payloads m values := by
  rw [payloads, payloads, List.filterMap_filter]
  congr 1
  funext x
  obtain ⟨c, v⟩ := x
  rcases hfield : m.field? c with - | field <;> simp [FieldMap.maps, hfield]

theorem updateFrom_eq (e : Encoder) (hread : view.ReadsMapped e.fields row columns) :
    e.updateFrom view row columns = (e.rowChange (.update row (view.values row columns)), .ok ()) := by
  simp only [updateFrom, readMapped_eq hread, rowChange, update, payloads_filter]

/-- An event of a table whose cells can be read is written by its calls. -/
theorem event_eq (e : Encoder) {event : Event}
    (hread : view.ReadsMapped e.fields event.row (if event.action = .add then view.columnIds else event.columns)) :
    e.event view event = ((event.calls view).foldl rowChange e, .ok ()) := by
  obtain ⟨action, row, columns⟩ := event
  cases action with
  | add => exact updateFrom_eq (e.add row) hread
  | update => exact updateFrom_eq e hread
  | delete => rfl

/-- Rows that can be read are written, and then the rows after them. -/
theorem rows_append (e : Encoder) {before : List Nat}
    (hread : ∀ row ∈ before, view.ReadsMapped e.fields row view.columnIds) (after : List Nat) :
    e.rows view (before ++ after) =
      (((before.map .added).flatMap (Event.calls view)).foldl rowChange e).rows view after := by
  induction before generalizing e with
  | nil => rfl
  | cons row before ih =>
    obtain ⟨hrow, hrest⟩ := List.forall_mem_cons.1 hread
    rw [List.cons_append, Encoder.rows, updateFrom_eq (e.add row) hrow, List.map_cons, List.flatMap_cons,
      List.foldl_append]
    refine ih _ ?_
    rw [fields_rowChange]
    exact hrest

theorem rows_eq (e : Encoder) {rows : List Nat} (hread : ∀ row ∈ rows, view.ReadsMapped e.fields row view.columnIds) :
    e.rows view rows = (((rows.map .added).flatMap (Event.calls view)).foldl rowChange e, .ok ()) := by
  have hrows := rows_append e hread []
  rwa [List.append_nil] at hrows

/-- What an encoder writes when it is attached to a table. -/
def attach (m : FieldMap) (view : TableView) : Except TableError Encoder :=
  match replay { fields := m } view with
  | (e, .ok ()) => .ok e
  | (_, .error error) => .error error

/-- Goes on with an event, unless there was an error before. -/
def hear (view : TableView) (event : Event) : Except TableError Encoder → Except TableError Encoder
  | .ok e =>
    match e.event view event with
    | (e, .ok ()) => .ok e
    | (_, .error error) => .error error
  | .error error => .error error

theorem attach_eq (m : FieldMap) (hread : view.Readable) :
    attach m view = .ok (((view.rows.map .added).flatMap (Event.calls view)).foldl rowChange { fields := m }) := by
  rw [attach, replay, rows_eq _ fun row hrow c hc _ => hread row hrow c hc]

theorem foldl_hear {events : List Event} (e : Encoder)
    (hread : ∀ event ∈ events, ∀ c ∈ if event.action = .add then view.columnIds else event.columns,
      ∃ v, view.get c event.row = .ok v) :
    events.foldl (fun kept event => hear view event kept) (.ok e) =
      .ok ((events.flatMap (Event.calls view)).foldl rowChange e) := by
  induction events generalizing e with
  | nil => rfl
  | cons event events ih =>
    obtain ⟨hevent, hrest⟩ := List.forall_mem_cons.1 hread
    rw [List.foldl_cons, hear, event_eq e fun c hc _ => hevent c hc, List.flatMap_cons, List.foldl_append]
    exact ih _ hrest

end Encoder

/-! ### What was written -/

theorem Change.agrees_of_suits {c : Change} (h : c.isPicked m.maps = true → c.Suits kindOf) :
    c.Agrees m kindOf := by
  cases c with
  | add | delete => trivial
  | update row column value =>
    intro hmaps k hk
    have hkind : kindOf column = some value.kind := h hmaps
    exact Option.some.inj (hkind.symm.trans hk)

/-- What is mapped lands, if it can be written. -/
theorem filter_lands {changes : List Change}
    (h : ∀ c ∈ changes, c.isPicked m.maps = true → c.Suits kindOf) :
    changes.filter (Change.lands m kindOf) = changes.filter (Change.isPicked m.maps) := by
  refine List.filter_congr fun c hc => ?_
  cases c with
  | add | delete => rfl
  | update row column value =>
    show (m.maps column && (kindOf column).isSome) = m.maps column
    by_cases hmaps : m.maps column = true
    · have hkind : kindOf column = some value.kind := h _ hc hmaps
      rw [hkind, Option.isSome_some, Bool.and_true]
    · simp [hmaps]

/-- What was written of a table for a replica of `target`: calls that fit, whose mapped changes can be written
there, each clean after those before it, and make an image that shows the mapped columns. -/
structure Encoder.Wrote (m : FieldMap) (target t : Table) (calls : List RowChange) : Prop where
  fits : ∀ c ∈ calls, c.Fits
  suits : ∀ c ∈ calls.flatMap RowChange.changes, c.isPicked m.maps = true → c.Suits target.storedKind?
  clean : Replica.CleanFrom m target (fun _ => none) calls
  shows : Image.Shows m.maps t.view (Image.applyAll target.defaults (fun _ => none)
    ((calls.flatMap RowChange.changes).filter (Change.isPicked m.maps)))

/-- The rows of a table have numbers of 64 bits, and so have the lengths of its texts. -/
def Table.Fits (t : Table) : Prop :=
  t.live.size ≤ 2 ^ 64 ∧ ∀ row ∈ t.rows, ∀ c ∈ t.columnIds, ∀ v ∈ (t.get c row).toOption, v.Fits

instance (t : Table) : Decidable t.Fits :=
  inferInstanceAs (Decidable (t.live.size ≤ 2 ^ 64 ∧
    ∀ row ∈ t.rows, ∀ c ∈ t.columnIds, ∀ v ∈ (t.get c row).toOption, v.Fits))

theorem TableView.mem_values {x : String × Value} (h : x ∈ view.values row columns) :
    x.1 ∈ columns ∧ view.get x.1 row = .ok x.2 := by
  obtain ⟨c, hc, hx⟩ := List.mem_filterMap.1 h
  obtain ⟨v, hv, rfl⟩ := Option.map_eq_some_iff.1 hx
  exact ⟨hc, Except.eq_ok_of_toOption hv⟩

/-- The calls of an event fit if the table does. -/
theorem Table.Fits.calls {t : Table} {e : Event} (h : t.Fits) (hformed : t.WellFormed)
    (hrow : e.row < t.live.size) :
    ∀ c ∈ e.calls t.view, c.Fits := by
  have hlt : e.row < 2 ^ 64 := Nat.lt_of_lt_of_le hrow h.1
  have hvalues : ∀ columns, ∀ x ∈ t.view.values e.row columns, x.2.Fits := by
    intro columns x hx
    have hget : t.get x.1 e.row = .ok x.2 := (TableView.mem_values hx).2
    have hlive : e.row ∈ t.rows := by
      by_contra hdead
      rw [get_of_dead hdead] at hget
      cases hget
    exact h.2 e.row hlive x.1 (mem_columnIds (hformed.columnKind_of_get hget)) x.2 (by simp [hget, Except.toOption])
  obtain ⟨action, row, columns⟩ := e
  cases action with
  | add => exact List.forall_mem_cons.2 ⟨hlt, List.forall_mem_singleton.2 ⟨hlt, hvalues t.columnIds⟩⟩
  | update => exact List.forall_mem_singleton.2 ⟨hlt, hvalues columns⟩
  | delete => exact List.forall_mem_singleton.2 hlt

/-- The calls of an event are clean if an updated row is known. -/
theorem Event.cleanFrom {e : Event} {i : Image} {target : Table} (hknown : e.action = .update → i e.row ≠ none)
    (hsuits : ∀ c ∈ Pipeline.changesOf view true e, c.isPicked m.maps = true → c.Suits target.storedKind?) :
    Replica.CleanFrom m target i (e.calls view) := by
  have hvalues (columns : List String) (htold : view.told e.row columns ⊆ Pipeline.changesOf view true e) :
      ∀ x ∈ view.values e.row columns, (m.field? x.1).isSome → target.storedKind? x.1 = some x.2.kind := by
    intro x hx hmaps
    refine hsuits (.update e.row x.1 x.2) (htold ?_) hmaps
    rw [← changes_update_values]
    exact List.mem_map_of_mem hx
  obtain ⟨action, row, columns⟩ := e
  cases action with
  | add =>
    refine ⟨trivial, ⟨?_, hvalues view.columnIds (List.subset_cons_self _ _)⟩, trivial⟩
    show (i.apply target.defaults (.add row)) row ≠ none
    have hself : i.apply target.defaults (.add row) row = _ := Image.apply_self target.defaults i (.add row)
    rw [hself, Change.row]
    cases i row <;> simp [Change.effect]
  | update => exact ⟨⟨hknown rfl, hvalues columns (List.Subset.refl _)⟩, trivial⟩
  | delete => exact ⟨trivial, trivial⟩

/-! ### Runs -/

section Runs

variable {source target t t' : Table} {calls : List RowChange} {events : List Event} {i : Image}

theorem flatMap_changes (view : TableView) (events : List Event) :
    (events.flatMap (Event.calls view)).flatMap RowChange.changes =
      events.flatMap (Pipeline.changesOf view true) := by
  rw [List.flatMap_assoc]
  simp only [flatMap_changes_calls]

/-- The calls of an edit are clean if the rows before it are known. -/
theorem cleanFrom_turns (hturns : t.Turns t' events) (hknown : ∀ row ∈ t.rows, i row ≠ none)
    (hsuits : ∀ e ∈ events, ∀ c ∈ Pipeline.changesOf t'.view true e, c.isPicked m.maps = true →
      c.Suits target.storedKind?) :
    Replica.CleanFrom m target i (events.flatMap (Event.calls t'.view)) := by
  cases hturns with
  | refused => trivial
  | added | removed =>
    rw [List.flatMap_singleton]
    exact Event.cleanFrom (fun h => Action.noConfusion h) (hsuits _ List.mem_cons_self)
  | @written id row value hlive hkind =>
    -- the row stays known from one event to the next
    refine Replica.cleanFrom_flatMap (P := fun i => i row ≠ none) (hknown row hlive) fun e he j hj => ?_
    obtain ⟨c, -, rfl⟩ := List.mem_map.1 he
    refine ⟨Event.cleanFrom (fun _ => hj) (hsuits _ he), Image.applyAll_ne_none hj fun hdelete => ?_⟩
    rw [flatMap_changes_calls] at hdelete
    obtain ⟨_, _, _, _, heq⟩ := TableView.mem_told.1 (List.mem_filter.1 hdelete).1
    cases heq

namespace Encoder

variable (hsource : source.WellFormed) (htyped : source.WellTyped)
  (hkinds : ∀ c ∈ source.columnIds, m.maps c = true → target.storedKind? c = (source.columnKind c).toOption)

include hsource hkinds

/-- What is told of mapped columns can be written. -/
theorem suits_of_alike (halike : source.Alike t) (hformed : t.WellFormed) {e : Event} :
    ∀ c ∈ Pipeline.changesOf t.view true e, c.isPicked m.maps = true → c.Suits target.storedKind? := by
  intro c hc hmaps
  have hsuits := suits_changesOf hformed hc
  cases c with
  | add | delete => trivial
  | update row column value =>
    have hkind : (source.columnKind column).toOption = some value.kind :=
      (halike.columnKind hsource hformed).symm.trans hsuits
    have hid : column ∈ source.columnIds := Table.mem_columnIds (Except.eq_ok_of_toOption hkind)
    exact (hkinds column hid hmaps).trans hkind

theorem suits_flatMap (halike : source.Alike t) (hformed : t.WellFormed) (events : List Event) :
    ∀ c ∈ (events.flatMap (Event.calls t.view)).flatMap RowChange.changes, c.isPicked m.maps = true →
      c.Suits target.storedKind? := by
  intro c hc
  rw [flatMap_changes] at hc
  obtain ⟨e, -, hc⟩ := List.mem_flatMap.1 hc
  exact suits_of_alike hsource hkinds halike hformed c hc

include htyped

/-- What was written when the encoder was attached. -/
theorem wrote_attach (hfits : source.Fits) :
    Wrote m target source ((source.rows.map .added).flatMap (Event.calls source.view)) where
  fits := by
    intro c hc
    obtain ⟨e, he, hc⟩ := List.mem_flatMap.1 hc
    obtain ⟨row, hrow, rfl⟩ := List.mem_map.1 he
    exact hfits.calls hsource (Table.lt_of_mem_rows hrow) c hc
  suits := suits_flatMap hsource hkinds (.refl source) hsource _
  clean := by
    refine Replica.cleanFrom_flatMap (P := fun _ => True) trivial fun e he j _ => ⟨?_, trivial⟩
    obtain ⟨row, -, rfl⟩ := List.mem_map.1 he
    exact Event.cleanFrom (fun h => Action.noConfusion h) (suits_of_alike hsource hkinds (.refl source) hsource)
  shows := by
    have hread := hsource.readable htyped
    have hreplay : (source.rows.map Event.added).flatMap (Pipeline.changesOf source.view true) =
        source.view.rows.flatMap fun row => .add row :: source.view.told row source.view.columnIds := by
      rw [List.flatMap_map]
      rfl
    rw [flatMap_changes, hreplay, List.filter_flatMap]
    refine Image.shows_replay source.nodup_rows fun done row i hrow hnot hshows => ?_
    rw [List.filter_cons_of_pos rfl, TableView.filter_told]
    exact hshows.add hnot (hread row hrow)

/-- What was written once an edit was heard. -/
theorem Wrote.append (h : Wrote m target t calls) (halike : source.Alike t) (hformed : t.WellFormed)
    (hturns : t.Turns t' events) (hfits : t'.Fits) :
    Wrote m target t' (calls ++ events.flatMap (Event.calls t'.view)) := by
  have hformed' := hturns.wellFormed hformed
  have halike' := halike.trans hturns.alike
  constructor
  case fits =>
    refine List.forall_mem_append.2 ⟨h.fits, fun c hc => ?_⟩
    obtain ⟨e, he, hc⟩ := List.mem_flatMap.1 hc
    exact hfits.calls hformed' (hturns.row_lt e he) c hc
  case suits =>
    rw [List.flatMap_append]
    exact List.forall_mem_append.2 ⟨h.suits, suits_flatMap hsource hkinds halike' hformed' events⟩
  case clean =>
    rw [Replica.cleanFrom_append, filter_lands h.suits]
    exact ⟨h.clean, cleanFrom_turns hturns (fun row hrow => (h.shows.rows row).2 hrow) fun e _ =>
      suits_of_alike hsource hkinds halike' hformed'⟩
  case shows =>
    rw [List.flatMap_append, List.filter_append, Image.applyAll_append, flatMap_changes]
    exact h.shows.turns hformed (halike.wellTyped htyped) hturns

/-- The encoder goes on without an error, and its calls are those of the events. -/
theorem wrote_feed {edits : List Table.Edit} (hfits : ∀ front, front <+: edits → (source.performAll front).Fits) :
    let now := edits.foldl (Table.feed hear) (source, attach m source.view)
    source.Alike now.1 ∧ ∃ calls, now.2 = .ok (calls.foldl rowChange { fields := m }) ∧
      Wrote m target now.1 calls := by
  intro now
  refine hsource.feed_induction (P := Table.Fits) (motive := fun t (kept : Except TableError Encoder) =>
    source.Alike t ∧ ∃ calls, kept = .ok (calls.foldl rowChange { fields := m }) ∧ Wrote m target t calls)
    hfits ?_ ?_
  · exact ⟨.refl source, _, attach_eq m (hsource.readable htyped),
      wrote_attach hsource htyped hkinds (hfits [] List.nil_prefix)⟩
  · rintro t t' events _ hformed hturns hfits ⟨halike, calls, rfl, hwrote⟩
    have halike' := halike.trans hturns.alike
    have hread := (hturns.wellFormed hformed).readable (halike'.wellTyped htyped)
    refine ⟨halike', _, ?_, hwrote.append hsource htyped hkinds halike hformed hturns hfits⟩
    rw [foldl_hear, ← List.foldl_append]
    intro e he c hc
    obtain ⟨hrow, hid⟩ := hturns.mem_columnIds hformed he hc
    exact hread e.row hrow c hid

end Encoder

/-- An encoder is attached to a table, which is then edited. The bytes written by then are decoded to records,
which are applied, with nothing skipped, to a new replica on a table that has a stored column of the same kind
for every mapped column of the source; and the replica follows the source in the mapped columns. -/
theorem follows_streamed (hm : m.Built) (hsource : source.Reachable) (htyped : source.WellTyped)
    (htarget : target.Reachable)
    (hkinds : ∀ c ∈ source.columnIds, m.maps c = true → target.storedKind? c = (source.columnKind c).toOption)
    (edits : List Table.Edit) (hfits : ∀ front, front <+: edits → (source.performAll front).Fits)
    (signals : List Signal) :
    let now := edits.foldl (Table.feed Encoder.hear) (source, Encoder.attach m source.view)
    ∃ encoder records target' signals' replica, ∃ done : List Applied,
      now.2 = .ok encoder ∧ Record.ofBytes encoder.pending = .ok records ∧
        Applier.applyAll .alone (target, signals) { fields := m } records =
          ((target', signals'), { replica, fields := m }, done.map .ok) ∧
        (∀ x ∈ done, x.skipped = 0) ∧ replica.Follows now.1 (source.columnIds.filter m.maps) target' := by
  intro now
  have hformed := hsource.wellFormed
  obtain ⟨halike, calls, hcalls, hwrote⟩ := Encoder.wrote_feed hformed htyped hkinds hfits
  obtain ⟨records, target', signals', replica, done, hdecode, happly, hmirrors, hskipped⟩ :=
    Replica.exists_applied htarget.wellFormed hm hwrote.fits
      (fun c hc => Change.agrees_of_suits (hwrote.suits c hc)) signals
  refine ⟨_, records, target', signals', replica, done, hcalls, hdecode, happly, hskipped hwrote.clean, ?_⟩
  rw [filter_lands hwrote.suits] at hmirrors
  refine hmirrors.follows hwrote.shows fun c hc => ?_
  obtain ⟨hid, hmaps⟩ := List.mem_filter.1 hc
  obtain ⟨k, hk⟩ := hformed.exists_columnKind hid
  exact ⟨halike.columnIds ▸ hid, hmaps, by simp [hkinds c hid hmaps, hk, Except.toOption]⟩

end Runs

namespace Doubled

/-- Only the computed column is mapped. -/
theorem follows_streamed_flag :
    let m : FieldMap := ⟨[("p", 2)], [(2, "p")]⟩
    let edits : List Table.Edit := [.setValue "a" 0 (.int32 1), .addRow, .setValue "p" 0 (.int32 7), .deleteRow 0]
    let now := edits.foldl (Table.feed Encoder.hear) (source, Encoder.attach m source.view)
    (m.Built ∧ ∀ front, front <+: edits → (source.performAll front).Fits) ∧
      ∃ encoder records target' signals' replica, ∃ done : List Applied,
        now.2 = .ok encoder ∧ Record.ofBytes encoder.pending = .ok records ∧
          Applier.applyAll .alone (target, []) { fields := m } records =
            ((target', signals'), { replica, fields := m }, done.map .ok) ∧
          (∀ x ∈ done, x.skipped = 0) ∧ replica.Follows now.1 (source.columnIds.filter m.maps) target' := by
  intro m edits now
  have hm : m.Built := .insert .empty (show FieldMap.insert {} "p" 2 = .ok m by decide)
  have hfits : ∀ front, front <+: edits → (source.performAll front).Fits := by
    intro front hfront
    have hall : ∀ front ∈ edits.inits, (source.performAll front).Fits := by decide
    exact hall front ((List.mem_inits front edits).2 hfront)
  have hkinds : ∀ c ∈ source.columnIds, m.maps c = true →
      target.storedKind? c = (source.columnKind c).toOption := by decide
  exact ⟨⟨hm, hfits⟩,
    follows_streamed hm reachable_source wellTyped_source reachable_target hkinds edits hfits []⟩

end Doubled

end LiveTables
