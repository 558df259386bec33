import LiveTables.Proofs.Replica.Drained
import LiveTables.Proofs.Replica.Piped
import LiveTables.Replica.Applier

/-!
# Streams from anywhere

An applier may be given records that no encoder wrote: of rows that were never added, with fields that are not
mapped or hold what fits no column, in any order. A record comes to some changes of its own row that can be
written, and to nothing else (`Applier.Outcome`, `Applier.outcome_apply`). So, where nobody else writes the
table, no record fails, the rows that were added and not deleted are paired one to one with live rows that were
not there before, the rows that were there before stay, and all cells are of the kinds of their columns
(`Applier.Reachable.apply_any`).
-/

namespace LiveTables

variable {σ : Type} {host : TableHost σ} {s : σ} {base t t' : Table} {fields : FieldMap} {a : Applier}
  {r : Replica} {i : Image} {records : List Record} {remote row : Nat}

/-- What is committed to a host is the table that it has then, whoever listens. -/
def TableHost.Keeps (host : TableHost σ) : Prop := ∀ s t signals, host.table (host.commit s t signals) = t

theorem TableHost.keeps_alone : TableHost.alone.Keeps := fun _ _ _ => rfl

/-! ### Replicas on any host -/

namespace Replica

/-- An addition, on any host. -/
theorem add_eq_after (hkeeps : host.Keeps) (r : Replica) (remote : Nat) :
    after (r, host.table s) (.add remote) = ((r.add host s remote).2.1, host.table (r.add host s remote).1) := by
  rcases hrow : r.localRow? remote with - | row
  · rw [after_add_of_none hrow]
    simp only [add, hrow]
    rw [hkeeps s _ _]
    rfl
  · rw [after_add_of_some hrow]
    simp only [add, hrow]

/-- A deletion, on any host. It cannot fail, since the local rows of the replica are live. -/
theorem Mirrors.delete_eq_after (h : Mirrors base i r (host.table s)) (hkeeps : host.Keeps) (remote : Nat) :
    ∃ s' r' hit, r.delete host s remote = (s', r', .ok hit) ∧
      Replica.after (r, host.table s) (.delete remote) = (r', host.table s') := by
  rcases hrow : r.localRow? remote with - | row
  · refine ⟨s, r, false, ?_, after_delete_of_none hrow⟩
    simp only [delete, hrow]
  · have hdelete := Table.deleteRow_ok (h.mem_rows hrow)
    refine ⟨host.commit s ((host.table s).remove row) [.event (.deleted row)],
      { rows := r.rows.filter (·.1 ≠ remote) }, true, ?_, ?_⟩
    · simp only [delete, hrow, hdelete]
    · rw [after_delete_of_some hrow, hkeeps s _ _]

/-- The table never has fewer rows, live or not. -/
theorem size_le_after (r : Replica) (t : Table) (c : Change) : t.live.size ≤ (after (r, t) c).2.live.size := by
  cases c <;> simp only [after] <;> split <;> simp [Table.addRow, Table.write, Table.remove]

/-- A local row is one that there was, or the one that is new. -/
theorem of_mem_after {c : Change} {e : Nat × Nat} (he : e ∈ (after (r, t) c).1.rows) :
    e ∈ r.rows ∨ e.2 = t.live.size := by
  cases c with
  | add remote =>
    rcases hrow : r.localRow? remote with - | row
    · rw [after_add_of_none hrow] at he
      exact (List.mem_cons.1 he).elim (fun heq => .inr (heq ▸ rfl)) .inl
    · rw [after_add_of_some hrow] at he
      exact .inl he
  | update remote column value =>
    rw [fst_after_update] at he
    exact .inl he
  | delete remote =>
    rcases hrow : r.localRow? remote with - | row
    · rw [after_delete_of_none hrow] at he
      exact .inl he
    · rw [after_delete_of_some hrow] at he
      exact .inl (List.mem_filter.1 he).1

/-- A change leaves all rows but the local row of its own, and but the one that is new. -/
theorem Mirrors.after_spares (h : Mirrors base i r t) {c : Change} (hnew : row ≠ t.live.size)
    (hother : r.localRow? c.row ≠ some row) :
    (row ∈ (Replica.after (r, t) c).2.rows ↔ row ∈ t.rows) ∧
      ∀ id, (Replica.after (r, t) c).2.get id row = t.get id row := by
  cases c with
  | add remote =>
    rcases hrow : r.localRow? remote with - | row'
    · rw [after_add_of_none hrow, Table.mem_rows_addRow, or_iff_left hnew]
      exact ⟨Iff.rfl, h.formed.get_addRow hnew⟩
    · rw [after_add_of_some hrow]
      exact ⟨Iff.rfl, fun _ => rfl⟩
  | update remote column value =>
    rcases hrow : r.localRow? remote with - | row'
    · rw [after_update_of_none hrow]
      exact ⟨Iff.rfl, fun _ => rfl⟩
    · have hne : row ≠ row' := fun heq => hother (heq ▸ hrow)
      rw [after_update_of_some hrow, Table.rows_write]
      exact ⟨Iff.rfl, Table.get_write_of_ne hne⟩
  | delete remote =>
    rcases hrow : r.localRow? remote with - | row'
    · rw [after_delete_of_none hrow]
      exact ⟨Iff.rfl, fun _ => rfl⟩
    · have hne : row ≠ row' := fun heq => hother (heq ▸ hrow)
      rw [after_delete_of_some hrow, Table.mem_rows_remove, and_iff_left hne]
      exact ⟨Iff.rfl, Table.get_remove hne⟩

/-- Changes of one remote row leave all rows of the table but its local row. -/
theorem Mirrors.foldl_after_spares {changes : List Change} (h : Mirrors base i r t)
    (hsuits : ∀ c ∈ changes, c.Suits base.storedKind?) (hrows : ∀ c ∈ changes, c.row = remote)
    (hlt : row < t.live.size) (hother : r.localRow? remote ≠ some row) :
    (row ∈ (changes.foldl Replica.after (r, t)).2.rows ↔ row ∈ t.rows) ∧
      ∀ id, (changes.foldl Replica.after (r, t)).2.get id row = t.get id row := by
  induction changes generalizing i r t with
  | nil => exact ⟨Iff.rfl, fun _ => rfl⟩
  | cons c changes ih =>
    obtain ⟨hsuit, hsuits⟩ := List.forall_mem_cons.1 hsuits
    obtain ⟨rfl, hrows⟩ := List.forall_mem_cons.1 hrows
    have hfirst := h.after_spares (Nat.ne_of_lt hlt) hother
    -- the local row is none of the old rows: it is the one that there was, or the one that is new
    have hother' : (Replica.after (r, t) c).1.localRow? c.row ≠ some row := by
      intro hrow
      rcases of_mem_after (mem_of_lookup_eq_some hrow) with hmem | heq
      · exact hother ((lookup_eq_some_iff_mem h.remotes).2 hmem)
      · exact Nat.ne_of_lt hlt heq
    have hrest := ih (h.after hsuit) hsuits hrows (Nat.lt_of_lt_of_le hlt (size_le_after r t c)) hother'
    exact ⟨hrest.1.trans hfirst.1, fun id => (hrest.2 id).trans (hfirst.2 id)⟩

end Replica

namespace Record

/-- A remote row that records leave: one of them adds it, and no later one deletes it. -/
def Leaves (records : List Record) (remote : Nat) : Prop :=
  ∃ before added after, records = before ++ added :: after ∧ added.action = .add ∧ added.row = remote ∧
    ∀ d ∈ after, d.action = .delete → d.row ≠ remote

theorem not_leaves_nil : ¬ Leaves [] remote := by
  rintro ⟨before, added, after, heq, -⟩
  simp at heq

/-- What one record more does to the rows that are left. -/
theorem leaves_concat {record : Record} : Leaves (records ++ [record]) remote ↔
    record.row = remote ∧ record.action = .add ∨
      Leaves records remote ∧ ¬ (record.action = .delete ∧ record.row = remote) := by
  constructor
  · rintro ⟨before, added, after, heq, hadd, hrow, hafter⟩
    rcases List.eq_nil_or_concat after with rfl | ⟨after, last, rfl⟩
    · obtain ⟨-, hsame⟩ := List.append_inj' heq rfl
      obtain rfl := List.singleton_injective hsame
      exact .inl ⟨hrow, hadd⟩
    · have hlast : last ∈ after.concat last := by simp
      have hsplit : records ++ [record] = (before ++ added :: after) ++ [last] := by simpa using heq
      obtain ⟨rfl, hsame⟩ := List.append_inj' hsplit rfl
      obtain rfl := List.singleton_injective hsame
      refine .inr ⟨⟨before, added, after, rfl, hadd, hrow, fun d hd => hafter d ?_⟩, ?_⟩
      · simp [hd]
      · rintro ⟨hdelete, hgone⟩
        exact hafter record hlast hdelete hgone
  · rintro (⟨hrow, hadd⟩ | ⟨⟨before, added, after, rfl, hadd, hrow, hafter⟩, hkeep⟩)
    · exact ⟨records, record, [], rfl, hadd, hrow, by simp⟩
    · refine ⟨before, added, after ++ [record], by simp, hadd, hrow, fun d hd hdelete => ?_⟩
      rcases List.mem_append.1 hd with hd | hd
      · exact hafter d hd hdelete
      · obtain rfl := List.mem_singleton.1 hd
        exact fun hgone => hkeep ⟨hdelete, hgone⟩

end Record

namespace Applier

/-! ### What a record comes to -/

/-- The changes that a record may come to, by its action. -/
def Outcome (record : Record) (changes : List Change) : Prop :=
  match record.action with
  | .add => changes = [.add record.row]
  | .delete => changes = [.delete record.row]
  | .update => ∀ c ∈ changes, ∃ column value, c = .update record.row column value

/-- A write of a field is a change that can be written, or none. -/
theorem outcome_writeField (hkeeps : host.Keeps) (h : (host.table s).WellFormed) (remote : Nat)
    (field : Nat × Wire.Payload) :
    ∃ changes : List Change, (∀ c ∈ changes, (∃ column value, c = .update remote column value) ∧
        c.Suits (host.table s).storedKind?) ∧
      changes.foldl Replica.after (a.replica, host.table s) =
        (a.replica, host.table (a.writeField host remote s field).1) := by
  rcases hread : a.read? (host.table s) field with - | ⟨column, value⟩
  · refine ⟨[], by simp, ?_⟩
    simp only [writeField, hread, List.foldl_nil]
  rcases hrow : a.replica.localRow? remote with - | row
  · refine ⟨[], by simp, ?_⟩
    simp only [writeField, hread, Replica.update, hrow, List.foldl_nil]
  rcases hset : (host.table s).setValue column row value with ⟨t', e | signals⟩
  · refine ⟨[], by simp, ?_⟩
    simp only [writeField, hread, Replica.update, hrow, hset, List.foldl_nil]
  · -- what the table takes is a value of the kind of a stored column
    obtain ⟨-, -, hkind, rfl, -⟩ := Table.setValue_eq_ok h hset
    refine ⟨[.update remote column value], ?_, ?_⟩
    · intro c hc
      obtain rfl := List.mem_singleton.1 hc
      exact ⟨⟨column, value, rfl⟩, hkind⟩
    · rw [List.foldl_cons, List.foldl_nil, Replica.after_update_of_some hrow]
      simp only [writeField, hread, Replica.update, hrow, hset]
      rw [hkeeps s _ signals]

/-- Fields come to changes that can be written, one after the other. -/
theorem outcome_writeFields (hkeeps : host.Keeps) (h : Replica.Mirrors base i a.replica (host.table s)) (remote : Nat)
    (fields : List (Nat × Wire.Payload)) :
    ∃ changes : List Change, (∀ c ∈ changes, (∃ column value, c = .update remote column value) ∧
        c.Suits base.storedKind?) ∧
      changes.foldl Replica.after (a.replica, host.table s) =
        (a.replica, host.table (a.writeFields host remote s fields).1) := by
  induction fields generalizing i s with
  | nil => exact ⟨[], by simp, rfl⟩
  | cons field fields ih =>
    obtain ⟨first, hfirst, hone⟩ := outcome_writeField hkeeps h.formed remote field
    rw [h.alike.storedKind?] at hfirst
    have hafter := h.foldl_after fun c hc => (hfirst c hc).2
    rw [hone] at hafter
    obtain ⟨rest, hrest, hall⟩ := ih hafter
    refine ⟨first ++ rest, fun c hc => (List.mem_append.1 hc).elim (hfirst c) (hrest c), ?_⟩
    rw [List.foldl_append, hone, hall]
    congr 2
    simp only [writeFields]
    split <;> rfl

/-- A record is applied without an error. It comes to changes of its row that can be written. -/
theorem outcome_apply (hkeeps : host.Keeps) (h : Replica.Mirrors base i a.replica (host.table s)) (record : Record) :
    ∃ s' r' done changes, a.apply host s record = (s', { a with replica := r' }, .ok done) ∧
      Outcome record changes ∧ (∀ c ∈ changes, c.Suits base.storedKind?) ∧
      changes.foldl Replica.after (a.replica, host.table s) = (r', host.table s') := by
  rcases haction : record.action with _ | _ | _
  · -- an addition
    have hadd := Replica.add_eq_after hkeeps a.replica record.row (s := s)
    rcases heq : a.replica.add host s record.row with ⟨s', r', row⟩
    rw [heq] at hadd
    refine ⟨s', r', { localRow? := some row, skipped := record.skipped + record.fields.length },
      [.add record.row], ?_, by simp [Outcome, haction], ?_, hadd⟩
    · simp only [apply, haction, heq]
    · intro c hc
      obtain rfl := List.mem_singleton.1 hc
      trivial
  · -- an update
    obtain ⟨changes, hchanges, hall⟩ := outcome_writeFields hkeeps h record.row record.fields
    rcases hrow : a.replica.localRow? record.row with - | row
    · refine ⟨s, a.replica, { skipped := record.skipped + record.fields.length }, [], ?_,
        by simp [Outcome, haction], by simp, rfl⟩
      simp only [apply, haction, hrow]
    · rcases heq : a.writeFields host record.row s record.fields with ⟨s', applied, skipped⟩
      rw [heq] at hall
      refine ⟨s', a.replica, { localRow? := some row, applied, skipped := record.skipped + skipped }, changes, ?_,
        ?_, fun c hc => (hchanges c hc).2, hall⟩
      · simp only [apply, haction, hrow, heq]
      · simp only [Outcome, haction]
        exact fun c hc => (hchanges c hc).1
  · -- a deletion
    obtain ⟨s', r', hit, heq, hdelete⟩ := h.delete_eq_after hkeeps record.row
    refine ⟨s', r', { localRow? := a.replica.localRow? record.row }, [.delete record.row], ?_,
      by simp [Outcome, haction], ?_, hdelete⟩
    · simp only [apply, haction, heq]
      rfl
    · intro c hc
      obtain rfl := List.mem_singleton.1 hc
      trivial

end Applier

/-! ### Rows that were there before -/

namespace Replica

/-- A replica that has rows of its own in a table, and has left the rows and the columns that `base` had. -/
structure Guards (base : Table) (r : Replica) (t : Table) : Prop where
  mirrors : Mirrors t (r.image t) r t
  own : ∀ e ∈ r.rows, base.live.size ≤ e.2
  size_le : base.live.size ≤ t.live.size
  rows : ∀ row < base.live.size, (row ∈ t.rows ↔ row ∈ base.rows)
  columns : ∀ id k, base.columnKind id = .ok k → t.columnKind id = .ok k
  cells : ∀ row < base.live.size, ∀ id k, base.columnKind id = .ok k → t.get id row = base.get id row

theorem guards_empty (h : t.WellFormed) : Guards t {} t where
  mirrors := mirrors_empty h
  own := by simp
  size_le := Nat.le_refl _
  rows _ _ := Iff.rfl
  columns _ _ hk := hk
  cells _ _ _ _ _ := rfl

namespace Guards

variable (h : Guards base r t)

include h

/-- A change that can be written leaves the old rows. -/
theorem after {c : Change} (hc : c.Suits t.storedKind?) :
    Guards base (Replica.after (r, t) c).1 (Replica.after (r, t) c).2 := by
  have hmirrors := h.mirrors.after hc
  have hspares (old : Nat) (hold : old < base.live.size) :
      (old ∈ (Replica.after (r, t) c).2.rows ↔ old ∈ t.rows) ∧
        ∀ id, (Replica.after (r, t) c).2.get id old = t.get id old := by
    refine h.mirrors.after_spares ?_ fun hrow => ?_
    · have := h.size_le
      omega
    · have hown : base.live.size ≤ old := h.own _ (mem_of_lookup_eq_some hrow)
      omega
  refine ⟨hmirrors.rebase, fun e he => ?_, Nat.le_trans h.size_le (size_le_after r t c),
    fun old hold => (hspares old hold).1.trans (h.rows old hold), fun id k hk => ?_,
    fun old hold id k hk => ((hspares old hold).2 id).trans (h.cells old hold id k hk)⟩
  · rcases of_mem_after he with he | heq
    · exact h.own e he
    · exact heq ▸ h.size_le
  · have hsame : ((Replica.after (r, t) c).2.columnKind id).toOption = (t.columnKind id).toOption :=
      hmirrors.alike.columnKind h.mirrors.formed hmirrors.formed
    rw [h.columns id k hk] at hsame
    exact Except.eq_ok_of_toOption hsame

/-- Changes that can be written leave the old rows. -/
theorem foldl_after {changes : List Change} (hall : ∀ c ∈ changes, c.Suits t.storedKind?) :
    Guards base (changes.foldl Replica.after (r, t)).1 (changes.foldl Replica.after (r, t)).2 := by
  induction changes generalizing r t with
  | nil => exact h
  | cons first changes ih =>
    obtain ⟨hfirst, hrest⟩ := List.forall_mem_cons.1 hall
    have hkinds := (h.mirrors.after hfirst).alike.storedKind?
    refine ih (h.after hfirst) fun c hc => ?_
    show c.Suits (Replica.after (r, t) first).2.storedKind?
    rw [hkinds]
    exact hrest c hc

/-- A column is registered. -/
theorem addComputed {column : ComputedColumn} (hadd : t.addComputed column = (t', .ok ())) : Guards base r t' := by
  have hmirrors := h.mirrors.addComputed hadd
  obtain ⟨hformed, computed, rfl, hcons⟩ := h.mirrors.formed.addComputed hadd
  -- what had a kind before is not the new column
  have hne (id : String) (k : Kind) (hk : base.columnKind id = .ok k) : id ≠ column.id := by
    have hknown : t.computed.kind? t.storedKind? id = some k :=
      h.mirrors.formed.columnKind_eq_ok.1 (h.columns id k hk)
    refine hformed.layered.ne_of_known (c := t.computed) hcons fun hnone => ?_
    exact absurd (hknown.symm.trans hnone) (by simp)
  refine { h with mirrors := hmirrors, columns := fun id k hk => ?_, cells := fun row hrow id k hk => ?_ }
  · exact h.mirrors.formed.columnKind_addComputed hadd (h.columns id k hk)
  · rw [← h.cells row hrow id k hk]
    unfold Table.get
    rw [Computed.read_of_cons hcons (hne id k hk)]
    rfl

end Guards

end Replica

/-! ### Records one after the other -/

namespace Applier

/-- What a new applier and its table come to with some records, where nobody else writes the table. Columns may
be registered all the while, and others may listen. -/
inductive Reachable (base : Table) (fields : FieldMap) : List Record → Applier → Table → Prop
  | start : Reachable base fields [] { fields } base
  | apply {records : List Record} {a : Applier} {σ : Type} {host : TableHost σ} {s : σ}
      (before : Reachable base fields records a (host.table s)) (hkeeps : host.Keeps) (record : Record) :
      Reachable base fields (records ++ [record]) (a.apply host s record).2.1
        (host.table (a.apply host s record).1)
  | addComputed {records : List Record} {a : Applier} {t t' : Table} {column : ComputedColumn}
      (before : Reachable base fields records a t) (done : t.addComputed column = (t', .ok ())) :
      Reachable base fields records a t'

/-- Which remote rows have local ones after a record. -/
theorem localRow?_of_outcome {record : Record} {changes : List Change} (hchanges : Outcome record changes) :
    (changes.foldl Replica.after (r, t)).1.localRow? remote ≠ none ↔
      record.row = remote ∧ record.action = .add ∨
        r.localRow? remote ≠ none ∧ ¬ (record.action = .delete ∧ record.row = remote) := by
  rcases haction : record.action with _ | _ | _
  · -- an addition
    obtain rfl : changes = [.add record.row] := by simpa [Outcome, haction] using hchanges
    by_cases hremote : record.row = remote
    · rcases hrow : r.localRow? remote with - | row
      · simp [hremote, Replica.after_add_of_none hrow, Replica.localRow?, lookup_cons]
      · simp [hremote, Replica.after_add_of_some hrow, hrow]
    · have hsame := Replica.localRow?_after (r, t) (c := .add record.row) hremote
      simp [hremote, hsame]
  · -- an update
    have hupdates : ∀ c ∈ changes, ∃ column value, c = .update record.row column value := by
      simpa [Outcome, haction] using hchanges
    have hsame : (changes.foldl Replica.after (r, t)).1 = r := by
      refine List.foldlRecOn (motive := fun s => s.1 = r) changes Replica.after (b := (r, t)) rfl fun s hs c hc => ?_
      obtain ⟨column, value, rfl⟩ := hupdates c hc
      rw [Replica.fst_after_update, hs]
    simp [hsame]
  · -- a deletion
    obtain rfl : changes = [.delete record.row] := by simpa [Outcome, haction] using hchanges
    by_cases hremote : record.row = remote
    · rcases hrow : r.localRow? remote with - | row
      · simp [hremote, Replica.after_delete_of_none hrow, hrow]
      · simp [hremote, Replica.after_delete_of_some hrow, Replica.localRow?]
    · have hsame := Replica.localRow?_after (r, t) (c := .delete record.row) hremote
      simp [hremote, hsame]

/-- The changes of a record are changes of its row. -/
theorem Outcome.row_eq {record : Record} {changes : List Change} (hchanges : Outcome record changes) :
    ∀ c ∈ changes, c.row = record.row := by
  intro c hc
  unfold Outcome at hchanges
  split at hchanges
  · obtain rfl := List.mem_singleton.1 (hchanges ▸ hc)
    rfl
  · obtain rfl := List.mem_singleton.1 (hchanges ▸ hc)
    rfl
  · obtain ⟨column, value, rfl⟩ := hchanges c hc
    rfl

/-- An applier guards what was there before, and has the remote rows that the records leave. -/
theorem Reachable.guards (hbase : base.WellFormed) (h : Reachable base fields records a t) :
    Replica.Guards base a.replica t ∧ ∀ remote, a.replica.localRow? remote ≠ none ↔ Record.Leaves records remote := by
  induction h with
  | start => exact ⟨Replica.guards_empty hbase, fun remote => by simp [Replica.localRow?, Record.not_leaves_nil]⟩
  | @apply records a σ host s before hkeeps record ih =>
    obtain ⟨hguards, hrows⟩ := ih
    obtain ⟨s', r', done, changes, happly, houtcome, hsuits, hafter⟩ :=
      outcome_apply hkeeps hguards.mirrors record
    have hnext := hguards.foldl_after hsuits
    have hlocal (remote : Nat) :
        (changes.foldl Replica.after (a.replica, host.table s)).1.localRow? remote ≠ none ↔
          record.row = remote ∧ record.action = .add ∨
            a.replica.localRow? remote ≠ none ∧ ¬ (record.action = .delete ∧ record.row = remote) :=
      localRow?_of_outcome houtcome
    rw [hafter] at hnext hlocal
    rw [happly]
    refine ⟨hnext, fun remote => ?_⟩
    rw [hlocal, Record.leaves_concat, hrows]
  | addComputed _ hadd ih => exact ⟨ih.1.addComputed hadd, ih.2⟩

/-- Records may be applied in one go. -/
theorem Reachable.applyAll (h : Reachable base fields records a (host.table s)) (hkeeps : host.Keeps)
    (more : List Record) :
    Reachable base fields (records ++ more) (a.applyAll host s more).2.1 (host.table (a.applyAll host s more).1) := by
  induction more generalizing records a s with
  | nil =>
    rw [List.append_nil]
    exact h
  | cons record more ih =>
    have hnext := ih (h.apply hkeeps record)
    rw [List.append_assoc] at hnext
    exact hnext

/-- Whatever records come to an applier of a table that nobody else writes: a record is never refused, and leaves
all rows but its own; the remote rows that have a local one are those that were added and not deleted since, each
with a live row of its own that was not there at the start; the rows that were there, and the columns, stay; and
what is read from a cell is of the kind of its column, where every stored cell of a live row can be read. -/
theorem Reachable.apply_any (hbase : base.Reachable) (h : Reachable base fields records a t) :
    (∀ (σ : Type) (host : TableHost σ) (s : σ) (record : Record), host.Keeps → host.table s = t →
      ∃ s' r' done, a.apply host s record = (s', { a with replica := r' }, .ok done) ∧
        ∀ row < t.live.size, a.replica.localRow? record.row ≠ some row →
          (row ∈ (host.table s').rows ↔ row ∈ t.rows) ∧ ∀ id, (host.table s').get id row = t.get id row) ∧
    (∀ remote, a.replica.localRow? remote ≠ none ↔ Record.Leaves records remote) ∧
    (∀ remote row, a.replica.localRow? remote = some row → row ∈ t.rows ∧ base.live.size ≤ row ∧
      ∀ other, a.replica.localRow? other = some row → other = remote) ∧
    (∀ row < base.live.size, (row ∈ t.rows ↔ row ∈ base.rows) ∧
      ∀ id k, base.columnKind id = .ok k → t.columnKind id = .ok k ∧ t.get id row = base.get id row) ∧
    (∀ id row v, t.get id row = .ok v → t.columnKind id = .ok v.kind) ∧
    ∀ row ∈ t.rows, ∀ id k, t.storedKind? id = some k → ∃ v, t.get id row = .ok v ∧ v.kind = k := by
  obtain ⟨hguards, hrows⟩ := h.guards hbase.wellFormed
  have hmirrors := hguards.mirrors
  refine ⟨?_, hrows, fun remote row hrow => ⟨hmirrors.mem_rows hrow, ?_, fun other hother => ?_⟩,
    fun row hrow => ⟨hguards.rows row hrow, fun id k hk => ⟨hguards.columns id k hk, hguards.cells row hrow id k hk⟩⟩,
    fun id row v => hmirrors.formed.columnKind_of_get, fun row hrow id k hk => ?_⟩
  · rintro σ host s record hkeeps rfl
    obtain ⟨s', r', done, changes, happly, houtcome, hsuits, hafter⟩ := outcome_apply hkeeps hmirrors record
    refine ⟨s', r', done, happly, fun row hlt hother => ?_⟩
    have hspares := hmirrors.foldl_after_spares hsuits (Outcome.row_eq houtcome) hlt hother
    rwa [hafter] at hspares
  · exact hguards.own _ (mem_of_lookup_eq_some hrow)
  · by_contra hne
    exact hmirrors.local_ne hrow hother hne rfl
  · rw [hmirrors.formed.get_stored hrow (by simp [hk])]
    exact hmirrors.formed.stored_ok hrow hk

/-- A row is updated before it was added, then added twice and written, with fields that fit no column, fit a
computed column, or are not mapped; another row is deleted that never was, and one is added and deleted. -/
theorem Reachable.apply_any_mixed :
    let m : FieldMap := ⟨[("a", 1), ("p", 2), ("z", 3)], [(1, "a"), (2, "p"), (3, "z")]⟩
    let fields : List (Nat × Wire.Payload) :=
      [(1, .varint 4), (1, .bytes [7]), (2, .varint 2), (3, .fixed32 0), (9, .varint 1)]
    let records : List Record :=
      [⟨.update, 4, fields, 1⟩, ⟨.add, 4, fields, 0⟩, ⟨.add, 4, [], 0⟩, ⟨.update, 4, fields, 0⟩,
        ⟨.delete, 8, [], 0⟩, ⟨.add, 6, [], 0⟩, ⟨.delete, 6, [], 0⟩]
    let now := Applier.applyAll .alone (Doubled.source, []) { fields := m } records
    now.2.1.replica.rows = [(4, 1)] ∧ now.1.1.stored 1 "a" = .ok (.int32 2) ∧
      Reachable Doubled.source m records now.2.1 now.1.1 ∧
      (∃ s' r' done,
        now.2.1.apply .alone now.1 ⟨.delete, 4, fields, 2⟩ = (s', { now.2.1 with replica := r' }, .ok done)) ∧
      Record.Leaves records 4 ∧ ¬ Record.Leaves records 6 ∧ now.1.1.get "p" 0 = Doubled.source.get "p" 0 := by
  intro m fields records now
  have hreach : Reachable Doubled.source m ([] ++ records) now.2.1 now.1.1 :=
    Reachable.applyAll (s := (Doubled.source, [])) .start TableHost.keeps_alone records
  obtain ⟨happly, hleaves, -, hkept, -, -⟩ := Reachable.apply_any Doubled.reachable_source hreach
  obtain ⟨s', r', done, hdone, -⟩ := happly _ .alone now.1 ⟨.delete, 4, fields, 2⟩ TableHost.keeps_alone rfl
  have hrows : now.2.1.replica.rows = [(4, 1)] := by decide +kernel
  refine ⟨hrows, by decide +kernel, hreach, ⟨s', r', done, hdone⟩, ?_, fun hsix => ?_, ?_⟩
  · refine (hleaves 4).1 ?_
    rw [Replica.localRow?, hrows]
    decide
  · have hlocal := (hleaves 6).2 hsix
    rw [Replica.localRow?, hrows] at hlocal
    exact hlocal rfl
  · exact ((hkept 0 (by decide)).2 "p" .int32 rfl).2

end Applier

end LiveTables
