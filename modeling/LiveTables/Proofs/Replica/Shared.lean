import LiveTables.Proofs.Replica.Alone
import LiveTables.Proofs.Table.Store

/-!
# Replicas on a table that others write too

While a replica applies changes to its table, others who hold the table may add, write and delete rows and register
columns in between (`Replica.Shared`). They may delete rows of the replica, which it is not told. So each of its
rows has a local row of its own that is live, or that others have deleted (`Replica.Shared.holds`), and the row stays
known.

A change fails if it is to write or delete such a row, or to write what the table does not take. Nothing is
committed then. But a deletion has forgotten its row before it comes to the table, and the row stays forgotten
(`Replica.Shared.left_by_refusal`).
-/

namespace LiveTables

/-! ### Rows over an edit -/

namespace Table

variable {t t' : Table} {events : List Event} {row : Nat}

/-- The row that an edit of a table deletes. -/
def removedBy (t : Table) : Edit → List Nat
  | .deleteRow row => if t.isLive row then [row] else []
  | _ => []

theorem mem_removedBy {e : Edit} : row ∈ t.removedBy e ↔ e = .deleteRow row ∧ row ∈ t.rows := by
  cases e with
  | addRow | setValue => simp [removedBy]
  | deleteRow gone =>
    rw [removedBy]
    split_ifs with hlive
    · simp only [List.mem_singleton, Edit.deleteRow.injEq]
      exact ⟨fun h => ⟨h.symm, mem_rows.2 (h ▸ hlive)⟩, fun h => h.1.symm⟩
    · simp only [List.not_mem_nil, Edit.deleteRow.injEq, false_iff, not_and]
      rintro rfl hrow
      exact hlive (mem_rows.1 hrow)

/-- A table never has fewer rows, live or not. -/
theorem Turns.size_le (h : t.Turns t' events) : t.live.size ≤ t'.live.size := by
  cases h with
  | refused | written => exact Nat.le_refl _
  | added =>
    show t.live.size ≤ (t.live.push true).size
    rw [Array.size_push]
    exact Nat.le_succ _
  | @removed row =>
    show t.live.size ≤ (t.live.setIfInBounds row false).size
    exact Nat.le_of_eq Array.size_setIfInBounds.symm

/-- A row that was deleted does not come back. -/
theorem Turns.mem_rows_of_lt (h : t.Turns t' events) (hlt : row < t.live.size) (hrow : row ∈ t'.rows) :
    row ∈ t.rows := by
  cases h with
  | refused => exact hrow
  | written => exact hrow
  | added => exact (mem_rows_addRow.1 hrow).resolve_right (Nat.ne_of_lt hlt)
  | removed => exact (mem_rows_remove.1 hrow).1

/-- A live row stays, unless the edit deletes it. -/
theorem mem_rows_perform {e : Edit} (h : t.WellFormed) (hrow : row ∈ t.rows) :
    row ∈ (t.perform e).1.rows ∨ row ∈ t.removedBy e := by
  cases e with
  | addRow => exact .inl (mem_rows_addRow.2 (.inl hrow))
  | setValue column r value =>
    rw [perform]
    rcases hset : t.setValue column r value with ⟨t', error | signals⟩
    · rw [h.setValue_of_error hset]
      exact .inl hrow
    · obtain ⟨-, -, -, rfl, -⟩ := setValue_eq_ok h hset
      exact .inl hrow
  | deleteRow r =>
    by_cases hr : r = row
    · exact .inr (mem_removedBy.2 ⟨congrArg _ hr, hrow⟩)
    · rw [perform]
      rcases hdelete : t.deleteRow r with ⟨t', error | signals⟩
      · rw [deleteRow_of_error hdelete]
        exact .inl hrow
      · obtain ⟨-, rfl, -⟩ := deleteRow_eq_ok hdelete
        exact .inl (mem_rows_remove.2 ⟨hrow, Ne.symm hr⟩)

theorem not_mem_rows_of_removedBy {e : Edit} (hrow : row ∈ t.removedBy e) : row ∉ (t.perform e).1.rows := by
  obtain ⟨rfl, hlive⟩ := mem_removedBy.1 hrow
  rw [perform, deleteRow_ok hlive]
  exact fun hmem => (mem_rows_remove.1 hmem).2 rfl

/-- A value is refused if its row is not live, or it is not of the kind of a stored column. -/
theorem WellFormed.exists_setValue_error_iff (h : t.WellFormed) {column : String} {value : Value} :
    (∃ error, (t.setValue column row value).2 = .error error) ↔
      row ∉ t.rows ∨ t.storedKind? column ≠ some value.kind := by
  constructor
  · rintro ⟨error, hset⟩
    by_contra hnot
    obtain ⟨hrow, hkind⟩ := not_or.1 hnot
    obtain ⟨signals, hok⟩ := setValue_ok h (not_not.1 hrow) (not_not.1 hkind)
    rw [hok] at hset
    cases hset
  · rintro hcause
    rcases hset : t.setValue column row value with ⟨t', error | signals⟩
    · exact ⟨error, rfl⟩
    · obtain ⟨hrow, -, hkind, -⟩ := setValue_eq_ok h hset
      exact hcause.elim (absurd hrow) (absurd hkind)

end Table

namespace Replica

variable {σ : Type} {host : TableHost σ} {s s' : σ} {gone : List Nat} {r r' : Replica} {t t' : Table}
  {remote row : Nat}

/-- What a new replica and its table come to while others who hold the table write it too, with the rows that the
others have deleted. -/
inductive Shared : List Nat → Replica → Table → Prop
  | start {t : Table} (before : t.Reachable) : Shared [] {} t
  | change {gone : List Nat} {r : Replica} {t : Table} (before : Shared gone r t) (signals : List Signal) (c : Change) :
    Shared gone (r.applyChange .alone (t, signals) c).2.1 (r.applyChange .alone (t, signals) c).1.1
  | edit {gone : List Nat} {r : Replica} {t : Table} (before : Shared gone r t) (e : Table.Edit) :
    Shared (gone ++ t.removedBy e) r (t.perform e).1
  | addComputed {gone : List Nat} {r : Replica} {t t' : Table} {column : ComputedColumn} (before : Shared gone r t)
      (done : t.addComputed column = (t', .ok ())) : Shared gone r t'

/-- Each remote row has a local row of its own, which is live if others have not deleted it. -/
structure Holds (gone : List Nat) (r : Replica) (t : Table) : Prop where
  formed : t.WellFormed
  remotes : (r.rows.map (·.1)).Nodup
  locals : (r.rows.map (·.2)).Nodup
  added : ∀ e ∈ r.rows, e.2 < t.live.size
  live : ∀ e ∈ r.rows, e.2 ∈ t.rows ∨ e.2 ∈ gone
  gone : ∀ row ∈ gone, row < t.live.size ∧ row ∉ t.rows

namespace Holds

/-- A table without new rows, in which rows of the replica stay. -/
theorem turns {events : List Event} (more : List Nat) (h : Holds gone r t) (hturns : t.Turns t' events)
    (hlive : ∀ e ∈ r.rows, e.2 ∈ t.rows → e.2 ∈ t'.rows ∨ e.2 ∈ more)
    (hmore : ∀ row ∈ more, row ∈ t.rows ∧ row ∉ t'.rows) : Holds (gone ++ more) r t' where
  formed := hturns.wellFormed h.formed
  remotes := h.remotes
  locals := h.locals
  added e he := Nat.lt_of_lt_of_le (h.added e he) hturns.size_le
  live e he := by
    rw [List.mem_append]
    rcases h.live e he with hrow | hgone
    · exact (hlive e he hrow).imp_right .inr
    · exact .inr (.inl hgone)
  gone row hrow := by
    rcases List.mem_append.1 hrow with hold | hnew
    · obtain ⟨hlt, hdead⟩ := h.gone row hold
      exact ⟨Nat.lt_of_lt_of_le hlt hturns.size_le, fun hmem => hdead (hturns.mem_rows_of_lt hlt hmem)⟩
    · obtain ⟨hrow, hdead⟩ := hmore row hnew
      exact ⟨Nat.lt_of_lt_of_le (Table.lt_of_mem_rows hrow) hturns.size_le, hdead⟩

/-- Others edit the table. -/
theorem edit (h : Holds gone r t) (e : Table.Edit) : Holds (gone ++ t.removedBy e) r (t.perform e).1 :=
  h.turns _ (Table.turns_perform h.formed e) (fun _ _ hrow => Table.mem_rows_perform h.formed hrow) fun _ hrow =>
    ⟨(Table.mem_removedBy.1 hrow).2, Table.not_mem_rows_of_removedBy hrow⟩

/-- The replica forgets a row. -/
theorem forget (h : Holds gone r t) (remote : Nat) : Holds gone { rows := r.rows.filter (·.1 ≠ remote) } t :=
  { h with
    remotes := h.remotes.sublist (List.filter_sublist.map _)
    locals := h.locals.sublist (List.filter_sublist.map _)
    added := fun e he => h.added e (List.mem_filter.1 he).1
    live := fun e he => h.live e (List.mem_filter.1 he).1 }

/-- The replica adds a row. -/
theorem addRow (h : Holds gone r t) (hrow : r.localRow? remote = none) :
    Holds gone { rows := (remote, t.live.size) :: r.rows } t.addRow.1 := by
  have hadded := h.turns [] .added (fun _ _ hrow => .inl (Table.mem_rows_addRow.2 (.inl hrow))) (by simp)
  rw [List.append_nil] at hadded
  refine { hadded with remotes := ?_, locals := ?_, added := ?_, live := ?_ }
  · exact List.nodup_cons.2 ⟨lookup_eq_none_iff_not_mem.1 hrow, h.remotes⟩
  · refine List.nodup_cons.2 ⟨fun hmem => ?_, h.locals⟩
    obtain ⟨e, he, heq⟩ := List.mem_map.1 hmem
    exact Nat.ne_of_lt (h.added e he) heq
  · refine List.forall_mem_cons.2 ⟨?_, hadded.added⟩
    exact Table.lt_of_mem_rows (Table.mem_rows_addRow.2 (.inr rfl))
  · exact List.forall_mem_cons.2 ⟨.inl (Table.mem_rows_addRow.2 (.inr rfl)), hadded.live⟩

/-- The replica deletes a live row. It is the local row of no other. -/
theorem delete (h : Holds gone r t) (hrow : r.localRow? remote = some row) (hlive : row ∈ t.rows) :
    Holds gone { rows := r.rows.filter (·.1 ≠ remote) } (t.remove row) := by
  have hmem : (remote, row) ∈ r.rows := mem_of_lookup_eq_some hrow
  have hother : ∀ e ∈ r.rows.filter (·.1 ≠ remote), e.2 ≠ row := by
    intro e he heq
    obtain ⟨he, hne⟩ := List.mem_filter.1 he
    have hsame : e = (remote, row) := List.inj_on_of_nodup_map h.locals he hmem heq
    simp [hsame] at hne
  have hremoved := (h.forget remote).turns [] (.removed hlive)
    (fun e he hrow => .inl (Table.mem_rows_remove.2 ⟨hrow, hother e he⟩)) (by simp)
  rwa [List.append_nil] at hremoved

/-- The replica applies a change, which may fail. -/
theorem applyChange (h : Holds gone r t) (signals : List Signal) (c : Change) :
    Holds gone (r.applyChange .alone (t, signals) c).2.1 (r.applyChange .alone (t, signals) c).1.1 := by
  rcases hrow : r.localRow? c.row with - | row
  · cases c with
    | add remote =>
      simp only [Replica.applyChange, add, show r.localRow? remote = none from hrow, TableHost.alone]
      exact h.addRow hrow
    | update remote column value =>
      simpa only [Replica.applyChange, update, show r.localRow? remote = none from hrow] using h
    | delete remote =>
      simpa only [Replica.applyChange, Replica.delete, show r.localRow? remote = none from hrow] using h
  · cases c with
    | add remote => simpa only [Replica.applyChange, add, show r.localRow? remote = some row from hrow] using h
    | update remote column value =>
      simp only [Replica.applyChange, update, show r.localRow? remote = some row from hrow, TableHost.alone]
      rcases hset : t.setValue column row value with ⟨t', error | written⟩
      · exact h
      · obtain ⟨hlive, -, hkind, rfl, -⟩ := Table.setValue_eq_ok h.formed hset
        have hwritten := h.turns [] (.written hlive hkind) (fun _ _ hrow => .inl hrow) (by simp)
        rwa [List.append_nil] at hwritten
    | delete remote =>
      simp only [Replica.applyChange, Replica.delete, show r.localRow? remote = some row from hrow, TableHost.alone]
      rcases hdelete : t.deleteRow row with ⟨t', error | deleted⟩
      · exact h.forget remote
      · obtain ⟨hlive, rfl, -⟩ := Table.deleteRow_eq_ok hdelete
        exact h.delete hrow hlive

end Holds

/-- Whoever writes the table, each remote row has a local row of its own, live or deleted by others. -/
theorem Shared.holds (h : Shared gone r t) : Holds gone r t := by
  induction h with
  | start before =>
    exact ⟨before.wellFormed, List.nodup_nil, List.nodup_nil, by simp, by simp, by simp⟩
  | change _ signals c ih => exact ih.applyChange signals c
  | edit _ e ih => exact ih.edit e
  | addComputed _ done ih =>
    obtain ⟨hformed, computed, rfl, -⟩ := ih.formed.addComputed done
    exact { ih with formed := hformed }

/-! ### Changes that fail -/

/-- A local row is live exactly if others have not deleted it. -/
theorem Holds.not_mem_rows_iff (h : Holds gone r t) (hrow : r.localRow? remote = some row) :
    row ∉ t.rows ↔ row ∈ gone :=
  ⟨fun hdead => (h.live _ (mem_of_lookup_eq_some hrow)).resolve_left hdead, fun hgone => (h.gone row hgone).2⟩

/-- An addition never fails. -/
theorem applyChange_add_ne_error {error : TableError} :
    r.applyChange host s (.add remote) ≠ (s', r', .error error) := by
  simp [Replica.applyChange]

/-- An update fails if the table refuses the value, and then nothing is committed. -/
theorem applyChange_update_eq_error_iff {column : String} {value : Value} {error : TableError} :
    r.applyChange host s (.update remote column value) = (s', r', .error error) ↔
      s' = s ∧ r' = r ∧
        ∃ row, r.localRow? remote = some row ∧ ((host.table s).setValue column row value).2 = .error error := by
  rcases hrow : r.localRow? remote with - | row
  · simp [Replica.applyChange, update, hrow]
  · rcases hset : (host.table s).setValue column row value with ⟨t, e | signals⟩
    · simp [Replica.applyChange, update, hrow, hset, eq_comm]
    · simp [Replica.applyChange, update, hrow, hset]

/-- A deletion fails if the local row is not live. Nothing is committed, but the row is forgotten. -/
theorem delete_eq_error_iff {error : TableError} :
    r.delete host s remote = (s', r', .error error) ↔
      s' = s ∧ ∃ row, r.localRow? remote = some row ∧ row ∉ (host.table s).rows ∧
        error = .rowNotFound (host.table s).name row ∧ r' = { rows := r.rows.filter (·.1 ≠ remote) } := by
  rcases hrow : r.localRow? remote with - | row
  · simp [delete, hrow]
  · by_cases hlive : row ∈ (host.table s).rows
    · simp [delete, hrow, Table.deleteRow_ok hlive, hlive]
    · simp only [delete, hrow, Table.deleteRow_of_dead hlive, Prod.mk.injEq, Except.error.injEq, Option.some.injEq,
        exists_eq_left', hlive, not_false_eq_true, true_and, eq_comm, and_comm]

/-- A change of a replica fails exactly if its row is known and others have deleted the local row, or a value is to
be written that the table does not take; an addition never fails. Where others have deleted the row, the error says
so. Nothing is committed then, so that the table is as it was and nothing is announced. Nor does the replica change,
unless it was to delete the row: this is forgotten, and no other, and to delete it once more does nothing. -/
theorem Shared.left_by_refusal (h : Shared gone r (host.table s)) (c : Change) :
    ((∃ s' r' error, r.applyChange host s c = (s', r', .error error)) ↔ c ≠ .add c.row ∧
      ∃ row, r.localRow? c.row = some row ∧ (row ∈ gone ∨ ¬ c.Suits (host.table s).storedKind?)) ∧
    ∀ s' r' error, r.applyChange host s c = (s', r', .error error) →
      s' = s ∧ (∀ row ∈ gone, r.localRow? c.row = some row → error = .rowNotFound (host.table s).name row) ∧
      (c ≠ .delete c.row → r' = r) ∧
      (c = .delete c.row → r' ≠ r ∧ r' = { rows := r.rows.filter (·.1 ≠ c.row) } ∧
        r'.delete host s c.row = (s, r', .ok false)) := by
  have hholds := h.holds
  cases c with
  | add remote =>
    refine ⟨⟨?_, fun hadd => absurd rfl hadd.1⟩, fun s' r' error hfails => absurd hfails applyChange_add_ne_error⟩
    rintro ⟨s', r', error, hfails⟩
    exact absurd hfails applyChange_add_ne_error
  | update remote column value =>
    simp only [applyChange_update_eq_error_iff]
    refine ⟨⟨?_, ?_⟩, ?_⟩
    · rintro ⟨s', r', error, -, -, row, hrow, hset⟩
      refine ⟨by simp, row, hrow, ?_⟩
      rw [← hholds.not_mem_rows_iff hrow]
      exact hholds.formed.exists_setValue_error_iff.1 ⟨error, hset⟩
    · rintro ⟨-, row, hrow, hcause⟩
      rw [← hholds.not_mem_rows_iff hrow] at hcause
      obtain ⟨error, hset⟩ := hholds.formed.exists_setValue_error_iff.2 hcause
      exact ⟨s, r, error, rfl, rfl, row, hrow, hset⟩
    · rintro s' r' error ⟨rfl, rfl, row, hrow, hset⟩
      refine ⟨rfl, fun row' hgone hrow' => ?_, fun _ => rfl, by simp⟩
      obtain rfl := Option.some.inj (hrow.symm.trans hrow')
      rw [Table.setValue_of_dead (hholds.gone row hgone).2] at hset
      exact (Except.error.inj hset).symm
  | delete remote =>
    have hsuits : (Change.delete remote).Suits (host.table s).storedKind? := trivial
    simp only [Replica.applyChange, delete_eq_error_iff, Change.row, hsuits, not_true_eq_false, or_false]
    refine ⟨⟨?_, ?_⟩, ?_⟩
    · rintro ⟨s', r', error, -, row, hrow, hdead, -⟩
      exact ⟨by simp, row, hrow, (hholds.not_mem_rows_iff hrow).1 hdead⟩
    · rintro ⟨-, row, hrow, hgone⟩
      exact ⟨s, _, _, rfl, row, hrow, (hholds.gone row hgone).2, rfl, rfl⟩
    · rintro s' r' error ⟨rfl, row, hrow, -, rfl, rfl⟩
      have hforgotten : localRow? { rows := r.rows.filter (·.1 ≠ remote) } remote = none := by
        rw [localRow?, lookup_filter_ne, if_pos rfl]
      refine ⟨rfl, fun row' _ hrow' => ?_, by simp, fun _ => ⟨fun heq => ?_, rfl, ?_⟩⟩
      · rw [Option.some.inj (hrow.symm.trans hrow')]
      · rw [heq, hrow] at hforgotten
        cases hforgotten
      · simp only [delete, hforgotten]

/-! A replica with two rows, of which one was deleted by others. -/

namespace Contested

/-- The replica and the table once the row is deleted, and all that was announced. -/
def state : (Table × List Signal) × Replica :=
  let added := ({} : Replica).applyChange .alone (Paired.start, []) (.add 4)
  let added := added.2.1.applyChange .alone added.1 (.add 7)
  let removed := added.1.1.perform (.deleteRow 1)
  ((removed.1, added.1.2 ++ removed.2), added.2.1)

theorem shared : Shared [1] state.2 state.1.1 := by
  have hstart : Shared [] {} Paired.start := .start (.perform (.ofSchema Paired.schema) .addRow)
  have hadded := (hstart.change [] (.add 4)).change [.event (.added 1)] (.add 7)
  exact hadded.edit (.deleteRow 1)

/-- To delete the row fails, and forgets it. To write a text to an integer column of the other row fails, and
changes nothing. -/
theorem left_by_refusal_contested :
    let (s, r) := state
    let forgotten : Replica := { rows := [(7, 2)] }
    Shared [1] r s.1 ∧
      r.applyChange .alone s (.delete 4) = (s, forgotten, .error (.rowNotFound "t" 1)) ∧
      forgotten ≠ r ∧ forgotten.delete .alone s 4 = (s, forgotten, .ok false) ∧
      ∃ s' r' error, r.applyChange .alone s (.update 7 "a" (.string "x")) = (s', r', .error error) ∧ s' = s ∧ r' = r := by
  have halone : Shared [1] state.2 (TableHost.alone.table state.1) := shared
  obtain ⟨hdelete, hfails⟩ := Shared.left_by_refusal halone (.delete 4)
  obtain ⟨hupdate, hrefused⟩ := Shared.left_by_refusal halone (.update 7 "a" (.string "x"))
  obtain ⟨s₁, r₁, error₁, hdelete⟩ := hdelete.2 ⟨by decide, 1, by decide, .inl (by simp)⟩
  obtain ⟨s₂, r₂, error₂, hupdate⟩ := hupdate.2 ⟨by decide, 2, by decide, .inr (by decide)⟩
  obtain ⟨rfl, herror, -, hforgets⟩ := hfails s₁ r₁ error₁ hdelete
  obtain ⟨hs, -, hkeeps, -⟩ := hrefused s₂ r₂ error₂ hupdate
  obtain ⟨hne, rfl, hagain⟩ := hforgets rfl
  obtain rfl := herror 1 (by simp) (by decide)
  exact ⟨shared, hdelete, hne, hagain, s₂, r₂, error₂, hupdate, hs, hkeeps (by decide)⟩

/-- The row is known, to delete it fails, and it is forgotten: a replica whose change fails is not as it was. -/
theorem not_kept_by_refusal :
    ¬ ∀ (gone : List Nat) (r r' : Replica) (t : Table) (signals : List Signal) (c : Change) (s' : Table × List Signal)
      (error : TableError), Shared gone r t → r.applyChange .alone (t, signals) c = (s', r', .error error) →
        s' = (t, signals) ∧ r' = r := by
  intro h
  have hkept := (h [1] state.2 _ state.1.1 state.1.2 (.delete 4) _ (.rowNotFound "t" 1) shared rfl).2
  exact absurd hkept (by decide)

end Contested

end Replica

end LiveTables
