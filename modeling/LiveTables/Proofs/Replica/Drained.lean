import LiveTables.Proofs.Replica.Alone
import LiveTables.Proofs.Table.Commute

/-!
# Batches drained from a queue

A queue overwrites the value that waits for a cell, and so a value may be sent before changes that were pushed
earlier. A replica that writes a table alone does not see a difference: of two updates of a cell the last counts,
and an update can change places with changes of other rows, known or not, and of other columns
(`Replica.collapses`). So all that was drained leaves the same replica and the same table as all that was pushed
(`Replica.Reachable.applyBatch_drained`).
-/

namespace LiveTables.Replica

variable {base t : Table} {i : Image} {r : Replica} {remote row : Nat} {column : String} {value : Value}

/-- An update does not change which rows are known. -/
theorem fst_after_update (s : Replica × Table) (remote : Nat) (column : String) (value : Value) :
    (after s (.update remote column value)).1 = s.1 := by
  obtain ⟨r, t⟩ := s
  rcases hrow : r.localRow? remote with - | row
  · rw [after_update_of_none hrow]
  · rw [after_update_of_some hrow]

/-- Of two updates of a cell the last counts. -/
theorem after_update_update (s : Replica × Table) (remote : Nat) (column : String) (value value' : Value) :
    after (after s (.update remote column value)) (.update remote column value') =
      after s (.update remote column value') := by
  obtain ⟨r, t⟩ := s
  rcases hrow : r.localRow? remote with - | row
  · simp only [after_update_of_none hrow]
  · simp only [after_update_of_some hrow, Table.write_write]

/-- A change of another row leaves the local row of a remote one. -/
theorem localRow?_after (s : Replica × Table) {c : Change} (h : c.row ≠ remote) :
    (after s c).1.localRow? remote = s.1.localRow? remote := by
  obtain ⟨r, t⟩ := s
  cases c with
  | add remote' =>
    have hne : remote ≠ remote' := Ne.symm h
    rcases hrow : r.localRow? remote' with - | row'
    · rw [after_add_of_none hrow, localRow?, lookup_cons, if_neg hne, localRow?]
    · rw [after_add_of_some hrow]
  | update remote' column value => rw [fst_after_update]
  | delete remote' =>
    have hne : remote ≠ remote' := Ne.symm h
    rcases hrow : r.localRow? remote' with - | row'
    · rw [after_delete_of_none hrow]
    · rw [after_delete_of_some hrow, localRow?, lookup_filter_ne, if_neg hne, localRow?]

namespace Mirrors

/-- An update of a known row can change places with what is clear of its cell. -/
theorem after_write (h : Mirrors base i r t) {c : Change} (hrow : r.localRow? remote = some row)
    (hclear : c.Clear remote column) :
    Replica.after (r, t.write column row value) c =
      ((Replica.after (r, t) c).1, (Replica.after (r, t) c).2.write column row value) := by
  cases c with
  | add remote' =>
    rcases hrow' : r.localRow? remote' with - | row'
    · rw [after_add_of_none hrow', after_add_of_none hrow', h.formed.addRow_write (h.mem_rows hrow)]
      rfl
    · rw [after_add_of_some hrow', after_add_of_some hrow']
  | update remote' column' value' =>
    rcases hrow' : r.localRow? remote' with - | row'
    · rw [after_update_of_none hrow', after_update_of_none hrow']
    · have hcell : row' ≠ row ∨ column' ≠ column := hclear.imp_left (h.local_ne hrow hrow')
      rw [after_update_of_some hrow', after_update_of_some hrow', Table.write_comm t hcell]
  | delete remote' =>
    rcases hrow' : r.localRow? remote' with - | row'
    · rw [after_delete_of_none hrow', after_delete_of_none hrow']
    · have hne : row' ≠ row := h.local_ne hrow hrow' hclear
      rw [after_delete_of_some hrow', after_delete_of_some hrow', Table.remove_write t hne]

/-- An update can change places with what is clear of its cell. -/
theorem after_comm (h : Mirrors base i r t) {c : Change} (hclear : c.Clear remote column) :
    Replica.after (Replica.after (r, t) (.update remote column value)) c =
      Replica.after (Replica.after (r, t) c) (.update remote column value) := by
  -- the local row of the update is found before and after the other change
  have hlocal : (Replica.after (r, t) c).1.localRow? remote = r.localRow? remote := by
    cases c with
    | update remote' column' value' => rw [fst_after_update]
    | add remote' | delete remote' => exact localRow?_after (r, t) hclear
  rcases hrow : r.localRow? remote with - | row
  · rw [after_update_of_none hrow, after_update_of_none (hlocal.trans hrow)]
  · rw [after_update_of_some hrow, after_update_of_some (hlocal.trans hrow)]
    exact h.after_write hrow hclear

end Mirrors

/-- For a replica that writes a table alone, updates that are overwritten do not count. -/
theorem collapses (base : Table) :
    Change.Collapses after (fun s => ∃ i, Mirrors base i s.1 s.2) (Change.Suits base.storedKind?) where
  kept := by
    rintro ⟨r, t⟩ c ⟨i, h⟩ hc
    exact ⟨_, h.after hc⟩
  last := by
    intro s remote column value value' _ _
    exact after_update_update s remote column value value'
  comm := by
    rintro ⟨r, t⟩ remote column value c ⟨i, h⟩ _ _ hclear
    exact h.after_comm hclear

/-- All that is drained from a queue by calls and a last drain, applied where the replica stands, leaves the same
replica and the same table as all that was pushed. -/
theorem Reachable.applyBatch_drained (h : Reachable r t) (lastValue : List String)
    {calls : List ChangeQueue.Call} (hsuits : ∀ c ∈ ChangeQueue.pushed calls, c.Suits t.storedKind?)
    (signals : List Signal) :
    ∃ t' r' told told' count count',
      r.applyBatch .alone (t, signals) (ChangeQueue.drained lastValue calls).flatten =
          ((t', told), r', .ok count) ∧
        r.applyBatch .alone (t, signals) (ChangeQueue.pushed calls) = ((t', told'), r', .ok count') := by
  have hmirrors := h.mirrors
  have hdrained : ∀ c ∈ (ChangeQueue.drained lastValue calls).flatten, c.Suits t.storedKind? :=
    fun c hc => hsuits c (ChangeQueue.of_mem_drained hc)
  obtain ⟨told, count, hbatch⟩ := hmirrors.applyBatch_eq_after signals hdrained
  obtain ⟨told', count', hbatch'⟩ := hmirrors.applyBatch_eq_after signals hsuits
  have hsame : (ChangeQueue.drained lastValue calls).flatten.foldl after (r, t) =
      (ChangeQueue.pushed calls).foldl after (r, t) :=
    ChangeQueue.foldl_drained (collapses t) ⟨_, hmirrors⟩ hsuits
  rw [hsame] at hbatch
  exact ⟨_, _, told, told', count, count', hbatch, hbatch'⟩

/-- A value is overwritten in front of changes of other cells, and not across a deletion of its row or a drain. -/
theorem Reachable.applyBatch_drained_overwritten :
    let calls : List ChangeQueue.Call :=
      [.push (.update 7 "a" (.int32 2)), .push (.add 5), .push (.update 7 "b" (.string "x")),
        .push (.update 6 "a" (.int32 3)), .push (.update 7 "a" (.int32 4)), .push (.delete 7),
        .push (.update 7 "a" (.int32 5)), .drain, .push (.update 5 "a" (.int32 6)), .push (.add 7),
        .push (.update 5 "a" (.int32 7))]
    (ChangeQueue.drained ["a"] calls).flatten ≠ ChangeQueue.pushed calls ∧
      (∀ c ∈ ChangeQueue.pushed calls, c.Suits Paired.state.2.storedKind?) ∧
      ∃ t' r' told told' count count',
        Paired.state.1.applyBatch .alone (Paired.state.2, []) (ChangeQueue.drained ["a"] calls).flatten =
            ((t', told), r', .ok count) ∧
          Paired.state.1.applyBatch .alone (Paired.state.2, []) (ChangeQueue.pushed calls) =
            ((t', told'), r', .ok count') := by
  intro calls
  have hdiffer : (ChangeQueue.drained ["a"] calls).flatten ≠ ChangeQueue.pushed calls := by decide
  have hsuits : ∀ c ∈ ChangeQueue.pushed calls, c.Suits Paired.state.2.storedKind? := by decide
  exact ⟨hdiffer, hsuits, Paired.reachable.applyBatch_drained ["a"] hsuits []⟩

end LiveTables.Replica
