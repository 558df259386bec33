import LiveTables.Proofs.Join.Cells
import LiveTables.Proofs.Join.Outcome
import LiveTables.Proofs.Network.Notice

/-!
# What a joined table tells

A joined table tells its listeners of the changes that its engine reports, and then, of a source row whose
other columns changed, in the joined rows that it has not spoken of (`JoinedTable.tell`). What it tells accounts
for the joined rows (`publishes_tell`), and it speaks of a plain column of a row only once (`settles_tell`).
-/

namespace LiveTables.JoinedTable

open Notice JoinChange

variable {j : JoinedTable} {e : JoinEngine} {side : Side} {row k : Nat} {c : String} {columns : List String}
  {changes : List JoinChange} {change : JoinChange} {x : Notice} {spoken : List Nat}

/-- The notices of a change of some columns in a joined row. -/
def tellUpdate (j : JoinedTable) (k : Nat) (columns : List String) : List Notice :=
  (j.updateEvents k columns).map fresh

/-- The notices of a change of a joined row. -/
def tellChange (j : JoinedTable) : JoinChange → List Notice
  | .added k => [fresh (.added k), repeated (.updated k j.columnIds)]
  | .updated k side => j.tellUpdate k (j.sideIds side)
  | .deleted k => [fresh (.deleted k)]

/-- The joined rows whose columns of a side are spoken of in some changes. -/
def spokenOf (side : Side) (changes : List JoinChange) : List Nat :=
  changes.filterMap fun
    | .added k => some k
    | .updated k s => if s = side then some k else none
    | .deleted _ => none

/-- The notices of changed columns of a source row, but in the joined rows that were spoken of. -/
def tellRest (j : JoinedTable) (side : Side) (row : Nat) (columns : List String) (spoken : List Nat) :
    List Notice :=
  if columns.isEmpty then []
  else ((j.engine.joinedRowsOf side row).filter (· ∉ spoken)).flatMap fun k => j.tellUpdate k columns

/-- All that a joined table tells when it has heard of a source row. -/
def tell (j : JoinedTable) (side : Side) (row : Nat) (changes : List JoinChange) (columns : List String) :
    List Notice :=
  changes.flatMap j.tellChange ++ j.tellRest side row columns (spokenOf side changes)

/-! ## Single notices -/

theorem mem_tellUpdate : x ∈ j.tellUpdate k columns ↔ x = fresh (.updated k columns) ∨
    ∃ c ∈ j.computed.dependentsOf columns, x = fresh (.updated k [c]) := by
  rw [tellUpdate, updateEvents, List.map_cons, List.mem_cons, List.map_map, List.mem_map]
  refine or_congr Iff.rfl (exists_congr fun c => and_congr_right fun _ => ?_)
  exact ⟨fun h => h.symm, fun h => h.symm⟩

theorem map_event_tellUpdate : (j.tellUpdate k columns).map (·.event) = j.updateEvents k columns := by
  rw [tellUpdate, List.map_map]
  exact List.map_id _

theorem of_mem_tellUpdate (h : x ∈ j.tellUpdate k columns) :
    x.event.action = .update ∧ x.event.row = k := by
  rcases mem_tellUpdate.1 h with rfl | ⟨c, -, rfl⟩
  · exact ⟨rfl, rfl⟩
  · exact ⟨rfl, rfl⟩

theorem updates_tellUpdate (h : c ∈ columns ∨ c ∈ j.computed.dependentsOf columns) :
    Updates (j.tellUpdate k columns) k c := by
  rcases h with h | h
  · exact ⟨_, mem_tellUpdate.2 (.inl rfl), rfl, rfl, rfl, h⟩
  · exact ⟨_, mem_tellUpdate.2 (.inr ⟨c, h, rfl⟩), rfl, rfl, rfl, List.mem_singleton_self c⟩

/-- A notice of a change is about its row, and a deletion only if the change is one. -/
theorem of_mem_tellChange (h : x ∈ j.tellChange change) : x.event.row = change.row ∧
    (x.event.action = .delete ↔ change = .deleted change.row) := by
  cases change with
  | added k =>
    have hcases : x = fresh (.added k) ∨ x = repeated (.updated k j.columnIds) := by
      simpa [tellChange] using h
    rcases hcases with rfl | rfl
    · exact ⟨rfl, by simp [Event.added]⟩
    · exact ⟨rfl, by simp [Event.updated]⟩
  | updated k s =>
    obtain ⟨haction, hrow⟩ := of_mem_tellUpdate h
    exact ⟨hrow, by simp [haction]⟩
  | deleted k =>
    have heq : x = fresh (.deleted k) := by simpa [tellChange] using h
    subst heq
    exact ⟨rfl, by simp [Event.deleted]⟩

theorem of_mem_tellRest (h : x ∈ j.tellRest side row columns spoken) :
    columns ≠ [] ∧ ∃ k ∈ j.engine.joinedRowsOf side row, k ∉ spoken ∧ x ∈ j.tellUpdate k columns := by
  rw [tellRest] at h
  split_ifs at h with hempty
  · exact absurd h List.not_mem_nil
  · obtain ⟨k, hk, hx⟩ := List.mem_flatMap.1 h
    obtain ⟨hmem, hnot⟩ := List.mem_filter.1 hk
    exact ⟨by simpa using hempty, k, hmem, by simpa using hnot, hx⟩

theorem mem_spokenOf : k ∈ spokenOf side changes ↔ .added k ∈ changes ∨ .updated k side ∈ changes := by
  rw [spokenOf, List.mem_filterMap]
  constructor
  · rintro ⟨change, hmem, heq⟩
    cases change with
    | added n =>
      obtain rfl : n = k := by simpa using heq
      exact .inl hmem
    | updated n s =>
      obtain ⟨rfl, rfl⟩ : s = side ∧ n = k := by simpa using heq
      exact .inr hmem
    | deleted n => exact absurd heq (by simp)
  · rintro (hmem | hmem)
    · exact ⟨_, hmem, rfl⟩
    · exact ⟨_, hmem, by simp⟩

/-- The joined rows in which a row stands. -/
theorem mem_joinedRowsOf (h : e.Sound) : k ∈ e.joinedRowsOf side row ↔ e.sourceRow? side k = some row :=
  h.mem_joinedRowsOf_iff.trans (and_iff_right_of_imp JoinEngine.mem_rows_of_sourceRow?)

/-! ## All notices -/

theorem adds_tell (h : .added k ∈ changes) : Adds (j.tell side row changes columns) k := by
  refine ⟨fresh (.added k), List.mem_append_left _ (List.mem_flatMap.2 ⟨_, h, ?_⟩), rfl, rfl⟩
  exact List.mem_cons_self

theorem deletes_tell (h : .deleted k ∈ changes) : Deletes (j.tell side row changes columns) k := by
  refine ⟨fresh (.deleted k), List.mem_append_left _ (List.mem_flatMap.2 ⟨_, h, ?_⟩), rfl, rfl⟩
  exact List.mem_singleton_self _

theorem tells_of_updated {s : Side} (h : .updated k s ∈ changes)
    (hc : c ∈ j.sideIds s ∨ c ∈ j.computed.dependentsOf (j.sideIds s)) :
    Tells (j.tell side row changes columns) k c := by
  obtain ⟨x, hx, htells⟩ : Updates (j.tellUpdate k (j.sideIds s)) k c := updates_tellUpdate hc
  exact .inr ⟨x, List.mem_append_left _ (List.mem_flatMap.2 ⟨_, h, hx⟩), htells⟩

theorem tells_of_rest (hk : k ∈ j.engine.joinedRowsOf side row) (hnot : k ∉ mentioned changes)
    (hc : c ∈ columns ∨ c ∈ j.computed.dependentsOf columns) (hcolumns : columns ≠ []) :
    Tells (j.tell side row changes columns) k c := by
  obtain ⟨x, hx, htells⟩ : Updates (j.tellUpdate k columns) k c := updates_tellUpdate hc
  refine .inr ⟨x, List.mem_append_right _ ?_, htells⟩
  rw [tellRest, if_neg (by simpa using hcolumns)]
  refine List.mem_flatMap.2 ⟨k, List.mem_filter.2 ⟨hk, ?_⟩, hx⟩
  have hspoken : k ∉ spokenOf side changes := fun hmem =>
    hnot ((mem_spokenOf.1 hmem).elim (fun h => mem_mentioned.2 ⟨_, h, rfl⟩)
      fun h => mem_mentioned.2 ⟨_, h, rfl⟩)
  simpa using hspoken

/-- A notice that deletes nothing is about a row that was added or updated, or stands on the row. -/
theorem of_mem_tell (h : x ∈ j.tell side row changes columns) (haction : x.event.action ≠ .delete) :
    (.added x.event.row ∈ changes ∨ ∃ s, .updated x.event.row s ∈ changes) ∨
      columns ≠ [] ∧ x.event.row ∈ j.engine.joinedRowsOf side row := by
  rcases List.mem_append.1 h with h | h
  · obtain ⟨change, hchange, hx⟩ := List.mem_flatMap.1 h
    obtain ⟨hrow, hdelete⟩ := of_mem_tellChange hx
    rw [hrow]
    cases change with
    | added k => exact .inl (.inl hchange)
    | updated k s => exact .inl (.inr ⟨s, hchange⟩)
    | deleted k => exact absurd (hdelete.2 rfl) haction
  · obtain ⟨hcolumns, k, hk, -, hx⟩ := of_mem_tellRest h
    rw [(of_mem_tellUpdate hx).2]
    exact .inr ⟨hcolumns, hk⟩

theorem refills_append {live : Nat → Prop} {q q' : List Notice} (h : ∀ x ∈ q, x.event.action ≠ .delete)
    (h' : Refills live q') : Refills live (q ++ q') := by
  induction q with
  | nil => exact h'
  | cons x q ih =>
    refine ⟨fun hdelete => absurd hdelete (h x List.mem_cons_self), ih fun y hy => ?_⟩
    exact h y (List.mem_cons_of_mem _ hy)

/-- What is told accounts for the joined rows that come and go. -/
theorem publishes_tell (hscript : e.EditScript j.engine side changes) (hsound : j.engine.Sound) :
    Publishes e.rows j.engine.rows (j.tell side row changes columns) where
  comes k hk hold := adds_tell (hscript.added_of_mem hk hold)
  goes k hold hk := deletes_tell (hscript.deleted_of_mem hold hk)
  refills := by
    have hsuffix (after : List JoinChange) : ∀ before, changes = before ++ after →
        Refills (· ∈ j.engine.rows)
          (after.flatMap j.tellChange ++ j.tellRest side row columns (spokenOf side changes)) := by
      induction after with
      | nil =>
        intro before _
        refine refills_of_forall fun x hx => ?_
        obtain ⟨-, k, -, -, hx⟩ := of_mem_tellRest hx
        simp [(of_mem_tellUpdate hx).1]
      | cons change after ih =>
        intro before hsplit
        have hrest := ih (before ++ [change]) (by rw [hsplit, List.append_assoc, List.singleton_append])
        rw [List.flatMap_cons, List.append_assoc]
        by_cases hdelete : change = .deleted change.row
        · -- a joined row that is there again is added later
          rw [hdelete] at hsplit ⊢
          refine ⟨fun _ hlive => ?_, hrest⟩
          show Adds (after.flatMap j.tellChange ++ _) change.row
          refine adds_append.2 (.inl ⟨fresh (.added change.row), ?_, rfl, rfl⟩)
          have hlater : .added change.row ∈ after := hscript.added_after hsplit hlive
          refine List.mem_flatMap.2 ⟨_, hlater, ?_⟩
          exact List.mem_cons_self
        · exact refills_append (fun x hx => mt (of_mem_tellChange hx).2.1 hdelete) hrest
    exact hsuffix changes [] rfl
  alive x hx haction := by
    rcases of_mem_tell hx haction with (hadded | ⟨s, hupdated⟩) | ⟨-, hrest⟩
    · exact hscript.mem_of_added hadded
    · exact (hscript.updated _ s hupdated).2.2.1
    · exact JoinEngine.mem_rows_of_sourceRow? ((mem_joinedRowsOf hsound).1 hrest)

theorem settles_tellUpdate {plain : String → Prop}
    (hplain : ∀ c columns, c ∈ j.computed.dependentsOf columns → ¬ plain c) :
    Settles plain (j.tellUpdate k columns) := by
  have hlater {x y : Notice} (hy : y ∈ (j.computed.dependentsOf columns).map fun c =>
      fresh (.updated k [c])) : x.event.row = y.event.row → x.event.action ≠ .delete →
      y.event.action = .update ∧ (y.news = true → ∀ c ∈ y.event.columns, ¬ plain c) := by
    obtain ⟨c, hc, rfl⟩ := List.mem_map.1 hy
    refine fun _ _ => ⟨rfl, fun _ d hd => ?_⟩
    obtain rfl := List.mem_singleton.1 hd
    exact hplain d columns hc
  rw [tellUpdate, updateEvents, List.map_cons, List.map_map, Settles, List.pairwise_cons]
  exact ⟨fun y hy => hlater hy, List.pairwise_of_forall_mem_list fun x _ y hy => hlater hy⟩

/-- Two notices of what is told are about different rows, or the first is a deletion, unless both are of the same
change, or of the other columns in the same joined row. -/
theorem pairwise_tell {R : Notice → Notice → Prop} (hscript : e.EditScript j.engine side changes)
    (hsound : j.engine.Sound)
    (hapart : ∀ x y : Notice, (x.event.row = y.event.row → x.event.action = .delete) → R x y)
    (hadded : ∀ k, R (fresh (.added k)) (repeated (.updated k j.columnIds)))
    (hupdated : ∀ k s, (j.tellUpdate k (j.sideIds s)).Pairwise R) (hrest : ∀ k, (j.tellUpdate k columns).Pairwise R) :
    (j.tell side row changes columns).Pairwise R := by
  rw [tell, List.pairwise_append]
  refine ⟨List.pairwise_flatMap.2 ⟨fun change _ => ?_, ?_⟩, ?_, fun x hx y hy => hapart x y fun hrow => ?_⟩
  · cases change with
    | added k => exact List.pairwise_pair.2 (hadded k)
    | updated k s => exact hupdated k s
    | deleted k => exact List.pairwise_singleton _ _
  · -- a change is followed by one of the same row only if it deletes the row
    refine hscript.pairwise.imp fun {a b} hab x hx y hy => hapart x y fun hrow => ?_
    have hsame : a.row = b.row := by
      rw [← (of_mem_tellChange hx).1, ← (of_mem_tellChange hy).1, hrow]
    exact (of_mem_tellChange hx).2.2 (hab hsame).1
  · rw [tellRest]
    split_ifs
    · exact .nil
    · refine List.pairwise_flatMap.2 ⟨fun k _ => hrest k, ?_⟩
      refine (hsound.nodup_joinedRowsOf side row).filter _ |>.imp fun {a b} hne x hx y hy => hapart x y fun hrow => ?_
      rw [(of_mem_tellUpdate hx).2, (of_mem_tellUpdate hy).2] at hrow
      exact absurd hrow hne
  · -- the rest leaves out what was spoken of
    obtain ⟨change, hchange, hx⟩ := List.mem_flatMap.1 hx
    obtain ⟨-, k, -, hnot, hy⟩ := of_mem_tellRest hy
    obtain ⟨hxrow, hdelete⟩ := of_mem_tellChange hx
    rw [hxrow, (of_mem_tellUpdate hy).2] at hrow
    subst hrow
    rw [mem_spokenOf] at hnot
    cases change with
    | added k => exact absurd (.inl hchange) hnot
    | updated k s =>
      obtain rfl := (hscript.updated k s hchange).1
      exact absurd (.inr hchange) hnot
    | deleted k => exact hdelete.2 rfl

/-- A plain column of a row is spoken of once. -/
theorem settles_tell {plain : String → Prop} (hscript : e.EditScript j.engine side changes)
    (hsound : j.engine.Sound) (hplain : ∀ c columns, c ∈ j.computed.dependentsOf columns → ¬ plain c) :
    Settles plain (j.tell side row changes columns) := by
  refine pairwise_tell hscript hsound (fun x y h hrow haction => absurd (h hrow) haction) (fun k _ _ => ⟨rfl, ?_⟩)
    (fun _ _ => settles_tellUpdate hplain) fun _ => settles_tellUpdate hplain
  exact fun hnews => absurd hnews (by simp)

end LiveTables.JoinedTable
