import LiveTables.Proofs.Observer.Abreast
import LiveTables.Proofs.Observer.Shadow
import LiveTables.Proofs.Replica.Source

/-!
# Followers of a stored table

An observer follows a stored table if it reads all columns of a row that is added, reads anew the columns that an
update names, and forgets a row that is deleted (`Follower`). If it registers with a replay, then after every call
its shadow is a copy of the table: it has the live rows, and of every column, stored or computed, the value that is
read now (`follower_copies`). The copy is exact, whatever well-typed columns compute.

While events are on their way a shadow lacks something, but only what these events tell (`Shadow.Awaits`). A replay
tells everything to one who has nothing, and an edit tells all that it changes (`Table.Turns.told`).
-/

namespace LiveTables

open Network World

/-! ## What edits tell -/

namespace Table

variable {t t' : Table} {events : List Event}

theorem WellFormed.get_unknown (h : t.WellFormed) {c : String} (hc : c ∉ t.columnIds) (r : Nat) :
    (t.get c r).toOption = none := by
  rcases hget : t.get c r with e | value
  · rfl
  · exact absurd (mem_columnIds (h.columnKind_of_get hget)) hc

theorem get_dead {c : String} {r : Nat} (hr : r ∉ t.rows) : (t.get c r).toOption = none := by
  rw [get_of_dead hr]
  rfl

/-- The events of an edit lead from the rows before to the rows after. -/
theorem Turns.replay (hturns : t.Turns t' events) :
    Event.replay t.rows.toFinset events = some t'.rows.toFinset := by
  cases hturns with
  | refused => rfl
  | added =>
    have hfresh : t.live.size ∉ t.rows := fun hmem => Nat.lt_irrefl _ (lt_of_mem_rows hmem)
    refine Event.replay_cons_eq_some.2
      ⟨_, (Event.applyTo_add rfl).2 ⟨mt List.mem_toFinset.1 hfresh, ?_⟩, Event.replay_nil⟩
    ext r
    rw [Finset.mem_insert, List.mem_toFinset, List.mem_toFinset, mem_rows_addRow]
    exact or_comm
  | @written id row value hlive _ =>
    refine Event.replay_updates fun e he => ?_
    obtain ⟨c, -, rfl⟩ := List.mem_map.1 he
    exact ⟨rfl, List.mem_toFinset.2 hlive⟩
  | @removed row hlive =>
    refine Event.replay_cons_eq_some.2
      ⟨_, (Event.applyTo_delete rfl).2 ⟨List.mem_toFinset.2 hlive, ?_⟩, Event.replay_nil⟩
    ext r
    rw [Finset.mem_erase, List.mem_toFinset, List.mem_toFinset, mem_rows_remove]
    exact and_comm

/-- A cell that reads otherwise after an edit is told of: its row is added or deleted, or an update names its
column. -/
theorem Turns.told (h : t.WellFormed) (hturns : t.Turns t' events) (c : String) (r : Nat) :
    (t.get c r).toOption = (t'.get c r).toOption ∨
      ∃ e ∈ events, e.row = r ∧ (e.action = .delete ∨ e.Reads t'.columnIds c) := by
  cases hturns with
  | refused => exact .inl rfl
  | added =>
    by_cases hr : r = t.live.size
    · subst hr
      by_cases hc : c ∈ t.addRow.1.columnIds
      · exact .inr ⟨_, List.mem_cons_self, rfl, .inr (.inl ⟨rfl, hc⟩)⟩
      · have hfresh : t.live.size ∉ t.rows := fun hmem => Nat.lt_irrefl _ (lt_of_mem_rows hmem)
        exact .inl ((get_dead hfresh).trans (h.addRow.get_unknown hc _).symm)
    · rw [h.get_addRow hr]
      exact .inl rfl
  | @written id row value hlive hkind =>
    by_cases hr : r = row
    · subst hr
      by_cases hc : c ∈ id :: t.computed.dependentsOf [id]
      · exact .inr ⟨_, List.mem_map_of_mem hc, rfl, .inr (.inr ⟨rfl, List.mem_cons_self⟩)⟩
      · rw [h.get_write hc]
        exact .inl rfl
    · rw [get_write_of_ne hr]
      exact .inl rfl
  | @removed row hlive =>
    by_cases hr : r = row
    · exact .inr ⟨_, List.mem_cons_self, hr.symm, .inl rfl⟩
    · rw [get_remove hr]
      exact .inl rfl

/-- A write names the column that is written, and then those that depend on it. -/
theorem WellFormed.nodup_written (h : t.WellFormed) {id : String} {k : Kind} (hkind : t.storedKind? id = some k) :
    (id :: t.computed.dependentsOf [id]).Nodup := by
  refine List.nodup_cons.2 ⟨fun hmem => ?_, h.layered.nodup_dependentsOf⟩
  obtain ⟨col, hcol⟩ := h.layered.exists_column?_of_mem hmem
  rw [h.computed_eq_none (by simp [hkind])] at hcol
  cases hcol

end Table

/-! ## Shadows of stored tables -/

namespace Shadow

variable {s : Shadow} {t t' : Table} {e : Event} {R events : List Event}

/-- A copy of a stored table: the live rows, with what is read of their cells. No event found it other than it
should, and nothing else is in it. -/
structure Copies (s : Shadow) (t : Table) : Prop where
  rows : s.rows = t.rows.toFinset
  cells : ∀ r c, s.cell r c = (t.get c r).toOption
  readable : ∀ r ∈ t.rows, ∀ c ∈ t.columnIds, ∃ value, t.get c r = .ok value
  fault : s.fault = false

/-- A shadow that lacks of a table only what it has yet to hear. -/
structure Awaits (s : Shadow) (t : Table) (R : List Event) : Prop where
  rows : Event.replay s.rows R = some t.rows.toFinset
  cells : ∀ r c, s.cell r c = (t.get c r).toOption ∨
    ∃ e ∈ R, e.row = r ∧ (e.action = .delete ∨ e.Reads t.columnIds c)
  legible : ∀ e ∈ R, ∀ c, e.Reads t.columnIds c → ∃ value, t.get c e.row = .ok value
  fault : s.fault = false

namespace Awaits

/-- The cells of a row are read that an event is about. -/
theorem read {rows : Finset ℕ} {named : List String} (h : s.Awaits t (e :: R))
    (hnamed : ∀ c, e.Reads t.columnIds c ↔ c ∈ named) (haction : e.action ≠ .delete)
    (hrows : Event.replay rows R = some t.rows.toFinset) :
    (Shadow.read { s with rows } t.view e.row named).Awaits t R where
  rows := hrows
  cells r c := by
    simp only [Shadow.read]
    split_ifs with hread
    · obtain ⟨rfl, -⟩ := hread
      exact .inl rfl
    · -- the event says nothing of another cell
      refine (h.cells r c).imp_right fun htold => ?_
      obtain ⟨e', he', hrow, htold⟩ := htold
      rcases List.mem_cons.1 he' with rfl | he'
      · exact absurd ⟨hrow.symm, (hnamed c).1 (htold.resolve_left haction)⟩ hread
      · exact ⟨e', he', hrow, htold⟩
  legible e' he' := h.legible e' (List.mem_cons_of_mem _ he')
  fault := (fault_read fun c hc => h.legible e List.mem_cons_self c ((hnamed c).2 hc)).trans h.fault

/-- A row is forgotten that is gone, or will be added. -/
theorem drop (h : s.Awaits t (e :: R)) (hformed : t.WellFormed)
    (hrows : Event.replay (s.rows.erase e.row) R = some t.rows.toFinset) : (s.drop e.row).Awaits t R where
  rows := hrows
  cells r c := by
    simp only [Shadow.drop]
    split_ifs with hr
    · subst hr
      by_cases hc : c ∈ t.columnIds
      · by_cases hlive : e.row ∈ t.rows
        · obtain ⟨e', he', hadd, hrow⟩ :=
            Event.exists_add_of_replay hrows (Finset.notMem_erase _ _) (List.mem_toFinset.2 hlive)
          exact .inr ⟨e', he', hrow, .inr (.inl ⟨hadd, hc⟩)⟩
        · exact .inl (Table.get_dead hlive).symm
      · exact .inl (hformed.get_unknown hc _).symm
    · refine (h.cells r c).imp_right fun htold => ?_
      obtain ⟨e', he', hrow, htold⟩ := htold
      rcases List.mem_cons.1 he' with rfl | he'
      · exact absurd hrow.symm hr
      · exact ⟨e', he', hrow, htold⟩
  legible e' he' := h.legible e' (List.mem_cons_of_mem _ he')
  fault := h.fault

/-- The next event is heard. -/
theorem hear (h : s.Awaits t (e :: R)) (hformed : t.WellFormed) : (hear t.columnIds t.view e s).Awaits t R := by
  obtain ⟨rows, hfits, hrows⟩ := Event.replay_cons_eq_some.1 h.rows
  cases haction : e.action with
  | add =>
    obtain ⟨hnot, rfl⟩ := (Event.applyTo_add haction).1 hfits
    simp only [Shadow.hear, haction, if_neg hnot]
    exact h.read (fun c => by simp [Event.Reads, haction]) (by simp [haction]) hrows
  | update =>
    obtain ⟨hmem, rfl⟩ := (Event.applyTo_update haction).1 hfits
    simp only [Shadow.hear, haction, if_pos hmem]
    exact h.read (fun c => by simp [Event.Reads, haction]) (by simp [haction]) hrows
  | delete =>
    obtain ⟨hmem, rfl⟩ := (Event.applyTo_delete haction).1 hfits
    simp only [Shadow.hear, haction, if_pos hmem]
    exact h.drop hformed hrows

/-- All events are heard. -/
theorem hearAll (h : s.Awaits t R) (hformed : t.WellFormed) :
    (R.foldl (fun s e => Shadow.hear t.columnIds t.view e s) s).Awaits t [] := by
  induction R generalizing s with
  | nil => exact h
  | cons e R ih => exact ih (h.hear hformed)

/-- Then nothing is lacking. -/
theorem copies (h : s.Awaits t []) (hformed : t.WellFormed) (htyped : t.WellTyped) : s.Copies t where
  rows := Option.some.inj h.rows
  cells r c := (h.cells r c).resolve_right fun ⟨_, he, _⟩ => List.not_mem_nil he
  readable := hformed.readable htyped
  fault := h.fault

end Awaits

/-- Who has nothing awaits a replay. -/
theorem awaits_replay (hformed : t.WellFormed) (htyped : t.WellTyped) : Awaits {} t t.view.replay where
  rows := TableView.replay_replay t.nodup_rows
  cells r c := by
    by_cases hr : r ∈ t.rows
    · by_cases hc : c ∈ t.columnIds
      · refine .inr ⟨.added r, ?_, rfl, .inr (.inl ⟨rfl, hc⟩)⟩
        exact List.mem_flatMap.2 ⟨r, hr, List.mem_cons_self⟩
      · exact .inl (hformed.get_unknown hc r).symm
    · exact .inl (Table.get_dead hr).symm
  legible e he c hreads := by
    obtain ⟨r, hr, rfl | rfl⟩ := TableView.mem_replay he
    · rcases hreads with ⟨-, hc⟩ | ⟨haction, -⟩
      · exact hformed.readable htyped r hr c hc
      · cases haction
    · rcases hreads with ⟨haction, -⟩ | ⟨-, hc⟩
      · cases haction
      · exact hformed.readable htyped r hr c hc
  fault := rfl

/-- Who has a copy awaits what an edit tells. -/
theorem Copies.awaits (h : s.Copies t) (hformed : t.WellFormed) (htyped : t.WellTyped)
    (hturns : t.Turns t' events) : s.Awaits t' events where
  rows := by
    rw [h.rows]
    exact hturns.replay
  cells r c := by
    rw [h.cells]
    exact hturns.told hformed c r
  legible e he c hreads := by
    have hread : t'.view.Readable := (hturns.wellFormed hformed).readable (hturns.alike.wellTyped htyped)
    have hnamed : c ∈ if e.action = .add then t'.columnIds else e.columns := by
      rcases hreads with ⟨haction, hc⟩ | ⟨haction, hc⟩
      · rwa [if_pos haction]
      · rwa [if_neg (by simp [haction])]
    obtain ⟨hrow, hcolumn⟩ := hturns.mem_columnIds hformed he hnamed
    exact hread e.row hrow c hcolumn
  fault := h.fault

/-- It has a copy again when it has heard all of it. -/
theorem Copies.turns (h : s.Copies t) (hformed : t.WellFormed) (htyped : t.WellTyped)
    (hturns : t.Turns t' events) : Copies (events.foldl (fun s e => Shadow.hear t'.columnIds t'.view e s) s) t' := by
  have hformed' := hturns.wellFormed hformed
  exact ((h.awaits hformed htyped hturns).hearAll hformed').copies hformed' (hturns.alike.wellTyped htyped)

end Shadow

/-! ## Followers -/

/-- What an observer keeps that follows a table: a shadow, and all that it has heard. -/
structure Follower where
  shadow : Shadow := {}
  heard : List Event := []

namespace Follower

/-- What it does with an event. A fresh row is read in all columns. -/
def hear (view : TableView) (e : Event) (f : Follower) : Follower where
  shadow := f.shadow.hear view.columnIds view e
  heard := f.heard ++ [e]

theorem foldl_hear (view : TableView) (events : List Event) (f : Follower) :
    events.foldl (fun f e => hear view e f) f =
      { shadow := events.foldl (fun s e => Shadow.hear view.columnIds view e s) f.shadow
        heard := f.heard ++ events } := by
  induction events generalizing f with
  | nil => simp
  | cons e events ih =>
    rw [List.foldl_cons, ih]
    simp [hear]

/-- When all that a replay hands it is heard, it has a copy. -/
theorem copies_replay {t : Table} (hformed : t.WellFormed) (htyped : t.WellTyped) :
    (t.view.replay.foldl (fun f e => hear t.view e f) {}).shadow.Copies t := by
  rw [foldl_hear]
  exact ((Shadow.awaits_replay hformed htyped).hearAll hformed).copies hformed htyped

/-- And so after every edit. -/
theorem copies_feed {t : Table} {f : Follower} (hformed : t.WellFormed) (htyped : t.WellTyped) (h : f.shadow.Copies t)
    (edits : List Table.Edit) :
    let now := edits.foldl (Table.feed hear) (t, f)
    now.1.WellFormed ∧ now.1.WellTyped ∧ now.2.shadow.Copies now.1 := by
  refine hformed.feed_induction (P := fun _ => True)
    (motive := fun t (f : Follower) => t.WellFormed ∧ t.WellTyped ∧ f.shadow.Copies t) (fun _ _ => trivial)
    ⟨hformed, htyped, h⟩ fun t t' events f _ hturns _ ⟨hformed, htyped, h⟩ => ?_
  refine ⟨hturns.wellFormed hformed, hturns.alike.wellTyped htyped, ?_⟩
  rw [foldl_hear]
  exact h.turns hformed htyped hturns

section Run

variable {ω : Type} {o : Outside ω} {v : Spectator ω Follower} {w₀ w w' : World ω} {t₀ t : Table} {depth : Nat}

/-- A follower that registers with a replay is abreast of its table from then on, and its shadow is a copy. -/
theorem exists_abreast (ho : o.Quiet) (hv : v.Attends o) (hhear : v.hear = hear) (h : Arises o w₀)
    (ht₀ : w₀.network.table? v.node = some t₀) (htyped : t₀.WellTyped) (habsent : v.At none w₀.network)
    (hempty : v.mine w₀.outside = {})
    (hsince : Since o v (w₀.subscribeWithReplay (dispatch o (depth + 1)) v.node v.id).1 w) :
    ∃ i t f, v.Abreast (some i) t f w ∧ t.WellFormed ∧ f.shadow.Copies t := by
  have hregular := h.regular ho
  have hformed := hregular.tables v.node t₀ ht₀
  have hbegin : v.Abreast none t₀ {} w₀ := ⟨hregular.orderly, habsent, fun _ => ⟨ht₀, hempty⟩⟩
  obtain ⟨i, hattached⟩ := hbegin.subscribeWithReplay ho hv ht₀ depth
  obtain ⟨edits, habreast⟩ := hattached.since ho hv hsince
  rw [hhear] at habreast
  obtain ⟨hformed', -, hcopies⟩ := copies_feed hformed htyped (copies_replay hformed htyped) edits
  exact ⟨i, _, _, habreast, hformed', hcopies⟩

end Run

end Follower

/-! ### A follower below a chain of joins

In the chain of joins, an observer follows the first stored table, where rows have come and gone before.
-/

namespace Chain

/-- Observers that follow the table of their number. -/
def followers : Outside (Nat → Follower) := crowd (fun id => id) Follower.hear

/-- The one that follows a table. -/
def follower (n : Nat) : Spectator (Nat → Follower) Follower := crowdSpectator (fun id => id) Follower.hear n

/-- Rows come and go before there is a follower. -/
def earlier : List Call := [.addRow 0, .deleteRow 0 0, .setValue 0 "a" 1 (.int32 1)]

/-- What is written when there is one. -/
def later : List Call := [.addRow 0, .setValue 0 "a" 1 (.int32 0), .deleteRow 0 1]

/-- The world before a follower of the first table is attached, after more calls, and after a write. -/
def followed? : Option (World (Nat → Follower) × World (Nat → Follower) × World (Nat → Follower)) := do
  let joined ← Call.performAll followers 9 { network := tables, outside := fun _ => {} } calls
  let gone ← Call.performAll followers 9 joined earlier
  let w₀ : World (Nat → Follower) := { network := gone.network, outside := fun _ => {} }
  let w ← Call.performAll followers 9 (w₀.subscribeWithReplay (dispatch followers (8 + 1)) 0 0).1 later
  let w' ← (Call.setValue 0 "a" 2 (.int32 1)).perform (dispatch followers 9) w
  return (w₀, w, w')

variable {w₀ w w' : World (Nat → Follower)}

theorem reachable_followed (h : followed? = some (w₀, w, w')) : Reachable followers w₀ ∧ w₀.outside = (fun _ => {}) ∧
    Since followers (follower 0) (w₀.subscribeWithReplay (dispatch followers (8 + 1)) 0 0).1 w ∧
      (Call.setValue 0 "a" 2 (.int32 1)).perform (dispatch followers 9) w = some w' := by
  simp only [followed?, Option.bind_eq_bind, Option.bind_eq_some_iff] at h
  obtain ⟨joined, hcalls, gone, hearlier, w₁, hlater, w₂, hlast, heq⟩ := h
  obtain ⟨rfl, hends⟩ := Prod.mk.inj (Option.some.inj heq)
  obtain ⟨rfl, rfl⟩ := Prod.mk.inj hends
  have hwrites {calls : List Call} (h : calls = earlier ∨ calls = later) : ∀ call ∈ calls, call.Writes := by
    rintro call hcall
    rcases h with rfl | rfl
    · simp only [earlier, List.mem_cons, List.not_mem_nil, or_false] at hcall
      rcases hcall with rfl | rfl | rfl <;> trivial
    · simp only [later, List.mem_cons, List.not_mem_nil, or_false] at hcall
      rcases hcall with rfl | rfl | rfl <;> trivial
  refine ⟨?_, rfl, .performAll .refl (hwrites (.inr rfl)) hlater, hlast⟩
  have hgone := (reachable_calls hcalls).performAll (fun call hcall => (hwrites (.inl rfl) call hcall).lawful) hearlier
  exact .quietly hgone .refl

/-- What is to be found: the table, nobody who listens yet, the rows in the end, and the columns that are named. -/
def foundFollowed (w₀ w w' : World (Nat → Follower)) : Bool :=
  (w₀.network.table? 0).isSome && (follower 0).isAt none w₀.network && w.network.nextId ≤ 9 &&
    (w'.network.content? 0).isSome &&
    (w.network.table? 0).any fun t => t.rows = [2] && t.computed.dependentsOf ["a"] = ["p", "q"]

theorem exists_followed : ∃ w₀ w w', followed? = some (w₀, w, w') ∧ foundFollowed w₀ w w' = true := by
  have hfound : followed?.any (fun p => foundFollowed p.1 p.2.1 p.2.2) = true := by decide +kernel
  simpa only [Option.any_eq_true, Prod.exists] using hfound

end Chain

/-- An observer that follows a stored table with computed columns, and was attached with a replay, has a copy of the
table after every call. A write that goes through is told to it by one update for each column that may have
changed, and no column is named twice. -/
theorem follower_copies {ω : Type} {o : Outside ω} {v : Spectator ω Follower} {w₀ w : World ω} {t₀ t : Table}
    {depth : Nat} (ho : o.Quiet) (hv : v.Attends o) (hhear : v.hear = Follower.hear) (h : Arises o w₀)
    (ht₀ : w₀.network.table? v.node = some t₀) (htyped : t₀.WellTyped) (habsent : v.At none w₀.network)
    (hempty : v.mine w₀.outside = {})
    (hsince : Since o v (w₀.subscribeWithReplay (dispatch o (depth + 1)) v.node v.id).1 w)
    (ht : w.network.table? v.node = some t) :
    (v.mine w.outside).shadow.Copies t ∧ ∀ {depth' column row value w'}, w.network.nextId ≤ depth' →
      (Call.setValue v.node column row value).perform (dispatch o depth') w = some w' →
      w'.network.content? v.node ≠ none →
        (column :: t.computed.dependentsOf [column]).Nodup ∧
          (v.mine w'.outside).heard = (v.mine w.outside).heard ++
            (column :: t.computed.dependentsOf [column]).map fun c => .updated row [c] := by
  obtain ⟨i, u, f, habreast, hformed, hcopies⟩ :=
    Follower.exists_abreast ho hv hhear h ht₀ htyped habsent hempty hsince
  have hn : w.network.content? v.node ≠ none := by simp [content?_of_table? ht]
  obtain ⟨hu, rfl⟩ := habreast.present hn
  obtain rfl := Option.some.inj (hu.symm.trans ht)
  refine ⟨hcopies, fun {depth' column row value w'} hdeep hdone hn' => ?_⟩
  obtain ⟨depth', rfl⟩ : ∃ d, depth' = d + 1 :=
    Nat.exists_eq_succ_of_ne_zero (by have := habreast.registered.issued; omega)
  have hedit := habreast.edit (e := .setValue column row value) ho hv hdone
  obtain ⟨-, hmine⟩ := hedit.present hn'
  simp only [Call.perform, ht, Option.bind_eq_bind, Option.bind_some, Option.bind_eq_some_iff] at hdone
  obtain ⟨⟨t', signals⟩, hset, -⟩ := hdone
  have hset := accepted?_eq_some.1 hset
  obtain ⟨-, -, hkind, -, rfl⟩ := Table.setValue_eq_ok hformed hset
  refine ⟨hformed.nodup_written hkind, ?_⟩
  rw [hmine, hhear]
  simp only [Table.feed, Table.perform, hset, Table.eventsOf_write, Follower.foldl_hear]

/-- The follower in the chain has a copy of the row that is left, and is told of three columns at the last write. -/
theorem follower_copies_chain : ∃ (w₀ w w' : World (Nat → Follower)) (t : Table),
    Chain.followed? = some (w₀, w, w') ∧ w.network.table? 0 = some t ∧ t.rows = [2] ∧
      (w.outside 0).shadow.Copies t ∧
      (w'.outside 0).heard = (w.outside 0).heard ++ ["a", "p", "q"].map fun c => .updated 2 [c] := by
  obtain ⟨w₀, w, w', hw, hfound⟩ := Chain.exists_followed
  obtain ⟨hreach, hempty, hsince, hlast⟩ := Chain.reachable_followed hw
  simp only [Chain.foundFollowed, Bool.and_eq_true, Option.any_eq_true, Option.isSome_iff_exists, decide_eq_true_eq]
    at hfound
  obtain ⟨⟨⟨⟨⟨t₀, ht₀⟩, habsent⟩, hdeep⟩, c, hc⟩, t, ht, hrows, hdependents⟩ := hfound
  have htyped : t₀.WellTyped := ((hreach.settled quiet_crowd).formed.tables 0 t₀ ht₀).wellTyped
  obtain ⟨hcopies, hwrite⟩ := follower_copies (v := Chain.follower 0) quiet_crowd (attends_crowd 0) rfl hreach.arises
    ht₀ htyped (.of_isAt habsent) (congrFun hempty 0) hsince ht
  obtain ⟨-, hheard⟩ := hwrite hdeep hlast (by simp [Chain.follower, crowdSpectator, hc])
  rw [hdependents] at hheard
  exact ⟨w₀, w, w', t, hw, ht, hrows, hcopies, hheard⟩

end LiveTables
