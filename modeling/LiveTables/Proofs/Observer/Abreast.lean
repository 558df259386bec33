import LiveTables.Proofs.Network.Regular
import LiveTables.Proofs.Observer.Attached

/-!
# Spectators of a stored table

A spectator of a stored table is abreast of it (`Spectator.Abreast`) if it has heard of every edit. So it is when
it has registered with a replay (`Abreast.subscribeWithReplay`), and so it stays while calls edit this table and
others (`Abreast.since`): whoever else listens, and whatever is joined from the table, the spectator hears what a
listener by itself hears of a table by itself (`Table.feed`), no more and no less. Computed columns may compute just
anything.
-/

namespace LiveTables

open Network World

variable {ω σ : Type} {o : Outside ω} {v : Spectator ω σ} {i? : Option Nat} {i n depth : Nat} {t t' : Table} {s : σ}
  {w w' w₀ : World ω}

namespace Spectator

/-- A spectator of a stored table: as long as there is the table, it is `t`, and the spectator keeps `s`. -/
structure Abreast (v : Spectator ω σ) (i? : Option Nat) (t : Table) (s : σ) (w : World ω) : Prop where
  orderly : w.network.Orderly
  registered : v.At i? w.network
  present : w.network.content? v.node ≠ none → w.network.table? v.node = some t ∧ v.mine w.outside = s

namespace Abreast

/-! ## Others -/

/-- The table stays as it is, or goes. -/
theorem of_undisturbed (h : v.Abreast i? t s w) (ho : w'.network.Orderly) (hundisturbed : v.Undisturbed w w')
    (hc : ∀ c, w'.network.content? v.node = some c → w.network.content? v.node = some c) :
    v.Abreast i? t s w' where
  orderly := ho
  registered := hundisturbed.stays i? h.registered
  present hn := by
    obtain ⟨c, hc'⟩ := Option.ne_none_iff_exists'.1 hn
    obtain ⟨ht, hmine⟩ := h.present (by simp [hc c hc'])
    refine ⟨?_, hundisturbed.mine.trans hmine⟩
    rw [← ht]
    exact table?_congr (hc'.trans (hc c hc').symm)

theorem quietly (h : v.Abreast i? t s w) (hquiet : w.network.Quietly w'.network)
    (hundisturbed : v.Undisturbed w w') : v.Abreast i? t s w' := by
  have hretains := hquiet.retains h.orderly
  exact h.of_undisturbed hretains.orderly hundisturbed fun c hc => hretains.content? h.registered.issued hc

theorem hold (h : v.Abreast i? t s w) (m : Nat) : v.Abreast i? t s (w.modifyNetwork (·.hold m)) :=
  h.quietly (.hold .refl) ⟨rfl, fun _ hi => hi.hold⟩

theorem release (h : v.Abreast i? t s w) (m : Nat) : v.Abreast i? t s (w.modifyNetwork (·.release m)) :=
  h.quietly (.release .refl) ⟨rfl, fun _ hi => hi.release h.orderly.ordered⟩

/-- Something else is put in the place of another table. -/
theorem setContent {c : Content} (h : v.Abreast i? t s w) (hn : v.node ≠ n)
    (ho : (w.network.setContent n c).Orderly) : v.Abreast i? t s (w.modifyNetwork (·.setContent n c)) := by
  refine h.of_undisturbed ho ⟨rfl, fun _ hi => hi.setContent⟩ fun c' hc' => ?_
  exact (content?_setContent_of_ne hn).symm.trans hc'

/-- It registers. -/
theorem subscribe (h : v.Abreast none t s w) :
    v.Abreast (some (w.network.subject v.node .events).nextId) t s (w.subscribe v.node v.id).1 where
  orderly := ((quietly_subscribe w v.node v.id).retains h.orderly).orderly
  registered := h.registered.subscribe
  present hn := by
    have hcontent : (w.subscribe v.node v.id).1.network.content? v.node = w.network.content? v.node :=
      content?_subscribe _ _ _
    rw [hcontent] at hn
    obtain ⟨ht, hmine⟩ := h.present hn
    exact ⟨(table?_congr hcontent).trans ht, hmine⟩

end Abreast

/-- A spectator stays abreast of its table while others respond. -/
theorem Attends.lasting (ho : o.Quiet) (hv : v.Attends o) :
    Lasting o (· = v.node) (· ≠ v.id) (v.Abreast i? t s) where
  joined {w K} h hK heq := by
    subst heq
    obtain ⟨j, hj⟩ := Option.ne_none_iff_exists'.1 hK
    have ht := (h.present (by simp [content?_of_joined? hj])).1
    exact hK (joined?_eq_none_of_table? ht)
  foreign {w m k id} h hm hk heq := by
    subst heq
    exact hm (h.registered.only m k hk).1
  event {w depth id} e h hid :=
    h.quietly (ho.onEvent depth w id e) ((hv.others _ (hv.spares depth)).1 w id e hid)
  cell {w depth} id row h :=
    h.quietly (ho.onCell depth w id row) ((hv.others _ (hv.spares depth)).2 w id row)
  hold m h := h.hold m
  release m h := h.release m
  link {w K j} engine h hj := by
    refine h.setContent (fun heq => ?_) (h.orderly.setJoined hj rfl)
    have ht := (h.present (by simp [heq, content?_of_joined? hj])).1
    rw [heq, table?_eq_none_of_joined? hj] at ht
    cases ht

namespace Abreast

variable (ho : o.Quiet) (hv : v.Attends o)

include ho hv

/-! ## Its own table -/

/-- It hears an event, and reads the table as it is then. -/
theorem onEvent (h : v.Abreast i? t s w) (depth : Nat) (e : Event) :
    v.Abreast i? t (v.hear t.view e s) (o.onEvent (dispatch o depth) w v.id e) := by
  have hretains := (ho.onEvent depth w v.id e).retains h.orderly
  obtain ⟨hhears, hstays⟩ := hv.own _ (hv.spares depth) w e
  refine ⟨hretains.orderly, hstays i? h.registered, fun hn => ?_⟩
  obtain ⟨c, hc⟩ := Option.ne_none_iff_exists'.1 hn
  have hc₀ := hretains.content? h.registered.issued hc
  obtain ⟨ht, hmine⟩ := h.present (by simp [hc₀])
  refine ⟨?_, ?_⟩
  · rw [← ht]
    exact table?_congr (hc.trans hc₀.symm)
  · rw [hhears _ (h.orderly.ordered.view?_of_table? ht), hmine]

/-- Its table announces an event. It hears of it once, when its turn comes. -/
theorem announce (h : v.Abreast (some i) t s w) (depth : Nat) (e : Event) :
    v.Abreast (some i) t (v.hear t.view e s) ((dispatch o (depth + 1)).announce w v.node (.event e)) := by
  have hothers (s : σ) : Lasting o (· = v.node) (· ≠ v.id) (v.Abreast (some i) t s) := hv.lasting ho
  by_cases hn : w.network.content? v.node = none
  · -- nobody listens to a table that is gone
    have hsame : (dispatch o (depth + 1)).announce w v.node (.event e) = w := by
      simp only [dispatch, Subject.deliver, Signal.stream, subject_of_content?_eq_none hn]
      rfl
    rw [hsame]
    exact ⟨h.orderly, h.registered, fun hn' => absurd hn hn'⟩
  -- before its turn and after it only others respond
  obtain ⟨before, after, hentries, hturns⟩ := h.registered.exists_turn (h.orderly.wired.tidy v.node) hn
  have hforeign (x : Nat × Listener) (hx : x ∈ before ++ after) (id : Nat) (hid : x.2 = .observer id) :
      id ≠ v.id := by
    rintro rfl
    exact hturns x hx hid
  show v.Abreast (some i) t (v.hear t.view e s) (Subject.deliver _ _ w)
  rw [Subject.deliver]
  change v.Abreast (some i) t (v.hear t.view e s) (List.foldl _ w (w.network.entries v.node))
  rw [hentries, List.foldl_append, List.foldl_cons]
  have hfirst := (hothers s).foldl_respond (fun w => w.network.subject v.node .events)
    ((hothers s).announce depth) h fun x hx id _ hid (_ : Signal.event e = _) =>
      hforeign x (List.mem_append_left _ hx) id hid
  refine (hothers _).foldl_respond _ ((hothers _).announce depth) ?_ fun x hx id _ hid _ =>
    hforeign x (List.mem_append_right _ hx) id hid
  split_ifs with hturn
  · exact hfirst.onEvent ho hv depth e
  · -- it would still be registered if the table were there
    refine ⟨hfirst.orderly, hfirst.registered, fun hn => absurd ?_ hturn⟩
    exact (Subject.contains_iff _ _).2 (List.mem_map_of_mem (hfirst.registered.present i rfl hn))

/-- Its table announces signals, one after the other. -/
theorem announceSignals (h : v.Abreast (some i) t s w) (depth : Nat) (signals : List Signal) :
    v.Abreast (some i) t ((Table.eventsOf signals).foldl (fun kept e => v.hear t.view e kept) s)
      (signals.foldl (fun w s => (dispatch o (depth + 1)).announce w v.node s) w) := by
  induction signals generalizing w s with
  | nil => exact h
  | cons signal signals ih =>
    cases signal with
    | cell column row => exact ih ((hv.lasting ho).announce_cell (depth + 1) h v.node column row)
    | event e => exact ih (h.announce ho hv depth e)

/-! ## Edits -/

/-- Its table is edited, and announces what was done. -/
theorem commit (h : v.Abreast (some i) t s w) (ht : w.network.table? v.node = some t) (depth : Nat) (t' : Table)
    (signals : List Signal) :
    v.Abreast (some i) t' ((Table.eventsOf signals).foldl (fun kept e => v.hear t'.view e kept) s)
      (w.commit (dispatch o (depth + 1)) v.node t' signals) := by
  have hn : w.network.content? v.node ≠ none := by simp [content?_of_table? ht]
  have hset : v.Abreast (some i) t' s
      ((w.modifyNetwork (·.hold v.node)).modifyNetwork (·.setContent v.node (.stored t'))) :=
    { orderly := h.orderly.hold.setTable ht
      registered := h.registered.hold.setContent
      present := fun _ => ⟨table?_eq_some_iff.2 (content?_setContent_self hn), (h.present hn).2⟩ }
  exact (hset.announceSignals ho hv depth signals).release v.node

/-- Another table is edited. -/
theorem commit_other {u : Table} (h : v.Abreast i? t s w) (hn : v.node ≠ n) (hu : w.network.table? n = some u)
    (depth : Nat) (t' : Table) (signals : List Signal) :
    v.Abreast i? t s (w.commit (dispatch o depth) n t' signals) := by
  have horderly : ((w.network.hold n).setContent n (.stored t')).Orderly := h.orderly.hold.setTable hu
  have hset := (h.hold n).setContent hn horderly
  exact ((hv.lasting ho).announceSignals depth hset (Ne.symm hn) signals).release n

/-- An edit of its table goes through. -/
theorem edit {e : Table.Edit} (h : v.Abreast (some i) t s w)
    (hdone : (e.call v.node).perform (dispatch o (depth + 1)) w = some w') :
    v.Abreast (some i) (Table.feed v.hear (t, s) e).1 (Table.feed v.hear (t, s) e).2 w' := by
  obtain ⟨u, hu, rfl⟩ := Call.exists_commit_of_edit hdone
  obtain rfl : u = t := Option.some.inj (hu.symm.trans (h.present (by simp [content?_of_table? hu])).1)
  exact h.commit ho hv hu depth _ _

/-- A call that writes is an edit of its table, or leaves it alone. -/
theorem perform {call : Call} (h : v.Abreast (some i) t s w) (hwrites : call.Writes)
    (hdone : call.perform (dispatch o (depth + 1)) w = some w') : ∃ edits : List Table.Edit,
      v.Abreast (some i) (edits.foldl (Table.feed v.hear) (t, s)).1 (edits.foldl (Table.feed v.hear) (t, s)).2 w' := by
  obtain ⟨n, e, rfl⟩ := hwrites.exists_edit
  by_cases hn : v.node = n
  · subst hn
    exact ⟨[e], h.edit ho hv hdone⟩
  · obtain ⟨u, hu, rfl⟩ := Call.exists_commit_of_edit hdone
    exact ⟨[], h.commit_other ho hv hn hu _ _ _⟩

/-- So it is with calls one after the other: the spectator keeps what it would keep if it had listened to the table
alone while that was edited. -/
theorem since (h : v.Abreast (some i) t s w₀) (hsince : Since o v w₀ w) : ∃ edits : List Table.Edit,
    v.Abreast (some i) (edits.foldl (Table.feed v.hear) (t, s)).1 (edits.foldl (Table.feed v.hear) (t, s)).2 w := by
  induction hsince with
  | refl => exact ⟨[], h⟩
  | quietly _ hquiet hundisturbed ih =>
    obtain ⟨edits, ih⟩ := ih
    exact ⟨edits, ih.quietly hquiet hundisturbed⟩
  | @write _ _ depth _ _ hdeep hwrites hdone ih =>
    obtain ⟨edits, ih⟩ := ih
    obtain ⟨depth, rfl⟩ : ∃ d, depth = d + 1 :=
      Nat.exists_eq_succ_of_ne_zero (by have := ih.registered.issued; omega)
    obtain ⟨more, hmore⟩ := ih.perform ho hv hwrites hdone
    refine ⟨edits ++ more, ?_⟩
    rw [List.foldl_append]
    exact hmore

/-! ## Replays -/

/-- It is handed what brings it up to date, and registers. -/
theorem subscribeWithReplay (h : v.Abreast none t s w) (ht : w.network.table? v.node = some t) (depth : Nat) :
    ∃ i, v.Abreast (some i) t (t.view.replay.foldl (fun kept e => v.hear t.view e kept) s)
      (w.subscribeWithReplay (dispatch o (depth + 1)) v.node v.id).1 := by
  have hhanded (events : List Event) (w : World ω) (s : σ) (h : v.Abreast none t s w) :
      v.Abreast none t (events.foldl (fun kept e => v.hear t.view e kept) s)
        (events.foldl (fun w e => (dispatch o (depth + 1)).inform w v.id e) w) := by
    induction events generalizing w s with
    | nil => exact h
    | cons e events ih => exact ih _ _ (h.onEvent ho hv depth e)
  rw [World.subscribeWithReplay, h.orderly.ordered.view?_of_table? ht]
  exact ⟨_, (hhanded t.view.replay _ s (h.hold v.node)).subscribe.release v.node⟩

end Abreast

end Spectator

end LiveTables
