import LiveTables.Proofs.Network.Reachable
import LiveTables.Proofs.Observer.Spectator

/-!
# One of a crowd, and a table by itself

In a network a table announces its events to those who are registered. If the table is held, and no joined table
listens to it, then one of a crowd that is registered once hears of every edit what a listener by itself hears of a
table by itself, whoever else is registered (`World.foldl_edit_crowd`). So what is proved of `Table.feed` holds of
listeners in a network.
-/

namespace LiveTables

open Network

variable {ω σ : Type} {node : Nat → Nat} {hear : TableView → Event → σ → σ} {net : Network} {w : World (Nat → σ)}
  {n id count : Nat} {t t' : Table} {view : TableView} {s : Table × σ} {d : Dispatch (Nat → σ)}

namespace Network

/-- A table that is held, to which an observer listens by some number of registrations, and no joined table does. -/
structure Hosts (net : Network) (n id count : Nat) (t : Table) : Prop where
  ordered : net.Ordered
  table : net.table? n = some t
  held : n ∈ net.held
  plain : ∀ x ∈ net.entries n, ∀ K s, x.2 ≠ .join K s
  count : (net.entries n).countP (fun x => x.2 = .observer id) = count

/-- What is held lives. -/
theorem mem_living_of_held {held wanted : List Nat} {nodes : List Node} {x : Node} (hx : x ∈ nodes)
    (hheld : x.id ∈ held) : x ∈ living held nodes wanted := by
  induction nodes generalizing wanted with
  | nil => exact absurd hx List.not_mem_nil
  | cons y older ih =>
    rw [living]
    rcases List.mem_cons.1 hx with rfl | hx
    · rw [if_pos (.inl hheld)]
      exact List.mem_cons_self
    · split_ifs
      · exact List.mem_cons_of_mem _ (ih hx)
      · exact ih hx

namespace Hosts

theorem view? (h : net.Hosts n id count t) : net.view? n = some t.view := h.ordered.view?_of_table? h.table

theorem setContent (h : net.Hosts n id count t) (t' : Table) :
    (net.setContent n (.stored t')).Hosts n id count t' where
  ordered := h.ordered.setTable h.table
  table := by
    rw [table?_eq_some_iff]
    exact content?_setContent_self (by simp [content?_of_table? h.table])
  held := h.held
  plain := by
    rw [entries, subject_setContent]
    exact h.plain
  count := by
    rw [entries, subject_setContent]
    exact h.count

theorem sweep (h : net.Hosts n id count t) : net.sweep.Hosts n id count t := by
  have hordered := h.ordered.sweep
  rcases sweep_cases net with heq | heq
  · rwa [heq]
  rw [heq] at hordered ⊢
  obtain ⟨x, hx, hcontent⟩ := content?_eq_some_iff.1 (content?_of_table? h.table)
  obtain ⟨hmem, rfl⟩ := node?_eq_some hx
  have hlives : x ∈ net.survivors := mem_living_of_held hmem h.held
  have htable : (net.restrict net.survivors).content? x.id = some (.stored t) :=
    hcontent ▸ hordered.content?_restrict hlives
  have hentries : (net.restrict net.survivors).entries x.id = net.entries x.id := by
    rw [entries, subject_restrict h.ordered survivors_sublist (by simp [htable])]
    refine List.filter_eq_self.2 fun e he => ?_
    rcases hl : e.2 with ⟨K, s⟩ | _ | _
    · exact absurd hl (h.plain e he K s)
    · rfl
    · rfl
  exact
    { ordered := hordered
      table := table?_eq_some_iff.2 htable
      held := h.held
      plain := hentries ▸ h.plain
      count := hentries ▸ h.count }

theorem hold (h : net.Hosts n id count t) : (net.hold n).Hosts n id count t :=
  ⟨h.ordered.hold, h.table, List.mem_cons_self, h.plain, h.count⟩

/-- A hold is given back while there is another one. -/
theorem release {held : List Nat} (h : net.Hosts n id count t) (hheld : net.held = n :: held) (hn : n ∈ held) :
    (net.release n).Hosts n id count t := by
  have hlet : Hosts { net with held := net.held.erase n } n id count t :=
    { ordered := ⟨h.ordered.descending, h.ordered.bounded, h.ordered.sources⟩
      table := h.table
      held := by
        rw [hheld, List.erase_cons_head]
        exact hn
      plain := h.plain
      count := h.count }
  exact hlet.sweep

/-- The observer registers. -/
theorem subscribe (h : net.Hosts n id count t) :
    (net.subscribe n .events (.observer id)).1.Hosts n id (count + 1) t := by
  have hentries : (net.subscribe n .events (.observer id)).1.entries n =
      net.entries n ++ [((net.subject n .events).nextId, .observer id)] := by
    rw [entries, subject_subscribe, if_pos ⟨rfl, by simp [content?_of_table? h.table]⟩]
    rfl
  constructor
  case ordered => exact h.ordered.subscribe _ _
  case table =>
    rw [table?_eq_some_iff, content?_subscribe]
    exact content?_of_table? h.table
  case held => exact h.held
  case plain =>
    rw [hentries]
    exact List.forall_mem_append.2 ⟨h.plain, by simp⟩
  case count =>
    rw [hentries, List.countP_append, h.count]
    simp

end Hosts

end Network

namespace World

open Network

/-! ### Announcements -/

/-- Those who are registered hear an event, one after the other. -/
theorem deliver_crowd {todo : List (Nat × Listener)} (e : Event) (hview : w.network.view? n = some view)
    (hnode : node id = n) (hplain : ∀ x ∈ todo, ∀ K s, x.2 ≠ .join K s)
    (hthere : ∀ x ∈ todo, (w.network.subject n .events).contains x.1 = true) :
    let w' := todo.foldl (fun w x => if (w.network.subject n .events).contains x.1 then
      respond (crowd node hear) d (.event e) w x.2 else w) w
    w'.network = w.network ∧
      w'.outside id = (hear view e)^[todo.countP fun x => x.2 = .observer id] (w.outside id) := by
  induction todo generalizing w with
  | nil => exact ⟨rfl, rfl⟩
  | cons x todo ih =>
    obtain ⟨hfirst, hthere⟩ := List.forall_mem_cons.1 hthere
    obtain ⟨hjoin, hplain⟩ := List.forall_mem_cons.1 hplain
    rw [List.foldl_cons, if_pos hfirst, List.countP_cons]
    rcases hl : x.2 with ⟨K, s⟩ | id' | ⟨id', column⟩
    · exact absurd hl (hjoin K s)
    · -- an observer hears the event, and the network stays as it is
      have hnetwork : (respond (crowd node hear) d (.event e) w (.observer id')).network = w.network :=
        network_crowd d w id' e
      have hrest := @ih (respond (crowd node hear) d (.event e) w (.observer id')) (hnetwork ▸ hview) hplain
        (hnetwork ▸ hthere)
      rw [hnetwork] at hrest
      refine ⟨hrest.1, hrest.2.trans ?_⟩
      by_cases hid : id' = id
      · subst hid
        have hheard : (respond (crowd node hear) d (.event e) w (.observer id')).outside id' =
            hear view e (w.outside id') := by
          simp only [respond, crowd, hnode, hview, Function.update_self]
        simp only [hheard, decide_true, if_true, Function.iterate_succ_apply]
      · have hother : (respond (crowd node hear) d (.event e) w (.observer id')).outside id = w.outside id := by
          simp only [respond, crowd]
          split
          · rfl
          · exact Function.update_of_ne (Ne.symm hid) _ _
        simp [hother, hid]
    · have hsame : respond (crowd node hear) d (.event e) w (.cells id' column) = w := by
        simp only [respond, crowd, ite_self]
      rw [hsame]
      simpa using ih hview hplain hthere

/-- A crowd does not listen to the writes of columns. -/
theorem announce_cell_crowd (depth : Nat) (w : World (Nat → σ)) (n : Nat) (column : String) (row : Nat) :
    (dispatch (crowd node hear) depth).announce w n (.cell column row) = w := by
  cases depth with
  | zero => rfl
  | succ depth =>
    show Subject.deliver _ _ w = w
    rw [Subject.deliver]
    generalize Subject.entries _ = todo
    induction todo with
    | nil => rfl
    | cons x todo ih =>
      have hsame : respond (crowd node hear) (dispatch (crowd node hear) depth) (.cell column row) w x.2 = w := by
        cases x.2 <;> rfl
      rw [List.foldl_cons, hsame, ite_self, ih]

/-- Signals are announced one after the other, while the table stays as it is. -/
theorem announce_crowd (hear : TableView → Event → σ → σ) (h : w.network.Hosts n id 1 t) (hnode : node id = n)
    (depth : Nat) (signals : List Signal) :
    let w' := signals.foldl (fun w s => (dispatch (crowd node hear) (depth + 1)).announce w n s) w
    w'.network = w.network ∧
      w'.outside id = (Table.eventsOf signals).foldl (fun kept e => hear t.view e kept) (w.outside id) := by
  induction signals generalizing w with
  | nil => exact ⟨rfl, rfl⟩
  | cons signal signals ih =>
    rw [List.foldl_cons]
    cases signal with
    | cell column row =>
      rw [announce_cell_crowd]
      exact ih h
    | event e =>
      obtain ⟨hnetwork, hheard⟩ := deliver_crowd (d := dispatch (crowd node hear) depth) e h.view? hnode h.plain
        fun x hx => (Subject.contains_iff _ _).2 (List.mem_map_of_mem hx)
      have hrest := @ih ((dispatch (crowd node hear) (depth + 1)).announce w n (.event e))
        (show Hosts _ n id 1 t from hnetwork ▸ h)
      have honce : ((dispatch (crowd node hear) (depth + 1)).announce w n (.event e)).outside id =
          hear t.view e (w.outside id) := by
        refine hheard.trans ?_
        rw [h.count, Function.iterate_one]
      refine ⟨hrest.1.trans hnetwork, hrest.2.trans ?_⟩
      rw [honce]
      rfl

/-- Another table is put in the place of one, and its signals are announced. -/
theorem commit_crowd (h : w.network.Hosts n id 1 t) (hnode : node id = n) (depth : Nat) (t' : Table)
    (signals : List Signal) :
    let w' := w.commit (dispatch (crowd node hear) (depth + 1)) n t' signals
    w'.network.Hosts n id 1 t' ∧
      w'.outside id = (Table.eventsOf signals).foldl (fun kept e => hear t'.view e kept) (w.outside id) := by
  intro w'
  let set := (w.modifyNetwork (·.hold n)).modifyNetwork (·.setContent n (.stored t'))
  have hset : set.network.Hosts n id 1 t' := h.hold.setContent t'
  obtain ⟨hnetwork, hheard⟩ := announce_crowd hear hset hnode depth signals
  have hnow : w'.network = ((w.network.hold n).setContent n (.stored t')).release n :=
    congrArg (·.release n) hnetwork
  rw [hnow]
  exact ⟨hset.release rfl h.held, hheard⟩

/-- The observer is handed what brings it up to date, and registers. -/
theorem subscribeWithReplay_crowd (h : w.network.Hosts n id 0 t) (hnode : node id = n) (depth : Nat) :
    let w' := (w.subscribeWithReplay (dispatch (crowd node hear) (depth + 1)) n id).1
    w'.network.Hosts n id 1 t ∧
      w'.outside id = t.view.replay.foldl (fun kept e => hear t.view e kept) (w.outside id) := by
  have hinform (events : List Event) (w : World (Nat → σ)) (h : w.network.Hosts n id 0 t) :
      let w' := events.foldl (fun w e => (dispatch (crowd node hear) (depth + 1)).inform w id e) w
      w'.network = w.network ∧
        w'.outside id = events.foldl (fun kept e => hear t.view e kept) (w.outside id) := by
    induction events generalizing w with
    | nil => exact ⟨rfl, rfl⟩
    | cons e events ih =>
      have hnetwork : ((dispatch (crowd node hear) (depth + 1)).inform w id e).network = w.network :=
        network_crowd (dispatch (crowd node hear) depth) w id e
      have hheard : ((dispatch (crowd node hear) (depth + 1)).inform w id e).outside id =
          hear t.view e (w.outside id) := by
        simp only [dispatch, crowd, hnode, h.view?, Function.update_self]
      obtain ⟨hsame, hrest⟩ := ih _ (show Hosts _ n id 0 t from hnetwork ▸ h)
      rw [hheard] at hrest
      exact ⟨hsame.trans hnetwork, hrest⟩
  intro w'
  obtain ⟨hnetwork, hheard⟩ := hinform t.view.replay (w.modifyNetwork (·.hold n)) h.hold
  have hnow : w'.network = ((w.network.hold n).subscribe n .events (.observer id)).1.release n := by
    simp only [w', subscribeWithReplay, h.view?, World.subscribe, hnetwork]
    rfl
  have houtside : w'.outside id = t.view.replay.foldl (fun kept e => hear t.view e kept) (w.outside id) := by
    simp only [w', subscribeWithReplay, h.view?, World.subscribe]
    exact hheard
  rw [hnow]
  exact ⟨h.hold.subscribe.release rfl h.held, houtside⟩

end World

/-! ### Calls -/

namespace World

/-- The world after an edit. A call that fails changes nothing. -/
def edit (o : Outside ω) (depth n : Nat) (w : World ω) (e : Table.Edit) : World ω :=
  ((e.call n).perform (dispatch o depth) w).getD w

/-- A call that may fail puts another table in the place of one, or leaves it as it is. -/
theorem commit_crowd_of_result (hear : TableView → Event → σ → σ) (h : w.network.Hosts n id 1 t)
    (hnode : node id = n) (depth : Nat) {result : Table × Except TableError (List Signal)}
    (hrefused : ∀ t' e, result = (t', .error e) → t' = t) :
    let w' := ((accepted? result).map fun done =>
      w.commit (dispatch (crowd node hear) (depth + 1)) n done.1 done.2).getD w
    let now := (result.1, result.2.toOption.getD [])
    w'.network.Hosts n id 1 now.1 ∧
      w'.outside id = (Table.eventsOf now.2).foldl (fun kept e => hear now.1.view e kept) (w.outside id) := by
  rcases result with ⟨t', error | signals⟩
  · obtain rfl := hrefused t' error rfl
    exact ⟨h, rfl⟩
  · exact commit_crowd h hnode depth t' signals

/-- One of a crowd hears of an edit what a listener by itself hears of it. -/
theorem edit_crowd (hear : TableView → Event → σ → σ) (h : w.network.Hosts n id 1 t) (hnode : node id = n)
    (hformed : t.WellFormed) (depth : Nat) (e : Table.Edit) :
    let w' := w.edit (crowd node hear) (depth + 1) n e
    let now := Table.feed hear (t, w.outside id) e
    w'.network.Hosts n id 1 now.1 ∧ w'.outside id = now.2 := by
  cases e with
  | addRow =>
    simp only [edit, Table.Edit.call, Call.perform, h.table]
    exact commit_crowd h hnode depth _ _
  | setValue column row value =>
    have hrefused : ∀ t' e, t.setValue column row value = (t', .error e) → t' = t :=
      fun _ _ => hformed.setValue_of_error
    have hdone := commit_crowd_of_result hear h hnode depth hrefused
    simp only [edit, Table.Edit.call, Call.perform, h.table, Option.bind_eq_bind, Option.bind_some, Table.feed,
      Table.perform]
    rcases hresult : t.setValue column row value with ⟨t', error | signals⟩ <;> rw [hresult] at hdone
    · exact hdone
    · exact hdone
  | deleteRow row =>
    have hrefused : ∀ t' e, t.deleteRow row = (t', .error e) → t' = t := fun _ _ => Table.deleteRow_of_error
    have hdone := commit_crowd_of_result hear h hnode depth hrefused
    simp only [edit, Table.Edit.call, Call.perform, h.table, Option.bind_eq_bind, Option.bind_some, Table.feed,
      Table.perform]
    rcases hresult : t.deleteRow row with ⟨t', error | signals⟩ <;> rw [hresult] at hdone
    · exact hdone
    · exact hdone

/-- So it is with edits one after the other. -/
theorem foldl_edit_crowd (h : w.network.Hosts n id 1 t) (hnode : node id = n) (hformed : t.WellFormed) (depth : Nat)
    (edits : List Table.Edit) :
    let w' := edits.foldl (edit (crowd node hear) (depth + 1) n) w
    let now := edits.foldl (Table.feed hear) (t, w.outside id)
    w'.network.Hosts n id 1 now.1 ∧ w'.outside id = now.2 := by
  induction edits generalizing w t with
  | nil => exact ⟨h, rfl⟩
  | cons e edits ih =>
    obtain ⟨hhosts, hkept⟩ := edit_crowd hear h hnode hformed depth e
    have hrest := ih hhosts ((Table.turns_perform hformed e).wellFormed hformed)
    rw [hkept] at hrest
    exact hrest

end World

end LiveTables
