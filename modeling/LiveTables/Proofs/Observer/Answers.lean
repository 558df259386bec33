import LiveTables.Proofs.Network.Maintained
import LiveTables.Proofs.Observer.Attached

/-!
# Answers

A joined table answers each event of a source by some events of its own, which name each cell at most once
(`JoinedTable.namesOnce_tell`). What it announces on a write is one such answer after the other, one to each event
that the sources announce (`answers_name_once`). From one answer to the next a cell may be named again. It is not
if the events of the sources leave rows linked as they are, and no two of them are felt in the same cell
(`Transcript.namesOnce`).
-/

namespace LiveTables

open Network Notice World

namespace Event

/-- No two updates name the same cell. -/
def NamesOnce (es : List Event) : Prop :=
  es.Pairwise fun e e' => e.action = .update → e'.action = .update → e.row = e'.row →
    ∀ c ∈ e.columns, c ∉ e'.columns

instance (es : List Event) : Decidable (NamesOnce es) :=
  inferInstanceAs (Decidable (es.Pairwise _))

end Event

/-! ## One answer -/

namespace JoinedTable

open Event

variable {j : JoinedTable} {e : JoinEngine} {side : Side} {row k : Nat} {columns : List String}
  {changes : List JoinChange}

/-- Source columns and those that depend on them are named one after the other. -/
theorem namesOnce_tellUpdate (hvalid : j.Valid) {s : Side} (hcolumns : ∀ c ∈ columns, c ∈ j.sideIds s) :
    NamesOnce ((j.tellUpdate k columns).map (·.event)) := by
  have hplain {c : String} (hc : c ∈ columns) : c ∉ j.computed.dependentsOf columns := by
    intro hdependent
    obtain ⟨kind, hsource⟩ := hvalid.exists_column? (hcolumns c hc)
    obtain ⟨col, hcol⟩ := hvalid.registered.layered.exists_column?_of_mem hdependent
    exact absurd (hsource.symm.trans (hvalid.column?_eq_none hcol)) (by simp)
  rw [map_event_tellUpdate, updateEvents]
  refine List.pairwise_cons.2 ⟨fun e he _ _ _ c hc hc' => ?_, List.pairwise_map.2 ?_⟩
  · obtain ⟨d, hd, rfl⟩ := List.mem_map.1 he
    obtain rfl : c = d := List.mem_singleton.1 hc'
    exact hplain hc hd
  · refine hvalid.registered.layered.nodup_dependentsOf.imp fun hne _ _ _ c hc hc' => hne ?_
    exact (List.mem_singleton.1 hc).symm.trans (List.mem_singleton.1 hc')

/-- All that a joined table tells when it has heard of a source row. -/
theorem namesOnce_tell (hvalid : j.Valid) (hscript : e.EditScript j.engine side changes)
    (hsound : j.engine.Sound) (hcolumns : ∀ c ∈ columns, c ∈ j.sideIds side) :
    NamesOnce ((j.tell side row changes columns).map (·.event)) := by
  refine List.pairwise_map.2 (pairwise_tell hscript hsound (fun x y h haction _ hrow => ?_) (fun k haction => ?_)
    (fun k s => List.pairwise_map.1 (namesOnce_tellUpdate hvalid fun c hc => hc))
    fun k => List.pairwise_map.1 (namesOnce_tellUpdate hvalid hcolumns))
  · exact absurd (haction.symm.trans (h hrow)) (by simp)
  · exact absurd haction (by simp [Event.added])

end JoinedTable

/-! ## One answer after the other -/

namespace JoinedTable

variable {j : JoinedTable} {s s' : Side} {e e' : Event}

/-- An event of a side that leaves its row linked as it is. -/
def SparesKey (j : JoinedTable) (s : Side) (e : Event) : Prop := e.action = .update ∧ j.key s ∉ e.columns

/-- The columns that feel an event of a side: those that it names, and those that depend on them. -/
def feltColumns (j : JoinedTable) (s : Side) (e : Event) : List String :=
  j.plainColumns s e.columns ++ j.computed.dependentsOf (j.plainColumns s e.columns)

/-- Events of sources that leave rows linked as they are, and are not felt in the same cell. -/
def Apart (j : JoinedTable) (s : Side) (e : Event) (s' : Side) (e' : Event) : Prop :=
  j.SparesKey s e ∧ j.SparesKey s' e' ∧
    ((s = s' → e.row = e'.row) → ∀ c ∈ j.feltColumns s e, c ∉ j.feltColumns s' e')

instance : Decidable (j.SparesKey s e) := inferInstanceAs (Decidable (_ ∧ _))

instance : Decidable (j.Apart s e s' e') := inferInstanceAs (Decidable (_ ∧ _ ∧ _))

theorem Apart.symm (h : j.Apart s e s' e') : j.Apart s' e' s e :=
  ⟨h.2.1, h.1, fun hrow c hc hc' => h.2.2 (fun heq => (hrow heq.symm).symm) c hc' hc⟩

end JoinedTable

/-- An event of a side that a joined table heard, and what it told then. -/
structure JoinAnswer where
  side : Side
  event : Event
  told : List Event

/-- What is told is felt in the rows where the row of the event stands. -/
def JoinAnswer.Within (j : JoinedTable) (engine : JoinEngine) (a : JoinAnswer) : Prop :=
  ∀ e ∈ a.told, engine.sourceRow? a.side e.row = some a.event.row ∧
    ∀ c ∈ e.columns, c ∈ j.feltColumns a.side a.event

/-- The answers of a joined table up to now. As long as rows are left linked as they are, so is the engine. -/
structure Transcript (j : JoinedTable) (engine : JoinEngine) (answers : List JoinAnswer) : Prop where
  once : ∀ a ∈ answers, Event.NamesOnce a.told
  within : (∀ a ∈ answers, j.SparesKey a.side a.event) → ∀ a ∈ answers, a.Within j engine

namespace Transcript

variable {j : JoinedTable} {engine engine' : JoinEngine} {answers : List JoinAnswer} {a : JoinAnswer}

theorem concat (h : Transcript j engine answers) (honce : Event.NamesOnce a.told)
    (hspares : j.SparesKey a.side a.event → engine' = engine ∧ a.Within j engine) :
    Transcript j engine' (answers ++ [a]) where
  once b hb := by
    rcases List.mem_append.1 hb with hb | hb
    · exact h.once b hb
    · rw [List.mem_singleton.1 hb]
      exact honce
  within hall b hb := by
    obtain ⟨rfl, hwithin⟩ := hspares (hall a (List.mem_append_right _ (List.mem_singleton_self a)))
    rcases List.mem_append.1 hb with hb | hb
    · exact h.within (fun b hb => hall b (List.mem_append_left _ hb)) b hb
    · rw [List.mem_singleton.1 hb]
      exact hwithin

/-- If what is answered is felt in different cells, no cell is named twice. -/
theorem namesOnce (h : Transcript j engine answers)
    (hapart : answers.Pairwise fun a b => j.Apart a.side a.event b.side b.event) :
    Event.NamesOnce (answers.flatMap (·.told)) := by
  refine List.pairwise_flatMap.2 ⟨h.once, ?_⟩
  rcases answers with - | ⟨a, - | ⟨b, answers⟩⟩
  · exact .nil
  · exact List.pairwise_singleton _ _
  · -- each of them is one of a pair
    have hspares : ∀ x ∈ a :: b :: answers, j.SparesKey x.side x.event := by
      have hfirst := (List.pairwise_cons.1 hapart).1
      intro x hx
      rcases List.mem_cons.1 hx with rfl | hx
      · exact (hfirst b List.mem_cons_self).1
      · exact (hfirst x hx).2.1
    have hwithin := h.within hspares
    -- a row that is named in two answers stands on the rows of both events
    refine hapart.imp_of_mem fun {x y} hx hy hxy e he e' he' _ _ hrow c hc hc' => ?_
    obtain ⟨hstands, hfelt⟩ := hwithin x hx e he
    obtain ⟨hstands', hfelt'⟩ := hwithin y hy e' he'
    refine hxy.2.2 (fun hside => ?_) c (hfelt c hc) (hfelt' c hc')
    rw [hside, hrow] at hstands
    exact Option.some.inj (hstands.symm.trans hstands')

/-- It is enough to look at the events of each side, and at those of one side and the other. -/
theorem pairwise_of_sides {R : JoinAnswer → JoinAnswer → Prop} (hsame : ∀ s, (answers.filter (·.side = s)).Pairwise R)
    (hother : ∀ a ∈ answers, ∀ b ∈ answers, a.side ≠ b.side → R a b) : answers.Pairwise R := by
  induction answers with
  | nil => exact .nil
  | cons a answers ih =>
    refine List.pairwise_cons.2 ⟨fun b hb => ?_, ih (fun s => ?_) fun x hx y hy => ?_⟩
    · by_cases hside : b.side = a.side
      · have hmine := hsame a.side
        rw [List.filter_cons_of_pos (by simp)] at hmine
        exact (List.pairwise_cons.1 hmine).1 b (List.mem_filter.2 ⟨hb, by simpa using hside⟩)
      · exact hother a List.mem_cons_self b (List.mem_cons_of_mem _ hb) (Ne.symm hside)
    · exact (hsame s).sublist ((List.sublist_cons_self a answers).filter _)
    · exact hother x (List.mem_cons_of_mem _ hx) y (List.mem_cons_of_mem _ hy)

end Transcript

namespace Network

/-- What a joined table has told so far are answers, and what the spectators of its sources have heard, or have
still to hear, was answered, or waits to be. Of the spectators, that of the table is called `none`. -/
structure Answered (node : Option Side → Nat) (j : JoinedTable) (net : Network) (Q : Queues)
    (L : Option Side → Account) (R : Option Side → List Notice) : Prop where
  sources : ∀ s, j.source s = node (some s)
  answers : ∃ engine answers, net.joined? (node none) = some (j.withEngine engine) ∧
    Transcript j engine answers ∧ (L none).events ++ (R none).map (·.event) = answers.flatMap (·.told) ∧
      ∀ s, (answers.filter (·.side = s)).map (·.event) ++ (Q (node none) s).map (·.event) =
        (L (some s)).events ++ (R (some s)).map (·.event)

namespace Answered

variable {node : Option Side → Nat} {net net' : Network} {Q Q' : Queues} {n₀ m : Nat} {L : Option Side → Account}
  {R : Option Side → List Notice} {E : List Notice} {j j' : JoinedTable} {side : Side} {y x : Notice}
  {rest : List Notice} {engine : JoinEngine} {changes : List JoinChange} {columns : List String}

/-- The table is there. -/
theorem joined (h : Answered node j net Q L R) :
    ∃ j', net.joined? (node none) = some j' ∧ ∀ s, j'.source s = node (some s) := by
  obtain ⟨engine, answers, hj, -⟩ := h.answers
  exact ⟨_, hj, h.sources⟩

/-- The table is there as before, and the same waits. -/
theorem congr (h : Answered node j net Q L R) (hjoined : net'.joined? (node none) = net.joined? (node none))
    (hQ : ∀ s, Q' (node none) s = Q (node none) s) : Answered node j net' Q' L R where
  sources := h.sources
  answers := by
    simp only [hQ, hjoined]
    exact h.answers

/-- Another table takes a step, and tells what the spectators of it have then to hear. -/
theorem advance (h : Answered node j net Q L R) (ha : Advance net Q net' Q' m E) (hm : node none ≠ m)
    (hsilent : ∀ p, Reaches net m (node p) → R p = []) :
    Answered node j net' Q' L fun p => if node p = m then E else R p := by
  obtain ⟨engine, answers, hj, htranscript, htold, hheard⟩ := h.answers
  refine ⟨h.sources, engine, answers, (ha.joined? hm).trans hj, htranscript, ?_, fun s => ?_⟩
  · rwa [if_neg hm]
  · have hsource := h.sources s
    by_cases hs : node (some s) = m
    · -- the table is a source: what it tells waits, and waits to be heard
      have hempty := hheard s
      rw [hsilent (some s) (hs ▸ .refl), ha.above (node none) _ s hj (by rw [← hs, ← hsource]; exact .refl),
        List.map_nil, List.append_nil, List.append_nil] at hempty
      rw [if_pos hs, ha.queue_source hj hm (hsource.trans hs), hempty]
    · rw [if_neg hs, ha.queue_other hj hm fun heq => hs (hsource.symm.trans heq)]
      exact hheard s

/-- An event that leaves its row linked as it is leaves the engine as it is, and what is told is felt where the
row stands. -/
theorem within (hh : Hearing net n₀ Q m j' side y rest engine changes columns)
    (hspares : j'.SparesKey side y.event) : engine = j'.engine ∧
      JoinAnswer.Within j' j'.engine ⟨side, y.event, hh.told.map (·.event)⟩ := by
  -- there are no changes, so that all that is told is the rest
  obtain ⟨rfl, rfl⟩ := hh.idle hspares.1 hspares.2
  refine ⟨rfl, fun e he => ?_⟩
  obtain ⟨x, hx, rfl⟩ := List.mem_map.1 he
  have hrest : x ∈ hh.table.tellRest side y.event.row columns [] := hx
  obtain ⟨-, k, hk, -, hx⟩ := JoinedTable.of_mem_tellRest hrest
  have hplain : columns ⊆ j'.plainColumns side y.event.columns := fun c hc =>
    JoinedTable.mem_plainColumns.2 (hh.plain c hc)
  refine ⟨?_, fun c hc => ?_⟩
  · rw [(JoinedTable.of_mem_tellUpdate hx).2]
    exact (JoinedTable.mem_joinedRowsOf hh.outcome.sound).1 hk
  · rw [JoinedTable.feltColumns, List.mem_append]
    rcases JoinedTable.mem_tellUpdate.1 hx with rfl | ⟨d, hd, rfl⟩
    · exact .inl (hplain hc)
    · obtain rfl := List.mem_singleton.1 hc
      exact .inr (j'.computed.dependentsOf_subset hplain hd)

/-- The table hears a notice, and answers. -/
theorem hear (h : Answered node j net Q L R)
    (hh : Hearing net n₀ Q (node none) j' side y rest engine changes columns) (hsilent : R none = []) :
    Answered node j hh.after hh.queues L fun p => if node p = node none then hh.told else R p := by
  obtain ⟨engine₀, answers, hj, htranscript, htold, hheard⟩ := h.answers
  obtain rfl := Option.some.inj (hj.symm.trans hh.joined)
  rw [hsilent, List.map_nil, List.append_nil] at htold
  have honce : Event.NamesOnce (hh.told.map (·.event)) :=
    JoinedTable.namesOnce_tell hh.valid_table hh.outcome.script hh.outcome.sound fun c hc => (hh.plain c hc).1
  let answer : JoinAnswer := ⟨side, y.event, hh.told.map (·.event)⟩
  have htranscript' : Transcript j engine (answers ++ [answer]) :=
    htranscript.concat honce fun hspares => within hh hspares
  refine ⟨h.sources, engine, answers ++ [answer], hh.joined_after, htranscript', ?_, fun s => ?_⟩
  · rw [if_pos rfl, htold, List.flatMap_append, List.flatMap_singleton]
  · have hbelow : node (some s) ≠ node none :=
      h.sources s ▸ Nat.ne_of_lt (hh.ordered.source hh.joined s).1
    rw [if_neg hbelow, ← hheard s, List.filter_append, List.map_append]
    -- on this side the event is answered that waited first, on the other side nothing is
    rcases Side.eq_or_eq_other s side with rfl | rfl
    · rw [hh.queues_self, hh.queue]
      simp [answer]
    · rw [hh.queues_other]
      simp [answer, side.other_ne.symm]

/-- A notice is heard by one of the spectators. -/
theorem listen (h : Answered node j net Q L R) {p : Option Side} (hR : R p = x :: E) (view : TableView) :
    Answered node j net Q (Function.update L p (L p ++ [(view, x.event)])) (Function.update R p E) where
  sources := h.sources
  answers := by
    obtain ⟨engine, answers, hj, htranscript, htold, hheard⟩ := h.answers
    -- what was still to be heard moves over
    have hmoves (q : Option Side) : (Function.update L p (L p ++ [(view, x.event)]) q).events ++
        (Function.update R p E q).map (·.event) = (L q).events ++ (R q).map (·.event) := by
      by_cases hq : q = p
      · subst hq
        simp [Account.events, hR]
      · rw [Function.update_of_ne hq, Function.update_of_ne hq]
    exact ⟨engine, answers, hj, htranscript, (hmoves none).trans htold,
      fun s => (hheard s).trans (hmoves (some s)).symm⟩

end Answered

/-- To keep track of answers. -/
def answersLedger (node : Option Side → Nat) (j : JoinedTable) : Ledger node where
  Holds := Answered node j
  first := none
  present hwave h p := by
    obtain ⟨j', hj, hsource⟩ := h.joined
    cases p with
    | none => simp [content?_of_joined? hj]
    | some s =>
      rw [← hsource s]
      exact (hwave.formed.ordered.source hj s).2
  requeue _ h hQ := by
    obtain ⟨j', hj, -⟩ := h.joined
    exact h.congr rfl fun s => hQ _ j' s hj
  outlasts hwave h houtlasts hn := by
    obtain ⟨j', hj, -⟩ := h.joined
    refine h.congr ((houtlasts.agree hwave.formed.ordered).joined? ⟨hn, ?_⟩) fun _ => rfl
    exact hwave.formed.ordered.lt_nextId (by simp [content?_of_joined? hj])
  listen _ h hR := h.listen hR _
  hear {_ _ m _ _ _ _ _ _ _ _ _ _} hh h hsilent := by
    by_cases hm : node none = m
    · subst hm
      exact h.hear hh (hsilent none .refl)
    · exact h.advance hh.advance hm hsilent
  write _ ht ha h hsilent := by
    refine h.advance ha (fun hm => ?_) hsilent
    obtain ⟨j', hj, -⟩ := h.joined
    rw [hm, joined?_eq_none_of_table? ht] at hj
    exact absurd hj (by simp)

end Network

/-- What is heard of a joined table on a write are answers, each of which names a cell at most once, one to each
event that is heard of the sources. No cell is named twice if the events of the sources leave rows linked as
they are, and no two of them are felt in the same cell, as when the sources announce but one event. -/
theorem answers_name_once {ω : Type} {o : Outside ω} {v : Option Side → Spectator ω Account} {w w' : World ω}
    {i : Option Side → Nat} {depth : Nat} {call : Call} {j : JoinedTable} (ho : o.Quiet)
    (hv : ∀ p, (v p).Attends o) (hid : Function.Injective fun p => (v p).id)
    (hhear : ∀ p, (v p).hear = Account.record) (h : Reachable o w)
    (hj : w.network.joined? (v none).node = some j) (hsources : ∀ s, (v (some s)).node = j.source s)
    (hregistered : ∀ p, (v p).At (some (i p)) w.network) (hdeep : w.network.nextId ≤ depth)
    (hwrites : call.Writes) (hdone : call.perform (dispatch o depth) w = some w')
    (hexists : w'.network.content? (v none).node ≠ none) :
    ∃ (heard : Option Side → Account) (answers : List JoinAnswer),
      (∀ p, (v p).mine w'.outside = (v p).mine w.outside ++ heard p) ∧
      (heard none).events = answers.flatMap (·.told) ∧
      (∀ s, (answers.filter (·.side = s)).map (·.event) = (heard (some s)).events) ∧
      (∀ a ∈ answers, Event.NamesOnce a.told) ∧
      ((∀ s, (heard (some s)).events.Pairwise fun e e' => j.Apart s e s e') →
        (∀ e ∈ (heard (some .left)).events, ∀ e' ∈ (heard (some .right)).events, j.Apart .left e .right e') →
        Event.NamesOnce (heard none).events) := by
  have hstart : Answered (fun p => (v p).node) j w.network silent (fun _ => []) fun _ => [] :=
    ⟨fun s => (hsources s).symm, j.engine, [], hj, ⟨by simp, by simp⟩, rfl, fun _ => rfl⟩
  obtain ⟨-, heard, hmine, -, engine, answers, -, htranscript, htold, hheard⟩ :=
    Ledger.exists_heard (b := answersLedger (fun p => (v p).node) j) ho hv hid hhear (h.settled ho) hregistered
      hdeep hwrites hdone hstart hexists
  have htold : (heard none).events = answers.flatMap (·.told) := by simpa using htold
  have hheard (s : Side) : (answers.filter (·.side = s)).map (·.event) = (heard (some s)).events := by
    simpa [silent] using hheard s
  refine ⟨heard, answers, hmine, htold, hheard, htranscript.once, fun hsame hother => ?_⟩
  rw [htold]
  have hmem {a : JoinAnswer} (ha : a ∈ answers) : a.event ∈ (heard (some a.side)).events := by
    rw [← hheard]
    exact List.mem_map_of_mem (List.mem_filter.2 ⟨ha, by simp⟩)
  refine htranscript.namesOnce (Transcript.pairwise_of_sides (fun s => ?_) fun a ha b hb hne => ?_)
  · have hside := hsame s
    rw [← hheard, List.pairwise_map] at hside
    refine hside.imp_of_mem fun {a b} ha hb hab => ?_
    obtain rfl : a.side = s := by simpa using (List.mem_filter.1 ha).2
    rwa [show b.side = a.side by simpa using (List.mem_filter.1 hb).2]
  · have ha := hmem ha
    have hb := hmem hb
    cases hleft : a.side <;> cases hright : b.side <;> rw [hleft] at ha hne <;> rw [hright] at hb hne
    · exact absurd rfl hne
    · exact hother _ ha _ hb
    · exact (hother _ hb _ ha).symm
    · exact absurd rfl hne

/-! ## A key that is computed

Two tables are joined on a column of the first one, and the cell of another column is written, from which a third
one is computed. Both tables and the join are recorded. The sources announce two events. They are apart if the key
has nothing to do with the cell; if it is what is computed, the second one moves the row, and the first column is
told again.
-/

namespace Keys

/-- A table with a key that is not written. -/
def keyed : Schema where
  name := "l"
  columns := [{ id := "k", kind := .int32 }, { id := "a", kind := .int32 }]
  nodup := by simp
  kind_default := by simp; exact ⟨rfl, rfl⟩

/-- Each table gets a row, and the tables are joined. -/
def calls (key : String) : List Call :=
  [.addComputed 0 (Chain.copy "p"), .addRow 0, .addRow 1,
    .join 0 1 { kind := .rightOuter, leftKey := key, rightKey := "rk" }]

/-- The cell is written. -/
def write : Call := .setValue 0 "a" 0 (.int32 1)

theorem writes_write : write.Writes := trivial

/-- Those who record the tables. -/
def recorderOf (p : Option Side) : Spectator (Nat → Account) Account :=
  recorder (match p with | none => 2 | some .left => 0 | some .right => 1)

theorem injective_recorderOf : Function.Injective fun p => (recorderOf p).id := by
  intro p q hid
  rcases p with - | - | - <;> rcases q with - | - | -
  all_goals first | rfl | exact absurd hid (by decide)

/-- The world before the cell is written. -/
def recorded? (left : Schema) (key : String) : Option (World (Nat → Account)) := do
  let tables := Chain.withTable (Chain.withTable {} left) (Chain.schema "r" "rk")
  let joined ← Call.performAll recorders 3 { network := tables, outside := fun _ => [] } (calls key)
  let w : World (Nat → Account) := { network := joined.network.hold 2, outside := fun _ => [] }
  return [0, 1, 2].foldl (fun w n => (w.subscribe n n).1) w

theorem reachable_recorded {left : Schema} {key : String} {w : World (Nat → Account)}
    (h : recorded? left key = some w) : Reachable recorders w := by
  simp only [recorded?, Option.bind_eq_bind, Option.bind_eq_some_iff] at h
  obtain ⟨joined, hcalls, heq⟩ := h
  obtain rfl := Option.some.inj heq
  have htables : Network.Quietly {} (Chain.withTable (Chain.withTable {} left) (Chain.schema "r" "rk")) :=
    .hold (.insert _ (.hold (.insert _ .refl)))
  have hlawful : ∀ call ∈ calls key, ∀ net, call.Lawful net := by
    intro call hcall net
    simp only [calls, List.mem_cons, List.not_mem_nil, or_false] at hcall
    rcases hcall with rfl | rfl | rfl | rfl
    · exact fun _ _ => Chain.lawful_copy "p" _
    · trivial
    · trivial
    · intro c kind
      cases kind <;> rfl
  have hjoined := Reachable.performAll (.quietly (.start fun _ => []) htables) hlawful hcalls
  have hsubscribe {w : World (Nat → Account)} (h : Reachable recorders w) (n : Nat) :
      Reachable recorders (w.subscribe n n).1 := .quietly h (quietly_subscribe w n n)
  exact hsubscribe (hsubscribe (hsubscribe (.quietly hjoined (.hold .refl)) 0) 1) 2

/-- What is to be found when the key is not written: the tables are recorded, nothing was heard, and the events
that are heard then of the first table are apart. -/
def found (w w' : World (Nat → Account)) : Bool :=
  w.network.nextId = 3 && (w'.network.joined? 2).isSome && (recorderOf none).isAt (some 1) w.network &&
    [Side.left, .right].all (fun s => (recorderOf (some s)).isAt (some 2) w.network) &&
    [0, 1, 2].all (fun n => (w.outside n).isEmpty) && (w'.outside 1).isEmpty &&
    (w'.outside 0).events = [.updated 0 ["a"], .updated 0 ["p"]] &&
    (w.network.joined? 2).any fun j => j.left = 0 && j.right = 1 &&
      decide ((w'.outside 0).events.Pairwise fun e e' => j.Apart .left e .left e')

theorem exists_recorded : ∃ w w', recorded? keyed "k" = some w ∧ write.perform (dispatch recorders 3) w = some w' ∧
    found w w' = true := by
  have hall : (recorded? keyed "k").any (fun w =>
      (write.perform (dispatch recorders 3) w).any fun w' => found w w') = true := by decide +kernel
  simp only [Option.any_eq_true] at hall
  obtain ⟨w, hw, w', hw', hfound⟩ := hall
  exact ⟨w, w', hw, hw', hfound⟩

end Keys

/-- If the key is not written, both events are answered, and no cell is named twice. -/
theorem answers_name_once_keyed : ∃ (w w' : World (Nat → Account)) (answers : List JoinAnswer),
    Keys.recorded? Keys.keyed "k" = some w ∧ Keys.write.perform (dispatch recorders 3) w = some w' ∧
      (w'.outside 2).events = answers.flatMap (·.told) ∧
      (answers.filter (·.side = .left)).map (·.event) = [.updated 0 ["a"], .updated 0 ["p"]] ∧
      Event.NamesOnce (w'.outside 2).events := by
  obtain ⟨w, w', hw, hdone, hfound⟩ := Keys.exists_recorded
  simp only [Keys.found, Bool.and_eq_true, Option.any_eq_true, Option.isSome_iff_exists, decide_eq_true_eq,
    List.all_eq_true, List.isEmpty_iff] at hfound
  obtain ⟨⟨⟨⟨⟨⟨⟨hnext, j', hj'⟩, hnone⟩, hsome⟩, hsilent⟩, hright⟩, hleft⟩, j, hj, ⟨hjleft, hjright⟩,
    hapart⟩ := hfound
  have hsources (s : Side) : (Keys.recorderOf (some s)).node = j.source s := by
    cases s with
    | left => exact hjleft.symm
    | right => exact hjright.symm
  have hregistered (p : Option Side) : (Keys.recorderOf p).At (some (if p = none then 1 else 2)) w.network := by
    rcases p with - | s
    · exact .of_isAt hnone
    · exact .of_isAt (hsome s (by cases s <;> simp))
  have hexists : w'.network.content? (Keys.recorderOf none).node ≠ none := fun hn =>
    absurd (hn.symm.trans (content?_of_joined? hj')) (by simp)
  obtain ⟨heard, answers, hmine, htold, hheard, -, honce⟩ := answers_name_once (v := Keys.recorderOf)
    quiet_recorders (fun _ => attends_recorder _) Keys.injective_recorderOf (fun _ => rfl)
    (Keys.reachable_recorded hw) hj hsources hregistered (Nat.le_of_eq hnext) Keys.writes_write hdone hexists
  have hall (p : Option Side) (n : Nat) (hn : n ∈ [0, 1, 2]) (hp : (Keys.recorderOf p).id = n) :
      w'.outside n = heard p := by
    subst hp
    exact (hmine p).trans (congrArg (· ++ heard p) (hsilent _ hn))
  have hfirst : w'.outside 0 = heard (some .left) := hall _ 0 (by simp) rfl
  have hsecond : w'.outside 1 = heard (some .right) := hall _ 1 (by simp) rfl
  have hjoin : w'.outside 2 = heard none := hall _ 2 (by simp) rfl
  refine ⟨w, w', answers, hw, hdone, hjoin ▸ htold, ?_, ?_⟩
  · rw [hheard, ← hfirst, hleft]
  · rw [hjoin]
    refine honce (fun s => ?_) ?_
    · cases s with
      | left => exact hfirst ▸ hapart
      | right =>
        rw [← hsecond, hright]
        exact .nil
    · rw [← hsecond, hright]
      exact fun _ _ _ he => absurd he List.not_mem_nil

/-- If the key is what is computed, the first column is named twice. -/
theorem not_names_once_computed : ∃ (w w' : World (Nat → Account)), Reachable recorders w ∧
    (Keys.recorderOf none).At (some 1) w.network ∧ Keys.write.perform (dispatch recorders 3) w = some w' ∧
      w.outside 2 = [] ∧ (w'.outside 2).events = [.updated 0 ["a"], .updated 0 ["a", "p"]] ∧
      ¬ Event.NamesOnce (w'.outside 2).events := by
  have hall : (Keys.recorded? (Chain.schema "l" "a") "p").any (fun w =>
      (Keys.write.perform (dispatch recorders 3) w).any fun w' =>
        (Keys.recorderOf none).isAt (some 1) w.network && (w.outside 2).isEmpty &&
          (w'.outside 2).events = [.updated 0 ["a"], .updated 0 ["a", "p"]]) = true := by decide +kernel
  simp only [Option.any_eq_true, Bool.and_eq_true, decide_eq_true_eq, List.isEmpty_iff] at hall
  obtain ⟨w, hw, w', hw', ⟨hregistered, hsilent⟩, htold⟩ := hall
  refine ⟨w, w', Keys.reachable_recorded hw, .of_isAt hregistered, hw', hsilent, htold, ?_⟩
  rw [htold]
  decide

end LiveTables
