import LiveTables.Proofs.Network.Settled
import LiveTables.Proofs.Observer.Ledger

/-!
# What follows from what was heard

Somebody who starts out with some rows of a joined table and the cells of some columns (`Outset`), and then
hears its events, has the rows that the table shows, but for what is yet to be heard; has of each column that
passes the cells that are presumed, but for what is yet to be heard, or due; and can read whatever an event asks
to be read (`Watch`). That is a ledger (`Outset.ledger`). In a settled network nothing is due and nothing waits,
so that the account determines what the table shows (`Watch.settled`).
-/

namespace LiveTables

namespace Event

/-- The cells of its row that an event asks to be read: a fresh row is read in all of some columns. -/
def Reads (columns : List String) (e : Event) (c : String) : Prop :=
  e.action = .add ∧ c ∈ columns ∨ e.action = .update ∧ c ∈ e.columns

theorem Reads.ne_delete {columns : List String} {e : Event} {c : String} (h : e.Reads columns c) :
    e.action ≠ .delete := by
  rcases h with ⟨haction, -⟩ | ⟨haction, -⟩ <;> simp [haction]

end Event

namespace Network

open Notice

/-- What somebody has of a table at the start: the columns to be read, the rows, and the classes of cells. -/
structure Outset where
  columns : List String
  rows : Finset ℕ
  class? : String → Nat → Option Value

/-- What somebody knows of a joined table who started out with `a`, has heard `L`, and has `R` still to hear. -/
structure Watch (a : Outset) (net : Network) (Q : Queues) (n : Nat) (L : Account) (R : List Notice) : Prop where
  joined : ∃ j, net.joined? n = some j
  columns : ∀ c ∈ a.columns, ∃ kind, (net.shown n).columnKind c = .ok kind
  rows : Event.replay a.rows (L.events ++ R.map (·.event)) = some (net.shown n).rows.toFinset
  known : ∀ c ∈ a.columns, Passes net n c → Known net Q n c (L.latest c (a.class? c)) R
  legible : ∀ x ∈ R, x.event.action ≠ .delete → Legible net Q n x.event.row
  named : ∀ x ∈ R, ∀ c ∈ x.event.columns, ∃ kind, (net.shown n).columnKind c = .ok kind
  read : ∀ x ∈ L, ∀ c, x.2.Reads a.columns c → ∃ v, x.1.get c x.2.row = .ok v

namespace Watch

variable {a : Outset} {net net' : Network} {Q Q' : Queues} {n n₀ m : Nat} {L : Account} {R E : List Notice}
  {x : Notice} {P : Nat → Prop} {j : JoinedTable} {side : Side} {y : Notice} {rest : List Notice}
  {engine : JoinEngine} {changes : List JoinChange} {columns : List String}

/-- Where networks and queues agree, the same is known. -/
theorem agree (h : Watch a net Q n L R) (hagree : Agree net net' P) (ho : net.Ordered) (ho' : net'.Ordered)
    (hQ : ∀ n j s, P n → net.joined? n = some j → Q' n s = Q n s) (hn : P n) : Watch a net' Q' n L R := by
  have hshown : net'.shown n = net.shown n := hagree.see ho ho' hn
  refine ⟨?_, ?_, ?_, fun c hc hpasses => ?_, fun x hx haction => ?_, ?_, h.read⟩
  · rw [hagree.joined? hn]
    exact h.joined
  · rw [hshown]
    exact h.columns
  · rw [hshown]
    exact h.rows
  · exact hagree.known ho ho' hQ hn (h.known c hc (hagree.symm.passes hn hpasses))
  · exact hagree.legible ho ho' hQ hn (h.legible x hx haction)
  · rw [hshown]
    exact h.named

theorem exists_content (h : Watch a net Q n L R) : net.content? n ≠ none := by
  obtain ⟨j, hj⟩ := h.joined
  simp [content?_of_joined? hj]

/-- A table below, or elsewhere, takes a step. -/
theorem advance (h : Watch a net Q n L R) (hwave : Wave net n₀ Q) (ha : Advance net Q net' Q' m E) (hm : n ≠ m)
    (hsilent : Reaches net m n → R = []) : Watch a net' Q' n L R := by
  have ho := hwave.formed.ordered
  have ho' := ha.formed.ordered
  by_cases hreach : Reaches net m n
  swap
  · exact h.agree ha.agree ho ho' (fun _ _ s hn _ => ha.queue_of_not_reaches hn s) hreach
  -- what the table shows may change, but not its rows and columns
  have hempty := hsilent hreach
  subst hempty
  obtain ⟨hrows, -, hkinds⟩ := ho.shown_congr ho' (ha.other n hm)
  refine ⟨?_, ?_, ?_, fun c hc hpasses => ?_, fun x hx => absurd hx List.not_mem_nil,
    fun x hx => absurd hx List.not_mem_nil, h.read⟩
  · rw [ha.joined? hm]
    exact h.joined
  · rw [hkinds]
    exact h.columns
  · rw [hrows]
    exact h.rows
  · exact ha.known_above hwave hm h.exists_content (h.known c hc (ha.passes_of_passes hpasses (.inl hm)))

/-- The table hears a notice, and tells what follows. -/
theorem hear (h : Watch a net Q n L []) (hh : Hearing net n₀ Q n j side y rest engine changes columns) :
    Watch a hh.after hh.queues n L hh.told := by
  have ho := hh.ordered
  have ho' := hh.formed_after.ordered
  have hvalid := hh.valid_table
  have hrows : (net.shown n).rows = j.engine.rows := ho.rows_joined hh.joined
  have hkinds : (hh.after.shown n).columnKind = (net.shown n).columnKind := by
    rw [ho.columnKind_joined hh.joined, ho'.columnKind_joined hh.joined_after]
    rfl
  refine ⟨⟨_, hh.joined_after⟩, ?_, ?_, fun c hc hpasses => ?_, fun x hx => hh.legible_told hx,
    fun x hx c hc => ?_, h.read⟩
  · rw [hkinds]
    exact h.columns
  · -- nothing was left to be heard, so that the rows were those that are shown
    have hbefore := h.rows
    rw [List.map_nil, List.append_nil, hrows] at hbefore
    rw [ho'.rows_joined hh.joined_after]
    exact Event.replay_append_eq_some.2
      ⟨_, hbefore, JoinedTable.replay_tell (j := hh.table) hh.outcome.script hh.outcome.sound⟩
  · refine (h.known c hc (hh.passes_self hpasses)).told fun k => ?_
    rw [hrows]
    exact hh.tells_or_keeps k c
  · rw [ho'.columnKind_joined hh.joined_after]
    exact hvalid.exists_columnKind
      (JoinedTable.mem_columnIds_of_tell hvalid (fun d hd => (hh.plain d hd).1) hx c hc)

/-- A row that is deleted although it is there will be added. -/
theorem refills (h : Watch a net Q n L (x :: R)) (haction : x.event.action = .delete)
    (hlive : x.event.row ∈ (net.shown n).rows) : Adds R x.event.row := by
  have hrows := h.rows
  rw [List.map_cons, Event.replay_append_eq_some] at hrows
  obtain ⟨before, -, hrows⟩ := hrows
  obtain ⟨mid, happly, hrest⟩ := Event.replay_cons_eq_some.1 hrows
  obtain ⟨-, rfl⟩ := (Event.applyTo_delete haction).1 happly
  obtain ⟨e, he, hadd, hrow⟩ :=
    Event.exists_add_of_replay hrest (Finset.notMem_erase _ _) (List.mem_toFinset.2 hlive)
  obtain ⟨z, hz, rfl⟩ := List.mem_map.1 he
  exact ⟨z, hz, hadd, hrow⟩

/-- A notice is heard by who watches. -/
theorem listen (h : Watch a net Q n L (x :: R)) (hformed : net.Formed) :
    Watch a net Q n (L ++ [(net.shown n, x.event)]) R := by
  have hlegible := h.legible x List.mem_cons_self
  refine ⟨h.joined, h.columns, ?_, fun c hc hpasses => ?_,
    fun y hy => h.legible y (List.mem_cons_of_mem _ hy), fun y hy => h.named y (List.mem_cons_of_mem _ hy),
    fun y hy c hreads => ?_⟩
  · rw [Account.events_append, List.append_assoc]
    exact h.rows
  · rw [Account.latest_concat]
    refine (h.known c hc hpasses).hear hpasses hformed h.refills hlegible (fun k hk => Account.look_of_ne hk)
      (Account.look_delete (x := (net.shown n, x.event))) (fun hlooks => ?_)
      (Account.look_other (x := (net.shown n, x.event)))
    rcases hlooks with haction | ⟨haction, hnamed⟩
    · exact Account.look_add (x := (net.shown n, x.event)) haction
    · exact Account.look_named (x := (net.shown n, x.event)) haction hnamed
  · rcases List.mem_append.1 hy with hy | hy
    · exact h.read y hy c hreads
    · -- the notice itself asks for columns that the table has
      obtain rfl := List.mem_singleton.1 hy
      have hkind : ∃ kind, (net.shown n).columnKind c = .ok kind := by
        rcases hreads with ⟨-, hc⟩ | ⟨-, hc⟩
        · exact h.columns c hc
        · exact h.named x List.mem_cons_self c hc
      obtain ⟨kind, hkind⟩ := hkind
      obtain ⟨v, hv, -⟩ := (hlegible hreads.ne_delete).readable c kind hkind
      exact ⟨v, hv⟩

end Watch

/-- To keep track of what somebody knows. -/
def Outset.ledger (a : Outset) (n : Nat) : Ledger fun _ : Unit => n where
  Holds net Q L R := Watch a net Q n (L ()) (R ())
  first := ()
  present _ h _ := h.exists_content
  requeue hwave h hQ := h.agree hwave.formed.ordered.agree_self hwave.formed.ordered hwave.formed.ordered
    (fun m j s _ hj => hQ m j s hj) h.exists_content
  outlasts hwave h houtlasts hn := h.agree (houtlasts.agree hwave.formed.ordered) hwave.formed.ordered
    houtlasts.formed.ordered (fun _ _ _ _ _ => rfl) ⟨hn, hwave.formed.ordered.lt_nextId h.exists_content⟩
  listen {_ _ _ _ _ p _ _} hwave h hR := by
    rw [hR] at h
    rw [Function.update_self, Function.update_self]
    exact h.listen hwave.formed
  hear {_ _ m _ _ _ _ _ _ _ _ _ R} hh h hsilent := by
    dsimp only
    split_ifs with hm
    · subst hm
      rw [hsilent () .refl] at h
      exact h.hear hh
    · exact h.advance hh.wave hh.advance hm fun hreach => hsilent () hreach
  write {_ _ _ _ _ _ _ _ R} hwave ht ha h hsilent := by
    have hm : ¬ n = _ := fun hm => by
      obtain ⟨j, hj⟩ := h.joined
      rw [hm, joined?_eq_none_of_table? ht] at hj
      exact absurd hj (by simp)
    dsimp only
    rw [if_neg hm]
    exact h.advance hwave ha hm fun hreach => hsilent () hreach

/-! ## From the start to the end -/

section Start

variable {net : Network} {n : Nat} {j : JoinedTable} {columns : List String}

/-- Who has read all that a settled network shows. -/
theorem Settled.watch (h : net.Settled) (hj : net.joined? n = some j)
    (hcolumns : ∀ c ∈ columns, ∃ kind, (net.shown n).columnKind c = .ok kind) :
    Watch ⟨columns, (net.shown n).rows.toFinset, fun c k => net.actual n k c⟩ net silent n [] [] where
  joined := ⟨j, hj⟩
  columns := hcolumns
  rows := rfl
  known c _ hpasses k := .inl (h.presumed_eq (by simp [content?_of_joined? hj]) hpasses k).symm
  legible _ hx := absurd hx List.not_mem_nil
  named _ hx := absurd hx List.not_mem_nil
  read _ hx := absurd hx List.not_mem_nil

/-- Who has nothing, and the replay of a table of a settled network before it. -/
theorem Settled.watch_replay (h : net.Settled) (hj : net.joined? n = some j)
    (hcolumns : ∀ c ∈ columns, ∃ kind, (net.shown n).columnKind c = .ok kind) :
    Watch ⟨columns, ∅, fun _ _ => none⟩ net silent n [] ((net.shown n).replay.map fresh) := by
  have hn : net.content? n ≠ none := by simp [content?_of_joined? hj]
  have hrows := h.formed.ordered.rows_joined hj
  have hmem {x : Notice} (hx : x ∈ (net.shown n).replay.map fresh) : ∃ k ∈ (net.shown n).rows,
      x.event.row = k ∧ ∀ c ∈ x.event.columns, c ∈ j.columnIds := by
    obtain ⟨e, he, rfl⟩ := List.mem_map.1 hx
    obtain ⟨k, hk, rfl | rfl⟩ := TableView.mem_replay he
    · exact ⟨k, hk, rfl, fun c hc => absurd hc List.not_mem_nil⟩
    · refine ⟨k, hk, rfl, fun c hc => ?_⟩
      rwa [← h.formed.ordered.columnIds_joined hj]
  refine ⟨⟨j, hj⟩, hcolumns, ?_, fun c _ _ k => ?_, fun x hx _ => ?_, fun x hx c hc => ?_,
    fun x hx => absurd hx List.not_mem_nil⟩
  · rw [Account.events_nil, List.nil_append, List.map_map]
    refine (congrArg _ (List.map_id _)).trans (TableView.replay_replay ?_)
    rw [hrows]
    exact j.engine.nodup_rows
  · -- a row that is shown will be added, and no cell of another one is presumed
    by_cases hk : k ∈ (net.shown n).rows
    · refine .inr (.inl ⟨fresh (.added k), List.mem_map_of_mem ?_, rfl, rfl⟩)
      exact List.mem_flatMap.2 ⟨k, hk, List.mem_cons_self⟩
    · exact .inl (h.formed.presumed_of_dead hk).symm
  · obtain ⟨k, hk, rfl, -⟩ := hmem hx
    exact (h.calm hn).2 _ hk
  · obtain ⟨-, -, -, hcolumn⟩ := hmem hx
    rw [h.formed.ordered.columnKind_joined hj]
    exact (h.formed.valid n j hj).exists_columnKind (hcolumn c hc)

/-- In a settled network, who has heard everything has what is shown. -/
theorem Watch.settled {a : Outset} {L : Account} (hwatch : Watch a net silent n L []) (h : net.Settled) :
    Event.replay a.rows L.events = some (net.shown n).rows.toFinset ∧
      ∀ c ∈ a.columns, Passes net n c → ∀ k, L.latest c (a.class? c) k = net.actual n k c := by
  refine ⟨by simpa using hwatch.rows, fun c hc hpasses k => ?_⟩
  rw [← h.presumed_eq hwatch.exists_content hpasses]
  -- nothing is yet to be heard, or due
  rcases hwatch.known c hc hpasses k with hknown | hknown | hknown | hknown
  · exact hknown
  · exact absurd hknown not_adds_nil
  · exact absurd hknown not_tells_nil
  · exact absurd hknown ((h.calm hwatch.exists_content).1 k c)

end Start

end Network

end LiveTables
