import LiveTables.Proofs.Network.Reachable

/-!
# What lasts while others respond

When a table announces something, much may happen before the announcement ends: observers respond, joined tables
relink rows and announce that in turn, tables are held and let go. A property of the world that each of these
single steps leaves alone is left alone by the whole announcement, however deep announcements nest
(`Lasting.announce`). Nothing is asked here of what the tables hold or compute.
-/

namespace LiveTables

open Network World

variable {ω : Type} {o : Outside ω} {Ours Foreign : Nat → Prop} {P : World ω → Prop} {w : World ω}
  {d : Dispatch ω} {depth m K : Nat} {j : JoinedTable} {signal : Signal}

/-- A property of the world that lasts while others respond. It need not last while certain tables announce their
events, which are stored tables (`Ours`), nor while observers respond that listen to these (all that are not
`Foreign`). -/
structure Lasting (o : Outside ω) (Ours Foreign : Nat → Prop) (P : World ω → Prop) : Prop where
  joined : ∀ {w K}, P w → w.network.joined? K ≠ none → ¬ Ours K
  foreign : ∀ {w m k id}, P w → ¬ Ours m → (k, .observer id) ∈ w.network.entries m → Foreign id
  event : ∀ {w depth id} (e : Event), P w → Foreign id → P (o.onEvent (dispatch o depth) w id e)
  cell : ∀ {w depth} (id row : Nat), P w → P (o.onCell (dispatch o depth) w id row)
  hold : ∀ {w} (m : Nat), P w → P (w.modifyNetwork (·.hold m))
  release : ∀ {w} (m : Nat), P w → P (w.modifyNetwork (·.release m))
  /-- A joined table is given other links. -/
  link : ∀ {w K j} (engine : JoinEngine), P w → w.network.joined? K = some j →
    P (w.modifyNetwork (·.setContent K (.joined { j with engine })))

/-! ## A joined table responds -/

section Responds

variable (hd : ∀ w e, P w → P (d.announce w K (.event e)))

include hd

theorem lasts_announceAll (hw : P w) (events : List Event) : P (announceAll d w K events) :=
  List.foldlRecOn events _ hw fun w hw e _ => hd w e hw

theorem lasts_announceUpdate (hw : P w) (row : Nat) (columns : List String) :
    P (announceUpdate d w K row columns) := by
  rw [announceUpdate]
  rcases w.network.joined? K with - | j
  · exact hw
  · exact lasts_announceAll hd hw _

theorem lasts_publish (hw : P w) (changes : List JoinChange) : P (publish d w K changes) := by
  rw [publish]
  rcases w.network.joined? K with - | j
  · exact hw
  · refine List.foldlRecOn changes _ hw fun w hw change _ => ?_
    cases change with
    | added row => exact lasts_announceAll hd hw _
    | updated row side => exact lasts_announceUpdate hd hw row _
    | deleted row => exact lasts_announceAll hd hw _

theorem lasts_forward (hw : P w) (side : Side) (row : Nat) (columns : List String) (announced : List Nat) :
    P (forward d w K side row columns announced) := by
  rw [forward]
  rcases w.network.joined? K with - | j
  · exact hw
  · exact List.foldlRecOn _ _ hw fun w hw row _ => lasts_announceUpdate hd hw row columns

variable (h : Lasting o Ours Foreign P)

include h

theorem Lasting.commitLinks (hw : P w) (hj : w.network.joined? K = some j) (result : JoinEngine × List JoinChange) :
    P (commitLinks d w K j result) :=
  lasts_publish hd (h.link result.1 hw hj) result.2

theorem Lasting.relink (hw : P w) (hj : w.network.joined? K = some j) (side : Side) (row : Nat) :
    P (relink d w K j side row).1 := by
  rw [World.relink]
  rcases w.keyOf j side row with - | key
  · exact hw
  · exact h.commitLinks hd hw hj _

theorem Lasting.onSourceEvent (hw : P w) (hj : w.network.joined? K = some j) (side : Side) (e : Event) :
    P (onSourceEvent d w K j side e) := by
  rw [World.onSourceEvent]
  cases e.action with
  | add => exact h.relink hd hw hj side e.row
  | delete => exact h.commitLinks hd hw hj _
  | update =>
    -- the row is linked anew or not, and then its columns are announced or not
    have hlinked : P (if e.touches (j.key side) then World.relink d w K j side e.row else (w, [])).1 := by
      split_ifs
      · exact h.relink hd hw hj side e.row
      · exact hw
    generalize (if e.touches (j.key side) then World.relink d w K j side e.row else (w, [])) = linked at hlinked ⊢
    dsimp only
    split_ifs
    · exact hlinked
    · exact lasts_forward hd hlinked side e.row _ _

end Responds

namespace Lasting

variable (h : Lasting o Ours Foreign P)

include h

/-! ## Announcements -/

/-- A listener responds. Only of observers that hear an event it matters which they are. -/
theorem respond {l : Listener} (hd : ∀ w m e, ¬ Ours m → P w → P ((dispatch o depth).announce w m (.event e)))
    (hw : P w) (hl : ∀ id e, l = .observer id → signal = .event e → Foreign id) :
    P (World.respond o (dispatch o depth) signal w l) := by
  refine respond_cases hw (fun K side e j _ _ hj => ?_) (fun id e hid he => h.event e hw (hl id e hid he))
    fun id _ row _ => h.cell id row hw
  have hK : ¬ Ours K := h.joined hw (by simp [hj])
  exact h.release K (h.onSourceEvent (fun w e => hd w K e hK) (h.hold K hw) hj side e)

/-- Listeners respond, one after the other. -/
theorem foldl_respond {todo : List (Nat × Listener)} (subject : World ω → Subject Listener)
    (hd : ∀ w m e, ¬ Ours m → P w → P ((dispatch o depth).announce w m (.event e))) (hw : P w)
    (hl : ∀ x ∈ todo, ∀ id e, x.2 = .observer id → signal = .event e → Foreign id) :
    P (todo.foldl (fun w x => if (subject w).contains x.1 then World.respond o (dispatch o depth) signal w x.2
      else w) w) := by
  refine List.foldlRecOn todo _ hw fun w hw x hx => ?_
  split_ifs
  · exact h.respond hd hw (hl x hx)
  · exact hw

/-- An event of another table, with all that follows. -/
theorem announce (depth : Nat) (w : World ω) (m : Nat) (e : Event) (hm : ¬ Ours m) (hw : P w) :
    P ((dispatch o depth).announce w m (.event e)) := by
  induction depth generalizing w m e with
  | zero => exact hw
  | succ depth ih =>
    refine h.foldl_respond _ ih hw fun x hx id _ hid _ => h.foreign hw hm (k := x.1) ?_
    rw [← hid]
    exact hx

/-- A cell is written in any table. Observers that are told of events hear nothing of it. -/
theorem announce_cell (depth : Nat) (hw : P w) (m : Nat) (column : String) (row : Nat) :
    P ((dispatch o depth).announce w m (.cell column row)) := by
  cases depth with
  | zero => exact hw
  | succ depth => exact h.foldl_respond _ (h.announce depth) hw fun x _ id e _ he => Signal.noConfusion he

/-- Another table announces what was done to it. -/
theorem announceSignals (depth : Nat) (hw : P w) (hm : ¬ Ours m) (signals : List Signal) :
    P (signals.foldl (fun w s => (dispatch o depth).announce w m s) w) := by
  refine List.foldlRecOn signals _ hw fun w hw s _ => ?_
  cases s with
  | cell column row => exact h.announce_cell depth hw m column row
  | event e => exact h.announce depth w m e hm hw

end Lasting

end LiveTables
