import LiveTables.Proofs.Network.Lasting

/-!
# Networks that arise by calls

A network may arise by any calls (`Arises`), also if computed columns compute just anything and announcements end at
any depth. It changes in single steps (`Network.Changes`), whoever acts: what every step keeps is kept by every call,
with all that happens while the call is announced, if the observers keep it (`Arises.keeps`).

Observers keep it if they leave the cells of all tables alone (`Outside.Quiet.keeps`). But they may also answer what
they hear with calls of their own: they write, join tables and register computed columns while an announcement is under
way, and what they do is announced one level deeper (`World.Acts`). Of these it is asked only that they act by calls
where the property holds (`Outside.ActsWhere.keeps`), for they never come to a network where it does not.
-/

namespace LiveTables

open Network World

variable {ω : Type} {o : Outside ω} {d : Dispatch ω} {w w' : World ω} {P : Network → Prop} {signal : Signal}

/-- The single steps in which a network changes. A joined table may come to have any engine. -/
inductive Network.Changes (net : Network) : Network → Prop
  | quietly {net' : Network} (quiet : net.Quietly net') : Changes net net'
  | edit {n : Nat} {t : Table} (ht : net.table? n = some t) (e : Table.Edit) :
      Changes net (net.setContent n (.stored (t.perform e).1))
  | addComputed {n : Nat} {t t' : Table} {column : ComputedColumn} (ht : net.table? n = some t)
      (added : t.addComputed column = (t', .ok ())) : Changes net (net.setContent n (.stored t'))
  | addComputedJoined {n : Nat} {j j' : JoinedTable} {column : ComputedColumn} (hj : net.joined? n = some j)
      (added : j.addComputed column = (j', .ok ())) : Changes net (net.setContent n (.joined j'))
  | link {n : Nat} {j : JoinedTable} (hj : net.joined? n = some j) (engine : JoinEngine) :
      Changes net (net.setContent n (.joined { j with engine }))
  | join {l r : Nat} {left right : TableView} {spec : JoinSpec} {j : JoinedTable} (hleft : net.view? l = some left)
      (hright : net.view? r = some right) (joined : JoinedTable.ofSources spec l r left right = .ok j) :
      Changes net (net.insertJoined j).1

/-- The worlds that arise from an empty one by any calls: nothing is asked of what computed columns compute, or of
gap values, and announcements may end at any depth. -/
inductive Arises (o : Outside ω) : World ω → Prop
  | start (outside : ω) : Arises o { network := {}, outside }
  | quietly {w w' : World ω} (before : Arises o w) (quiet : w.network.Quietly w'.network) : Arises o w'
  | replay {w : World ω} (before : Arises o w) (depth n observer : Nat) :
      Arises o (w.subscribeWithReplay (dispatch o depth) n observer).1
  | call {w w' : World ω} {depth : Nat} {call : Call} (before : Arises o w)
      (done : call.perform (dispatch o depth) w = some w') : Arises o w'

theorem Reachable.arises (h : Reachable o w) : Arises o w := by
  induction h with
  | start outside => exact .start outside
  | quietly _ hquiet ih => exact .quietly ih hquiet
  | replay _ depth n observer ih => exact .replay ih depth n observer
  | call _ _ _ hdone ih => exact .call ih hdone

/-! ## Observers -/

/-- Announcements keep a property of the network. -/
structure Dispatch.Keeps (P : Network → Prop) (d : Dispatch ω) : Prop where
  announce : ∀ (w : World ω) n signal, P w.network → P (d.announce w n signal).network
  inform : ∀ (w : World ω) observer e, P w.network → P (d.inform w observer e).network

/-- Observers keep a property of the network, as long as the announcements keep it that they make. -/
structure Outside.Keeps (P : Network → Prop) (o : Outside ω) : Prop where
  onEvent : ∀ depth, (dispatch o depth).Keeps P → ∀ (w : World ω) id e, P w.network →
    P (o.onEvent (dispatch o depth) w id e).network
  onCell : ∀ depth, (dispatch o depth).Keeps P → ∀ (w : World ω) id row, P w.network →
    P (o.onCell (dispatch o depth) w id row).network

/-- What an observer does by calls, as its announcements are made by `d`. What it keeps for itself may become
anything. -/
inductive World.Acts (d : Dispatch ω) (w : World ω) : World ω → Prop
  | refl : Acts d w w
  | quietly {w' w'' : World ω} (before : Acts d w w') (quiet : w'.network.Quietly w''.network) : Acts d w w''
  | replay {w' : World ω} (before : Acts d w w') (n observer : Nat) :
      Acts d w (w'.subscribeWithReplay d n observer).1
  | call {w' w'' : World ω} {call : Call} (before : Acts d w w') (done : call.perform d w' = some w'') : Acts d w w''

/-- Observers that act by calls, wherever the network has a property. -/
def Outside.ActsWhere (P : Network → Prop) (o : Outside ω) : Prop :=
  ∀ (d : Dispatch ω) (w : World ω), P w.network →
    (∀ id e, w.Acts d (o.onEvent d w id e)) ∧ ∀ id row, w.Acts d (o.onCell d w id row)

theorem Outside.ActsWhere.mono {P' : Network → Prop} (h : o.ActsWhere P) (himp : ∀ net, P' net → P net) :
    o.ActsWhere P' :=
  fun d w hw => h d w (himp _ hw)

/-- Observers that do nothing. -/
def Outside.idle : Outside ω where
  onEvent _ w _ _ := w
  onCell _ w _ _ := w

theorem Dispatch.Keeps.announceAll (hd : d.Keeps P) (hw : P w.network) (n : Nat) (signals : List Signal) :
    P (signals.foldl (fun w s => d.announce w n s) w).network :=
  List.foldlRecOn (motive := fun w : World ω => P w.network) signals _ hw fun w hw s _ => hd.announce w n s hw

theorem Dispatch.Keeps.informAll (hd : d.Keeps P) (hw : P w.network) (observer : Nat) (events : List Event) :
    P (events.foldl (fun w e => d.inform w observer e) w).network :=
  List.foldlRecOn (motive := fun w : World ω => P w.network) events _ hw fun w hw e _ => hd.inform w observer e hw

section Steps

variable (hstep : ∀ {net net' : Network}, P net → net.Changes net' → P net')

include hstep

/-- While nobody observes, the property lasts. -/
theorem lasting_idle : Lasting (Outside.idle (ω := ω)) (fun _ => False) (fun _ => True) fun w => P w.network where
  joined _ _ := not_false
  foreign _ _ _ := trivial
  event _ hw _ := hw
  cell _ _ hw := hw
  hold _ hw := hstep hw (.quietly (.hold .refl))
  release _ hw := hstep hw (.quietly (.release .refl))
  link engine hw hj := hstep hw (.link hj engine)

/-! ## Calls -/

section Calls

variable (hd : d.Keeps P) (hw : P w.network)

include hd hw

theorem Dispatch.Keeps.subscribeWithReplay (n observer : Nat) :
    P (w.subscribeWithReplay d n observer).1.network := by
  rw [World.subscribeWithReplay]
  rcases w.network.view? n with - | view
  · exact hstep hw (.quietly (quietly_subscribe w n observer))
  · have hheld : P (w.modifyNetwork (·.hold n)).network := hstep hw (.quietly (.hold .refl))
    exact hstep (hd.informAll hheld observer view.replay) (.quietly (.release (quietly_subscribe _ n observer)))

/-- An edit of a stored table, with its announcements. -/
theorem Dispatch.Keeps.edit {n : Nat} {t : Table} (ht : w.network.table? n = some t) (e : Table.Edit) :
    P (w.commit d n (t.perform e).1 (t.perform e).2).network := by
  -- the table is held while the edit is announced
  have hheld : P (w.network.hold n) := hstep hw (.quietly (.hold .refl))
  have ht' : (w.network.hold n).table? n = some t := ht
  have hset : P ((w.modifyNetwork (·.hold n)).modifyNetwork (·.setContent n (.stored (t.perform e).1))).network :=
    hstep hheld (.edit ht' e)
  exact hstep (hd.announceAll hset n (t.perform e).2) (.quietly (.release .refl))

theorem Dispatch.Keeps.perform {call : Call} (hdone : call.perform d w = some w') : P w'.network := by
  by_cases hwrites : call.Writes
  · obtain ⟨n, e, rfl⟩ := hwrites.exists_edit
    obtain ⟨t, ht, rfl⟩ := Call.exists_commit_of_edit hdone
    exact hd.edit hstep hw ht e
  cases call with
  | addRow | setValue | deleteRow => exact absurd trivial hwrites
  | addComputed n column =>
    rcases Call.addComputed_cases hdone with ⟨t, t', ht, hadd, rfl⟩ | ⟨j, j', hj, hadd, rfl⟩
    · exact hstep hw (.addComputed ht hadd)
    · exact hstep hw (.addComputedJoined hj hadd)
  | join left right spec =>
    obtain ⟨leftView, rightView, j, hleft, hright, hj, rfl⟩ := Call.exists_ofSources hdone
    exact hstep hw (.join hleft hright hj)

theorem Dispatch.Keeps.acts (hacts : w.Acts d w') : P w'.network := by
  induction hacts with
  | refl => exact hw
  | quietly _ hquiet ih => exact hstep ih (.quietly hquiet)
  | replay _ n observer ih => exact hd.subscribeWithReplay hstep ih n observer
  | call _ hdone ih => exact hd.perform hstep ih hdone

end Calls

theorem Outside.ActsWhere.keeps (ho : o.ActsWhere P) : o.Keeps P where
  onEvent _ hd w id e hw := hd.acts hstep hw ((ho _ w hw).1 id e)
  onCell _ hd w id row hw := hd.acts hstep hw ((ho _ w hw).2 id row)

theorem Outside.Quiet.keeps (ho : o.Quiet) : o.Keeps P where
  onEvent depth _ w id e hw := hstep hw (.quietly (ho.onEvent depth w id e))
  onCell depth _ w id row hw := hstep hw (.quietly (ho.onCell depth w id row))

/-! ## Announcements -/

/-- A listener responds. -/
theorem Outside.Keeps.respond {depth : Nat} (ho : o.Keeps P) (hd : (dispatch o depth).Keeps P) (hw : P w.network)
    (l : Listener) : P (World.respond o (dispatch o depth) signal w l).network := by
  refine respond_cases (motive := fun w => P w.network) hw (fun K side e j _ _ hj => ?_)
    (fun id e _ _ => ho.onEvent depth hd w id e hw) fun id _ row _ => ho.onCell depth hd w id row hw
  have hlasting := lasting_idle (ω := ω) hstep
  exact hlasting.release K
    (hlasting.onSourceEvent (fun w e => hd.announce w K (.event e)) (hlasting.hold K hw) hj side e)

/-- Announcements of any depth keep what single steps keep. -/
theorem Outside.Keeps.dispatch (ho : o.Keeps P) (depth : Nat) : (dispatch o depth).Keeps P := by
  induction depth with
  | zero => exact ⟨fun _ _ _ hw => hw, fun _ _ _ hw => hw⟩
  | succ depth ih =>
    refine ⟨fun w n signal hw => ?_, fun w observer e hw => ho.onEvent depth ih w observer e hw⟩
    -- the listeners that were there at the start, those that are still there
    refine List.foldlRecOn (motive := fun w : World ω => P w.network) (w.network.subject n signal.stream).entries _ hw
      fun w hw x _ => ?_
    split_ifs
    · exact ho.respond hstep ih hw x.2
    · exact hw

/-- What holds of the empty network, and is kept by single steps, holds after any calls, if the observers keep it. -/
theorem Arises.keeps (hempty : P {}) (ho : o.Keeps P) (h : Arises o w) : P w.network := by
  induction h with
  | start => exact hempty
  | quietly _ hquiet ih => exact hstep ih (.quietly hquiet)
  | replay _ depth n observer ih => exact (ho.dispatch hstep depth).subscribeWithReplay hstep ih n observer
  | call _ hdone ih => exact (ho.dispatch hstep _).perform hstep ih hdone

end Steps

/-- Calls one after the other lead from worlds that arise to others. -/
theorem Arises.performAll {depth : Nat} {calls : List Call} (h : Arises o w)
    (hdone : Call.performAll o depth w calls = some w') : Arises o w' :=
  Call.performAll_induction h (fun _ _ _ _ h _ hcall => h.call hcall) hdone

end LiveTables
