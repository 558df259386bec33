import LiveTables.Proofs.Network.Reachable
import LiveTables.Proofs.Observer.Ledger

/-!
# Spectators over time

A write keeps a ledger, from one settled network to the next (`Ledger.Kept.perform`), and so does a run of
writes (`Ledger.Kept.since`). An observer that registers with a replay hears first what brings it up to date, and
then the events of its table; a ledger that holds when the replay waits to be heard is kept from then on
(`Ledger.exists_kept_of_replay`).
-/

namespace LiveTables

open Network Notice World

variable {ω σ : Type} {o : Outside ω} {w w' : World ω} {depth : Nat}

/-- The worlds that come after one by writes to stored tables, and by what others do who write nothing and leave
a spectator undisturbed. -/
inductive Since (o : Outside ω) (v : Spectator ω σ) (w₀ : World ω) : World ω → Prop
  | refl : Since o v w₀ w₀
  | quietly {w w' : World ω} (before : Since o v w₀ w) (quiet : w.network.Quietly w'.network)
      (undisturbed : v.Undisturbed w w') : Since o v w₀ w'
  | write {w w' : World ω} {depth : Nat} {call : Call} (before : Since o v w₀ w)
      (deep : w.network.nextId ≤ depth) (writes : call.Writes)
      (done : call.perform (dispatch o depth) w = some w') : Since o v w₀ w'

theorem Since.reachable {v : Spectator ω σ} {w₀ : World ω} (hsince : Since o v w₀ w) (h : Reachable o w₀) :
    Reachable o w := by
  induction hsince with
  | refl => exact h
  | quietly _ hquiet _ ih => exact .quietly ih hquiet
  | write _ hdeep hwrites hdone ih => exact .call ih hdeep (hwrites.lawful _) hdone

theorem Since.performAll {v : Spectator ω σ} {w₀ : World ω} {calls : List Call} (h : Since o v w₀ w)
    (hwrites : ∀ call ∈ calls, call.Writes) (hdone : Call.performAll o depth w calls = some w') :
    Since o v w₀ w' :=
  Call.performAll_induction h (fun call hmem _ _ h hdeep hcall => h.write hdeep (hwrites call hmem) hcall) hdone

namespace Ledger

section Write

variable {ι : Type} [DecidableEq ι] {v : ι → Spectator ω σ} {b : Ledger fun p => (v p).node} {i : ι → Nat}
  {s₀ : ι → σ}

/-- A write keeps a ledger. -/
theorem Kept.perform {call : Call} (hkept : b.Kept i s₀ silent .empty w) (ho : o.Quiet)
    (hv : ∀ p, (v p).Attends o) (hid : Function.Injective fun p => (v p).id) (h : w.network.Settled)
    (hdeep : w.network.nextId ≤ depth) (hwrites : call.Writes)
    (hdone : call.perform (dispatch o depth) w = some w') :
    w'.network.Settled ∧ b.Kept i s₀ silent .empty w' := by
  obtain ⟨n, t, t', signals, ht, hwrites, rfl⟩ := hwrites.exists_commit h.formed hdone
  obtain ⟨hpositive, hdepth⟩ := deep_enough h hdeep ht
  exact (b.monitor i s₀ ho hv hid).commit ho h ht hwrites hpositive hdepth hkept

/-- Spectators who record what they hear of a write: a ledger that holds at the start holds of what they add to
their records. -/
theorem exists_heard {v : ι → Spectator ω Account} {b : Ledger fun p => (v p).node} {call : Call} (ho : o.Quiet)
    (hv : ∀ p, (v p).Attends o) (hid : Function.Injective fun p => (v p).id)
    (hhear : ∀ p, (v p).hear = Account.record) (h : w.network.Settled)
    (hregistered : ∀ p, (v p).At (some (i p)) w.network) (hdeep : w.network.nextId ≤ depth) (hwrites : call.Writes)
    (hdone : call.perform (dispatch o depth) w = some w')
    (hstart : b.Holds w.network silent (fun _ => []) fun _ => [])
    (hexists : w'.network.content? (v b.first).node ≠ none) :
    w'.network.Settled ∧ ∃ heard : ι → Account,
      (∀ p, (v p).mine w'.outside = (v p).mine w.outside ++ heard p) ∧
        b.Holds w'.network silent heard fun _ => [] := by
  have hkept : b.Kept i (fun p => (v p).mine w.outside) silent .empty w :=
    ⟨hregistered, fun _ => ⟨fun _ => [], fun _ => rfl, hstart⟩⟩
  obtain ⟨hsettled, hkept'⟩ := hkept.perform ho hv hid h hdeep hwrites hdone
  obtain ⟨heard, hmine, hholds⟩ := hkept'.account hexists
  exact ⟨hsettled, heard, fun p => (hmine p).trans (Spectator.after_record (hhear p) _ _), hholds⟩

end Write

variable {v : Spectator ω σ} {b : Ledger fun _ : Unit => v.node} {i : Unit → Nat} {s₀ : Unit → σ}

/-- A run of writes keeps a ledger. -/
theorem Kept.since {w₀ : World ω} (hkept : b.Kept (v := fun _ => v) i s₀ silent .empty w₀) (ho : o.Quiet)
    (hv : v.Attends o) (h : w₀.network.Settled) (hsince : Since o v w₀ w) :
    w.network.Settled ∧ b.Kept (v := fun _ => v) i s₀ silent .empty w := by
  induction hsince with
  | refl => exact ⟨h, hkept⟩
  | quietly _ hquiet hundisturbed ih =>
    exact ⟨hquiet.settled ih.1, ih.2.quietly (ih.1.wave 0) hquiet fun _ => hundisturbed⟩
  | write _ hdeep hwrites hdone ih =>
    exact ih.2.perform ho (fun _ => hv) (fun _ _ _ => rfl) ih.1 hdeep hwrites hdone

/-! ## Replays -/

/-- A spectator that has not registered yet hears what brings it up to date. -/
structure Briefed (b : Ledger fun _ : Unit => v.node) (s : σ) (R : List Notice) (w : World ω) : Prop where
  settled : w.network.Settled
  absent : v.At none w.network
  account : w.network.content? v.node ≠ none → ∃ L : Account, v.mine w.outside = v.after L s ∧
    b.Holds w.network silent (fun _ => L) fun _ => R

namespace Briefed

variable {s : σ} {x : Notice} {R : List Notice}

theorem hold (h : Briefed b s R w) (n : Nat) : Briefed b s R (w.modifyNetwork (·.hold n)) := by
  have hquiet : w.network.Quietly (w.modifyNetwork (·.hold n)).network := .hold .refl
  refine ⟨hquiet.settled h.settled, h.absent.hold, fun hn => ?_⟩
  obtain ⟨L, hmine, hholds⟩ := h.account hn
  exact ⟨L, hmine, b.outlasts (h.settled.wave 0) hholds (hquiet.outlasts h.settled.formed) hn⟩

/-- It is handed an event. -/
theorem inform (h : Briefed b s (x :: R) w) (ho : o.Quiet) (hv : v.Attends o) :
    Briefed b s R ((dispatch o (depth + 1)).inform w v.id x.event) := by
  have hquiet : w.network.Quietly ((dispatch o (depth + 1)).inform w v.id x.event).network :=
    ho.inform (depth + 1) w v.id x.event
  have houtlasts := hquiet.outlasts h.settled.formed
  obtain ⟨hhears, hstays⟩ := hv.own _ (hv.spares depth) w x.event
  refine ⟨hquiet.settled h.settled, hstays none h.absent, fun hn => ?_⟩
  have hn₀ := houtlasts.content?_ne_none h.absent.issued hn
  obtain ⟨L, hmine, hholds⟩ := h.account hn₀
  -- it is handed the event while the table is shown as it is now
  refine ⟨L ++ [(w.network.shown v.node, x.event)], ?_, ?_⟩
  · rw [Spectator.after_concat, ← hmine]
    exact hhears _ (h.settled.formed.ordered.view?_eq hn₀)
  · have hheard := b.listen (h.settled.wave 0) hholds (p := ()) (x := x) (E := R) rfl
    have hunit {α : Type} (f : Unit → α) (a : α) : Function.update f () a = fun _ => a :=
      funext fun _ => Function.update_self _ _ _
    rw [hunit, hunit] at hheard
    exact b.outlasts (h.settled.wave 0) hheard houtlasts hn

/-- It is handed all events. -/
theorem informAll (depth : Nat) (ho : o.Quiet) (hv : v.Attends o) (h : Briefed b s R w) :
    Briefed b s [] (R.foldl (fun w x => (dispatch o (depth + 1)).inform w v.id x.event) w) := by
  induction R generalizing w with
  | nil => exact h
  | cons x R ih => exact ih (h.inform ho hv)

/-- It registers. -/
theorem subscribe (h : Briefed b s [] w) :
    b.Kept (v := fun _ => v) (fun _ => (w.subscribe v.node v.id).2.id) (fun _ => s) silent .empty
      (w.subscribe v.node v.id).1 where
  registered _ := h.absent.subscribe
  account hn := by
    have houtlasts := (quietly_subscribe w v.node v.id).outlasts h.settled.formed
    obtain ⟨L, hmine, hholds⟩ := h.account (houtlasts.content?_ne_none h.absent.issued hn)
    exact ⟨fun _ => L, fun _ => hmine, b.outlasts (h.settled.wave 0) hholds houtlasts hn⟩

end Briefed

/-- A ledger that holds when a replay waits to be heard is kept from then on. -/
theorem exists_kept_of_replay {view : TableView} (depth : Nat) (ho : o.Quiet) (hv : v.Attends o) (h : w.network.Settled)
    (habsent : v.At none w.network) (hview : w.network.view? v.node = some view)
    (hstart : b.Holds w.network silent (fun _ => []) fun _ => view.replay.map fresh) :
    ∃ i, b.Kept (v := fun _ => v) i (fun _ => v.mine w.outside) silent .empty
      (w.subscribeWithReplay (dispatch o (depth + 1)) v.node v.id).1 := by
  have hbegin : Briefed b (v.mine w.outside) (view.replay.map fresh) w :=
    ⟨h, habsent, fun _ => ⟨[], rfl, hstart⟩⟩
  -- the handle that is held meanwhile, the replay, the registration, the release
  have hheard := (hbegin.hold v.node).informAll depth ho hv
  rw [List.foldl_map] at hheard
  have hkept := hheard.subscribe
  have hsettled : ((view.replay.foldl (fun w e => (dispatch o (depth + 1)).inform w v.id e)
      (w.modifyNetwork (·.hold v.node))).subscribe v.node v.id).1.network.Settled :=
    (quietly_subscribe _ v.node v.id).settled hheard.settled
  rw [subscribeWithReplay, hview]
  exact ⟨_, hkept.quietly (hsettled.wave 0) (.release .refl) fun _ =>
    ⟨rfl, fun _ hi => hi.release hsettled.formed.ordered⟩⟩

end Ledger

end LiveTables
