import LiveTables.Subject.Basic
import Mathlib.Data.List.Nodup
import Mathlib.Data.List.Pairwise

/-!
# Histories of a subject

Whoever can reach a subject may subscribe to it, end a registration that was made, and start a delivery; and so
may a listener while it is called, to any depth. A run of a subject (`Subject.Run`) is any such behaviour in a
world that holds the subject, together with its history: what was done, one thing after the other.

A history has its laws (`Subject.Lawful`), whoever does what inside whose call. Identifiers are never given
again. A delivery comes to the registrations that existed when it started, each once and in order; those hear it
that still exist when their turn comes, and once a registration has ended it hears nothing more
(`Subject.Run.hears_exactly`).
-/

namespace LiveTables.Subject

variable {σ ι : Type} {subject : σ → Subject ι} {call : σ → Nat × ι → σ} {w w' : σ} {within : List Nat}
  {count delivery id n : Nat} {entries : List (Nat × ι)}

/-- One thing that happens to a subject. Deliveries are numbered as they start; a delivery is started in the calls
of some registrations, the innermost first, and comes to a registration, which hears it or is passed over. -/
inductive Occurrence where
  | made (id : Nat)
  | ended (id : Nat)
  | started (delivery : Nat) (within : List Nat)
  | heard (delivery id : Nat)
  | passed (delivery id : Nat)
  deriving DecidableEq

open Occurrence

variable {o : Occurrence} {x y story story' later : List Occurrence}

/-- The registrations that are made. -/
def made (story : List Occurrence) : List Nat := story.filterMap fun
  | .made id => some id
  | _ => none

/-- The registrations that are ended. -/
def ended (story : List Occurrence) : List Nat := story.filterMap fun
  | .ended id => some id
  | _ => none

/-- The number of deliveries that are started. -/
def deliveries (story : List Occurrence) : Nat := story.countP fun
  | .started _ _ => true
  | _ => false

/-- The registrations that a delivery comes to, in order. -/
def turnsOf (delivery : Nat) (story : List Occurrence) : List Nat := story.filterMap fun
  | .heard n id | .passed n id => if n = delivery then some id else none
  | _ => none

/-- The registrations that were made and not ended, in the order in which they were made. -/
def registered (story : List Occurrence) : List Nat := (made story).filter (· ∉ ended story)

/-! ## Runs -/

mutual

/-- What is done to a subject from one world to another, inside the calls of the registrations `within`, the
innermost first, and after `count` deliveries have been started. Anything else in the world may change. -/
inductive Run (subject : σ → Subject ι) : (within : List Nat) → (count : Nat) → σ → List Occurrence → σ → Prop
  | rest {within : List Nat} {count : Nat} {w w' : σ} (same : subject w' = subject w) :
      Run subject within count w [] w'
  | subscribe {within : List Nat} {count : Nat} {w w' : σ} (listener : ι)
      (done : subject w' = ((subject w).subscribe listener).1) :
      Run subject within count w [.made ((subject w).subscribe listener).2] w'
  | unsubscribe {within : List Nat} {count : Nat} {w w' : σ} {id : Nat} (issued : id < (subject w).nextId)
      (done : subject w' = (subject w).unsubscribe id) : Run subject within count w [.ended id] w'
  | deliver {within : List Nat} {count : Nat} {w : σ} {call : σ → Nat × ι → σ} {story : List Occurrence}
      (turns : Turns subject within count call (count + 1) (subject w).entries w story) :
      Run subject within count w (.started count within :: story) (deliver subject call w)
  | append {within : List Nat} {count : Nat} {w w' w'' : σ} {story story' : List Occurrence}
      (first : Run subject within count w story w')
      (second : Run subject within (count + deliveries story) w' story' w'') :
      Run subject within count w (story ++ story') w''

/-- What is done to a subject while a delivery goes through registrations. -/
inductive Turns (subject : σ → Subject ι) : (within : List Nat) → (delivery : Nat) → (call : σ → Nat × ι → σ) →
    (count : Nat) → List (Nat × ι) → σ → List Occurrence → Prop
  | nil {within : List Nat} {delivery : Nat} {call : σ → Nat × ι → σ} {count : Nat} {w : σ} :
      Turns subject within delivery call count [] w []
  | passed {within : List Nat} {delivery : Nat} {call : σ → Nat × ι → σ} {count : Nat} {w : σ} {e : Nat × ι}
      {rest : List (Nat × ι)} {story : List Occurrence} (gone : (subject w).contains e.1 = false)
      (turns : Turns subject within delivery call count rest w story) :
      Turns subject within delivery call count (e :: rest) w (.passed delivery e.1 :: story)
  | heard {within : List Nat} {delivery : Nat} {call : σ → Nat × ι → σ} {count : Nat} {w : σ} {e : Nat × ι}
      {rest : List (Nat × ι)} {story story' : List Occurrence} (there : (subject w).contains e.1 = true)
      (reaction : Run subject (e.1 :: within) count w story (call w e))
      (turns : Turns subject within delivery call (count + deliveries story) rest (call w e) story') :
      Turns subject within delivery call count (e :: rest) w (.heard delivery e.1 :: (story ++ story'))

end

/-! ## Laws of a history -/

/-- The registrations that exist, the next identifier, and the number of deliveries started. -/
structure Tally where
  ids : List Nat := []
  nextId : Nat := 1
  count : Nat := 0

namespace Tally

/-- The tally after one thing more. -/
def next (t : Tally) : Occurrence → Tally
  | .made id => { t with ids := t.ids ++ [id], nextId := id + 1 }
  | .ended id => { t with ids := t.ids.filter (· ≠ id) }
  | .started _ _ => { t with count := t.count + 1 }
  | .heard _ _ | .passed _ _ => t

/-- The tally of a subject. -/
def ofSubject (s : Subject ι) (count : Nat) : Tally := ⟨s.ids, s.nextId, count⟩

end Tally

/-- What may happen with a tally, if it is followed by `later`. -/
def Allowed (t : Tally) (later : List Occurrence) : Occurrence → Prop
  | .made id => id = t.nextId
  | .ended id => id < t.nextId
  | .started n _ => n = t.count ∧ turnsOf n later = t.ids
  | .heard n id => n < t.count ∧ id ∈ t.ids
  | .passed n id => n < t.count ∧ id ∉ t.ids

/-- A history that may happen from a tally on: each thing may happen where it stands. -/
def Lawful : Tally → List Occurrence → Prop
  | _, [] => True
  | t, o :: later => Allowed t later o ∧ Lawful (t.next o) later

theorem turnsOf_append (n : Nat) (x y : List Occurrence) : turnsOf n (x ++ y) = turnsOf n x ++ turnsOf n y :=
  List.filterMap_append

theorem turnsOf_heard (n m id : Nat) (x : List Occurrence) :
    turnsOf n (heard m id :: x) = if m = n then id :: turnsOf n x else turnsOf n x := by
  unfold turnsOf
  rw [List.filterMap_cons]
  split <;> simp_all

theorem turnsOf_passed (n m id : Nat) (x : List Occurrence) :
    turnsOf n (passed m id :: x) = if m = n then id :: turnsOf n x else turnsOf n x :=
  turnsOf_heard n m id x

theorem made_append (x y : List Occurrence) : made (x ++ y) = made x ++ made y := List.filterMap_append

theorem ended_append (x y : List Occurrence) : ended (x ++ y) = ended x ++ ended y := List.filterMap_append

theorem deliveries_append (x y : List Occurrence) : deliveries (x ++ y) = deliveries x + deliveries y :=
  List.countP_append

theorem deliveries_cons (o : Occurrence) (x : List Occurrence) :
    deliveries (o :: x) = deliveries [o] + deliveries x := deliveries_append [o] x

theorem count_next (t : Tally) (o : Occurrence) : (t.next o).count = t.count + deliveries [o] := by
  cases o <;> rfl

theorem count_foldl_next (t : Tally) (x : List Occurrence) : (x.foldl Tally.next t).count = t.count + deliveries x := by
  induction x generalizing t with
  | nil => rfl
  | cons o x ih => rw [List.foldl_cons, ih, count_next, deliveries_cons o x, Nat.add_assoc]

namespace Lawful

variable {t : Tally}

/-- Each thing of a lawful history may happen where it stands. -/
theorem allowed (h : Lawful t (x ++ o :: y)) : Allowed (x.foldl Tally.next t) y o ∧
    Lawful ((x ++ [o]).foldl Tally.next t) y := by
  induction x generalizing t with
  | nil => exact h
  | cons o' x ih => exact ih h.2

/-- A lawful history goes on lawfully, if no turn of a delivery that it started follows. -/
theorem append (h : Lawful t x) (h' : Lawful (x.foldl Tally.next t) y)
    (hturns : ∀ n, t.count ≤ n → n < t.count + deliveries x → turnsOf n y = []) : Lawful t (x ++ y) := by
  induction x generalizing t with
  | nil => exact h'
  | cons o x ih =>
    obtain ⟨hallowed, hrest⟩ := h
    rw [deliveries_cons] at hturns
    refine ⟨?_, ih hrest h' fun n hle hlt => ?_⟩
    · cases o with
      | started n within =>
        refine ⟨hallowed.1, show turnsOf n (x ++ y) = t.ids from ?_⟩
        have hlt : n < t.count + (deliveries [started n within] + deliveries x) := by
          rw [hallowed.1]
          exact Nat.lt_add_of_pos_right (Nat.add_pos_left Nat.one_pos _)
        rw [turnsOf_append, hallowed.2, hturns n (Nat.le_of_eq hallowed.1.symm) hlt, List.append_nil]
      | made | ended | heard | passed => exact hallowed
    · rw [count_next] at hle hlt
      exact hturns n (by omega) (by omega)

/-- Deliveries that were not started yet come to nobody. -/
theorem turnsOf_eq_nil (h : Lawful t (x ++ y)) (hn : t.count + deliveries x ≤ n) : turnsOf n x = [] := by
  induction x generalizing t with
  | nil => rfl
  | cons o x ih =>
    obtain ⟨hallowed, hrest⟩ := h
    rw [deliveries_cons] at hn
    have hlater : turnsOf n x = [] := ih hrest (by rw [count_next]; omega)
    cases o with
    | made | ended | started => exact hlater
    | heard m id | passed m id =>
      have hne : m ≠ n := by
        have := hallowed.1
        omega
      first | rw [turnsOf_heard, if_neg hne, hlater] | rw [turnsOf_passed, if_neg hne, hlater]

/-- Identifiers are counted up. -/
theorem made_eq (h : Lawful t x) : made x = List.range' t.nextId (made x).length ∧
    (x.foldl Tally.next t).nextId = t.nextId + (made x).length := by
  induction x generalizing t with
  | nil => exact ⟨rfl, rfl⟩
  | cons o x ih =>
    obtain ⟨hmade, hnext⟩ := ih h.2
    cases o with
    | made id =>
      have hid : id = t.nextId := h.1
      refine ⟨?_, hnext.trans ?_⟩
      · show id :: made x = List.range' t.nextId ((made x).length + 1)
        rw [List.range'_succ, ← hid]
        exact congrArg _ hmade
      · show id + 1 + (made x).length = t.nextId + ((made x).length + 1)
        omega
    | ended | started | heard | passed => exact ⟨hmade, hnext⟩

/-- No identifier that was issued is made again. -/
theorem nextId_le (h : Lawful t x) (hid : id ∈ made x) : t.nextId ≤ id := by
  rw [h.made_eq.1] at hid
  exact (List.mem_range'_1.mp hid).1

/-- Those exist that were there or made, and not ended. -/
theorem ids_eq (h : Lawful t (x ++ y)) : (x.foldl Tally.next t).ids = (t.ids ++ made x).filter (· ∉ ended x) := by
  induction x generalizing t with
  | nil =>
    rw [made, List.filterMap_nil, List.append_nil]
    exact (List.filter_eq_self.mpr fun _ _ => rfl).symm
  | cons o x ih =>
    rw [List.foldl_cons, ih h.2]
    cases o with
    | made id => exact congrArg (List.filter _) (List.append_assoc t.ids [id] (made x))
    | ended id =>
      have hid : id < t.nextId := h.1
      have hnew : id ∉ made x := fun hmem =>
        absurd hid (Nat.not_lt.mpr (h.2.nextId_le (made_append x y ▸ List.mem_append_left _ hmem)))
      show (t.ids.filter (· ≠ id) ++ made x).filter (· ∉ ended x) = (t.ids ++ made x).filter (· ∉ id :: ended x)
      rw [List.filter_append, List.filter_append, List.filter_filter]
      congr 1
      · refine List.filter_congr fun a _ => ?_
        simp [Bool.and_comm]
      · refine List.filter_congr fun a ha => ?_
        have hne : a ≠ id := fun h => hnew (h ▸ ha)
        simp [hne]
    | started | heard | passed => rfl

end Lawful

/-! ## Runs have lawful histories -/

/-- One turn of a delivery. -/
def turn (subject : σ → Subject ι) (call : σ → Nat × ι → σ) (w : σ) (e : Nat × ι) : σ :=
  if (subject w).contains e.1 then call w e else w

/-- What a history says of a run: it is lawful, the tally is that of the subject at either end, no delivery that was
started before comes to anybody, and whatever is started is started inside the calls around the run. -/
structure Traces (subject : σ → Subject ι) (within : List Nat) (count : Nat) (w : σ) (story : List Occurrence)
    (w' : σ) : Prop where
  lawful : Lawful (.ofSubject (subject w) count) story
  tally : story.foldl Tally.next (.ofSubject (subject w) count) = .ofSubject (subject w') (count + deliveries story)
  turns : ∀ n < count, turnsOf n story = []
  inside : ∀ n s, .started n s ∈ story → within <:+ s

/-- What a history says of the turns of a delivery: no other delivery that was started before comes to anybody,
and this one comes to the registrations, one after the other. -/
structure TracesTurns (subject : σ → Subject ι) (within : List Nat) (delivery : Nat) (call : σ → Nat × ι → σ)
    (count : Nat) (entries : List (Nat × ι)) (w : σ) (story : List Occurrence) : Prop where
  lawful : Lawful (.ofSubject (subject w) count) story
  tally : story.foldl Tally.next (.ofSubject (subject w) count) =
    .ofSubject (subject (entries.foldl (turn subject call) w)) (count + deliveries story)
  own : turnsOf delivery story = entries.map (·.1)
  turns : ∀ n < count, n ≠ delivery → turnsOf n story = []
  inside : ∀ n s, .started n s ∈ story → within <:+ s

mutual

theorem Run.traces {within : List Nat} {count : Nat} {w w' : σ} {story : List Occurrence} :
    Run subject within count w story w' → Traces subject within count w story w'
  | .rest same => by
    refine ⟨trivial, ?_, fun _ _ => rfl, by simp⟩
    rw [same]
    rfl
  | .subscribe listener done => by
    refine ⟨⟨rfl, trivial⟩, ?_, fun _ _ => rfl, by simp⟩
    rw [done]
    simp [Tally.next, Tally.ofSubject, deliveries, Subject.subscribe, ids]
  | .unsubscribe issued done => by
    refine ⟨⟨issued, trivial⟩, ?_, fun _ _ => rfl, by simp⟩
    rw [done]
    simp [Tally.next, Tally.ofSubject, deliveries, Subject.unsubscribe, ids, List.filter_map, Function.comp_def]
  | .deliver turns => by
    have hturns := Turns.traces (Nat.lt_succ_self _) turns
    refine ⟨⟨⟨rfl, hturns.own⟩, hturns.lawful⟩, ?_, fun n hn => ?_, fun n s hs => ?_⟩
    · rw [deliveries_cons, ← Nat.add_assoc]
      exact hturns.tally
    · exact hturns.turns n (Nat.lt_succ_of_lt hn) (Nat.ne_of_lt hn)
    · rcases List.mem_cons.mp hs with heq | hs
      · obtain ⟨rfl, rfl⟩ := Occurrence.started.inj heq
        exact List.suffix_rfl
      · exact hturns.inside n s hs
  | .append first second => by
    have hfirst := first.traces
    have hsecond := second.traces
    refine ⟨hfirst.lawful.append ?_ fun n _ hn => hsecond.turns n hn, ?_, fun n hn => ?_, fun n s hs => ?_⟩
    · rw [hfirst.tally]
      exact hsecond.lawful
    · rw [List.foldl_append, hfirst.tally, hsecond.tally, deliveries_append, Nat.add_assoc]
    · rw [turnsOf_append, hfirst.turns n hn, hsecond.turns n (Nat.lt_add_right _ hn), List.append_nil]
    · exact (List.mem_append.mp hs).elim (hfirst.inside n s) (hsecond.inside n s)

theorem Turns.traces {within : List Nat} {delivery : Nat} {call : σ → Nat × ι → σ} {count : Nat}
    {entries : List (Nat × ι)} {w : σ} {story : List Occurrence} (hlt : delivery < count) :
    Turns subject within delivery call count entries w story →
      TracesTurns subject within delivery call count entries w story
  | .nil => ⟨trivial, rfl, rfl, fun _ _ _ => rfl, by simp⟩
  | .passed gone turns => by
    rename_i e rest _
    have hrest := turns.traces hlt
    have hskip : (e :: rest).foldl (turn subject call) w = rest.foldl (turn subject call) w := by
      rw [List.foldl_cons, turn, gone, if_neg Bool.false_ne_true]
    refine ⟨⟨⟨hlt, ?_⟩, hrest.lawful⟩, ?_, ?_, fun n hn hne => ?_, fun n s hs => ?_⟩
    · exact fun hmem => Bool.false_ne_true (gone.symm.trans ((contains_iff _ _).mpr hmem))
    · rw [hskip]
      exact hrest.tally
    · rw [turnsOf_passed, if_pos rfl, hrest.own, List.map_cons]
    · rw [turnsOf_passed, if_neg hne.symm, hrest.turns n hn hne]
    · exact hrest.inside n s ((List.mem_cons.mp hs).resolve_left Occurrence.noConfusion)
  | .heard there reaction turns => by
    rename_i e rest reacted later
    have hreaction := reaction.traces
    have hrest := turns.traces (Nat.lt_add_right _ hlt)
    have hcall : (e :: rest).foldl (turn subject call) w = rest.foldl (turn subject call) (call w e) := by
      rw [List.foldl_cons, turn, if_pos there]
    have hcount : count + deliveries (heard delivery e.1 :: (reacted ++ later)) =
        count + deliveries reacted + deliveries later := by
      rw [Nat.add_assoc, ← deliveries_append]
      rfl
    refine ⟨⟨⟨hlt, (contains_iff _ _).mp there⟩, ?_⟩, ?_, ?_, fun n hn hne => ?_, fun n s hs => ?_⟩
    · refine hreaction.lawful.append ?_ fun n hle hn => hrest.turns n hn (Nat.ne_of_gt (Nat.lt_of_lt_of_le hlt hle))
      rw [hreaction.tally]
      exact hrest.lawful
    · rw [hcall, hcount, List.foldl_cons, List.foldl_append]
      exact (congrArg (later.foldl Tally.next) hreaction.tally).trans hrest.tally
    · rw [turnsOf_heard, if_pos rfl, turnsOf_append, hreaction.turns _ hlt, List.nil_append, hrest.own, List.map_cons]
    · rw [turnsOf_heard, if_neg hne.symm, turnsOf_append, hreaction.turns n hn, List.nil_append,
        hrest.turns n (Nat.lt_add_right _ hn) hne]
    · rcases List.mem_append.mp ((List.mem_cons.mp hs).resolve_left Occurrence.noConfusion) with hs | hs
      · exact (List.suffix_cons _ _).trans (hreaction.inside n s hs)
      · exact hrest.inside n s hs

end

/-- The next identifier never falls. -/
theorem Run.nextId_le (h : Run subject within count w story w') : (subject w).nextId ≤ (subject w').nextId := by
  have htally := h.traces.tally
  have hnext := h.traces.lawful.made_eq.2
  rw [htally] at hnext
  exact Nat.le.intro hnext.symm

/-! ## Who hears what -/

/-- How a subject serves those who listen, as its history shows it. -/
structure Serves (story : List Occurrence) : Prop where
  /-- Identifiers are counted up from one, so that none is given again. -/
  fresh : made story = List.range' 1 (made story).length
  /-- A delivery comes to the registrations that exist when it starts, to each once and in order. -/
  turns : ∀ x y n within, story = x ++ .started n within :: y →
    n = deliveries x ∧ turnsOf n story = registered x ∧ (registered x).Pairwise (· < ·)
  /-- Who exists when the turn comes hears the delivery. -/
  heard : ∀ x y n id, story = x ++ .heard n id :: y → n < deliveries x ∧ id ∈ registered x
  /-- Who is gone when the turn comes is passed over. -/
  passed : ∀ x y n id, story = x ++ .passed n id :: y → n < deliveries x ∧ id ∉ registered x
  /-- Once a registration has ended, it hears nothing more. -/
  silent : ∀ x y id, story = x ++ .ended id :: y → ∀ n, .heard n id ∉ y

namespace Lawful

/-- From the start, those exist that are registered. -/
theorem ids_eq_registered (h : Lawful {} (x ++ y)) : (x.foldl Tally.next {}).ids = registered x := h.ids_eq

/-- The registrations stand in the order in which they were made. -/
theorem registered_pairwise (h : Lawful {} (x ++ y)) : (registered x).Pairwise (· < ·) := by
  have hmade : (made (x ++ y)).Pairwise (· < ·) := by
    rw [h.made_eq.1]
    exact List.pairwise_lt_range'
  rw [made_append] at hmade
  exact hmade.sublist (List.filter_sublist.trans (List.sublist_append_left _ _))

theorem count_eq_deliveries (x : List Occurrence) : (x.foldl Tally.next {}).count = deliveries x := by
  rw [count_foldl_next, Nat.zero_add]

theorem started (h : Lawful {} (x ++ .started n within :: y)) :
    n = deliveries x ∧ turnsOf n (x ++ .started n within :: y) = registered x := by
  obtain ⟨hn, hturns⟩ := h.allowed.1
  rw [count_eq_deliveries] at hn
  refine ⟨hn, ?_⟩
  rw [turnsOf_append, h.turnsOf_eq_nil (Nat.le_of_eq (by rw [Nat.zero_add, hn])), List.nil_append,
    ← h.ids_eq_registered]
  exact hturns

theorem heard (h : Lawful {} (x ++ .heard n id :: y)) : n < deliveries x ∧ id ∈ registered x := by
  rw [← h.ids_eq_registered, ← count_eq_deliveries]
  exact h.allowed.1

theorem passed (h : Lawful {} (x ++ .passed n id :: y)) : n < deliveries x ∧ id ∉ registered x := by
  rw [← h.ids_eq_registered, ← count_eq_deliveries]
  exact h.allowed.1

/-- A lawful history shows a subject that serves those who listen. -/
theorem serves (h : Lawful {} story) : Serves story := by
  have hheard : ∀ x y n id, story = x ++ .heard n id :: y → n < deliveries x ∧ id ∈ registered x := by
    rintro x y n id rfl
    exact h.heard
  refine ⟨h.made_eq.1, ?_, hheard, ?_, fun x y id hsplit n hmem => ?_⟩
  · rintro x y n within rfl
    exact ⟨h.started.1, h.started.2, h.registered_pairwise⟩
  · rintro x y n id rfl
    exact h.passed
  · obtain ⟨y, z, rfl⟩ := List.append_of_mem hmem
    have hthere := (hheard (x ++ .ended id :: y) z n id (by simp [hsplit])).2
    have hgone : id ∈ ended (x ++ .ended id :: y) := by
      rw [ended_append]
      exact List.mem_append_right _ List.mem_cons_self
    exact of_decide_eq_true (List.mem_filter.mp hthere).2 hgone

end Lawful

/-- A run of a subject that starts without registrations serves those who subscribe in it, whatever they do from
inside their calls and how deep they do it: subscribe others, end registrations, or start deliveries. The
registrations at the end are those that were made and not ended. -/
theorem Run.hears_exactly {story : List Occurrence} (hempty : subject w = ∅) (h : Run subject [] 0 w story w') :
    Serves story ∧ (subject w').ids = registered story := by
  obtain ⟨hlawful, htally, -⟩ := h.traces
  rw [hempty] at hlawful htally
  refine ⟨hlawful.serves, ?_⟩
  rw [← Lawful.ids_eq_registered (List.append_nil story ▸ hlawful)]
  exact (congrArg Tally.ids htally).symm

namespace Meddler

/-- The world is the subject itself. -/
def own (s : Subject Bool) : Subject Bool := s

/-- The meddling listener ends the second registration, subscribes another listener, and starts a delivery of its
own, which nobody answers. -/
def meddle (w : Subject Bool) (e : Nat × Bool) : Subject Bool :=
  if e.2 then deliver own (fun w _ => w) ((w.unsubscribe 2).subscribe false).1 else w

/-- A subject to which a meddling listener and two others subscribed. -/
def three : Subject Bool := (((∅ : Subject Bool).subscribe true).1.subscribe false).1.subscribe false |>.1

/-- What happens inside the call of the meddling listener. -/
def meddled : List Occurrence := [.ended 2, .made 4, .started 1 [1], .heard 1 1, .heard 1 3, .heard 1 4]

theorem run_meddle : Run own [1] 1 three meddled (meddle three (1, true)) := by
  have hended : Run own [1] 1 three [.ended 2] (three.unsubscribe 2) := .unsubscribe (by decide) rfl
  have hmade : Run own [1] 1 (three.unsubscribe 2) [.made 4] ((three.unsubscribe 2).subscribe false).1 :=
    .subscribe false rfl
  have hdelivered : Run own [1] 1 ((three.unsubscribe 2).subscribe false).1
      [.started 1 [1], .heard 1 1, .heard 1 3, .heard 1 4]
      (deliver own (fun w _ => w) ((three.unsubscribe 2).subscribe false).1) :=
    .deliver (.heard rfl (.rest rfl) (.heard rfl (.rest rfl) (.heard rfl (.rest rfl) .nil)))
  exact (hended.append (hmade.append hdelivered) :)

/-- Three listeners subscribe and hear a delivery. -/
def meddling : List Occurrence :=
  [.made 1, .made 2, .made 3, .started 0 [], .heard 0 1] ++ meddled ++ [.passed 0 2, .heard 0 3]

theorem run : Run own [] 0 (∅ : Subject Bool) meddling (deliver own meddle three) := by
  have hfirst : Run own [] 0 (∅ : Subject Bool) [.made 1] (Subject.subscribe ∅ true).1 := .subscribe true rfl
  have hsecond : Run own [] 0 (Subject.subscribe ∅ true).1 [.made 2] ((Subject.subscribe ∅ true).1.subscribe false).1 :=
    .subscribe false rfl
  have hthird : Run own [] 0 ((Subject.subscribe ∅ true).1.subscribe false).1 [.made 3] three := .subscribe false rfl
  have hdelivered : Run own [] 0 three (.started 0 [] :: .heard 0 1 :: (meddled ++ [.passed 0 2, .heard 0 3]))
      (deliver own meddle three) :=
    .deliver (.heard rfl run_meddle (.passed rfl (.heard rfl (.rest rfl) .nil)))
  exact (hfirst.append (hsecond.append (hthird.append hdelivered)) :)

/-- The second listener is passed over, and who subscribed meanwhile hears only the delivery started after that. -/
theorem hears_exactly_meddling : own ∅ = ∅ ∧ Serves meddling ∧
    (deliver own meddle three).ids = registered meddling :=
  ⟨rfl, @Run.hears_exactly _ _ own _ _ _ rfl run⟩

end Meddler

end LiveTables.Subject
