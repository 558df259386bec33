import LiveTables.Proofs.Network.Reachable
import LiveTables.Proofs.Subject.History
import Mathlib.Data.List.Perm.Basic

/-!
# The order in which deliveries are heard

Deliveries nest: one that is started inside a call is finished before the delivery around it goes on. So whoever
comes later in the outer delivery hears the inner one first, although it was started last.

Two registrations that last for a whole run hear the same deliveries, each once. They hear them in the same order
just when no delivery is started inside the call of a registration between them, and in the order in which the
deliveries are started just when none is started inside the call of an older one (`Subject.Run.heard_in_order`).
-/

namespace LiveTables.Subject

variable {σ ι : Type} {subject : σ → Subject ι} {call : σ → Nat × ι → σ} {w w' : σ} {within : List Nat}
  {count delivery a b id n x : Nat} {e : Nat × ι} {entries : List (Nat × ι)} {t : Tally}
  {o : Occurrence} {story story' reacted later : List Occurrence} {P : Nat → Prop}

open Occurrence

/-! ## What a registration hears -/

/-- The deliveries that a registration hears, in order. Identifiers begin with one; under zero stand all deliveries,
in the order in which they are started. -/
def heardBy (x : Nat) (story : List Occurrence) : List Nat := story.filterMap fun
  | .started n _ => if x = 0 then some n else none
  | .heard n id => if id = x then some n else none
  | _ => none

theorem heardBy_append (x : Nat) (story story' : List Occurrence) :
    heardBy x (story ++ story') = heardBy x story ++ heardBy x story' := List.filterMap_append

theorem heardBy_started (x n : Nat) (within : List Nat) (story : List Occurrence) :
    heardBy x (started n within :: story) = if x = 0 then n :: heardBy x story else heardBy x story := by
  unfold heardBy
  rw [List.filterMap_cons]
  by_cases hx : x = 0 <;> simp [hx]

theorem heardBy_heard (x n id : Nat) (story : List Occurrence) :
    heardBy x (heard n id :: story) = if id = x then n :: heardBy x story else heardBy x story := by
  unfold heardBy
  rw [List.filterMap_cons]
  by_cases hx : id = x <;> simp [hx]

/-- Deliveries that are started inside the calls `within` are started, beyond these, only inside calls of
registrations of a sort. -/
def Inside (P : Nat → Prop) (within : List Nat) (story : List Occurrence) : Prop :=
  ∀ n s, started n (s ++ within) ∈ story → ∀ x ∈ s, P x

theorem inside_append : Inside P within (story ++ story') ↔ Inside P within story ∧ Inside P within story' := by
  unfold Inside
  simp only [List.mem_append, or_imp, forall_and]

theorem inside_heard : Inside P within (heard n id :: story) ↔ Inside P within story := by
  simp [Inside]

theorem inside_passed : Inside P within (passed n id :: story) ↔ Inside P within story := by
  simp [Inside]

theorem inside_started : Inside P within (started n within :: story) ↔ Inside P within story := by
  simp [Inside, or_imp, forall_and]

theorem started_mem_of_deliveries (h : deliveries story ≠ 0) : ∃ n s, started n s ∈ story := by
  obtain ⟨o, ho, hstarted⟩ := List.countP_pos_iff.mp (Nat.pos_of_ne_zero h)
  cases o with
  | started n s => exact ⟨n, s, ho⟩
  | made | ended | heard | passed => exact absurd hstarted Bool.false_ne_true

theorem deliveries_ne_zero (h : started n within ∈ story) : deliveries story ≠ 0 :=
  Nat.ne_of_gt (List.countP_pos_iff.mpr ⟨_, h, rfl⟩)

/-- What is started inside a call, seen from outside of it. -/
theorem inside_reaction (hinside : ∀ n s, started n s ∈ story → (x :: within) <:+ s) :
    Inside P within story ↔ Inside P (x :: within) story ∧ (deliveries story ≠ 0 → P x) := by
  constructor
  · intro h
    refine ⟨fun n s hs y hy => ?_, fun hne => ?_⟩
    · exact h n (s ++ [x]) (by simpa using hs) y (List.mem_append_left _ hy)
    · obtain ⟨n, s, hs⟩ := started_mem_of_deliveries hne
      obtain ⟨s, rfl⟩ := hinside n s hs
      exact h n (s ++ [x]) (by simpa using hs) x (by simp)
  · intro ⟨h, hx⟩ n s hs y hy
    obtain ⟨s', heq⟩ := hinside n _ hs
    rw [← heq] at hs
    have hsplit : s = s' ++ [x] := List.append_cancel_right (heq.symm.trans (by simp))
    rw [hsplit, List.mem_append, List.mem_singleton] at hy
    rcases hy with hy | rfl
    · exact h n s' hs y hy
    · exact hx (deliveries_ne_zero hs)

/-! ## Registrations that last -/

namespace Tally

/-- The registrations stand in the order of their identifiers, which were all issued. -/
structure Ascends (t : Tally) : Prop where
  sorted : t.ids.Pairwise (· < ·)
  issued : ∀ id ∈ t.ids, 0 < id ∧ id < t.nextId
  next_pos : 0 < t.nextId

theorem ascends_start : ({} : Tally).Ascends := ⟨.nil, by simp, Nat.one_pos⟩

/-- Nothing that may happen changes the order. -/
theorem Ascends.next (h : t.Ascends) (ho : Allowed t later o) : (t.next o).Ascends := by
  cases o with
  | made id =>
    obtain rfl : id = t.nextId := ho
    refine ⟨?_, ?_, Nat.succ_pos _⟩
    · refine List.pairwise_append.mpr ⟨h.sorted, List.pairwise_singleton _ _, fun x hx y hy => ?_⟩
      rw [List.mem_singleton.mp hy]
      exact (h.issued x hx).2
    · intro id hid
      rcases List.mem_append.mp hid with hid | hid
      · exact ⟨(h.issued id hid).1, Nat.lt_succ_of_lt (h.issued id hid).2⟩
      · rw [List.mem_singleton.mp hid]
        exact ⟨h.next_pos, Nat.lt_succ_self _⟩
  | ended id =>
    exact ⟨h.sorted.sublist List.filter_sublist, fun x hx => h.issued x (List.mem_of_mem_filter hx), h.next_pos⟩
  | started => exact ⟨h.sorted, h.issued, h.next_pos⟩
  | heard | passed => exact h

/-- The number of deliveries is of no matter. -/
theorem Ascends.recount {s : Subject ι} (h : (ofSubject s count).Ascends) (n : Nat) : (ofSubject s n).Ascends :=
  ⟨h.sorted, h.issued, h.next_pos⟩

theorem Ascends.foldl (h : t.Ascends) (hstory : Lawful t story) : (story.foldl Tally.next t).Ascends := by
  induction story generalizing t with
  | nil => exact h
  | cons o story ih => exact ih (h.next hstory.1) hstory.2

end Tally

/-- A registration that lasts: it exists, and it is not ended. Zero lasts anyway. -/
structure Lasts (subject : σ → Subject ι) (x count : Nat) (w : σ) (story : List Occurrence) : Prop where
  ascends : (Tally.ofSubject (subject w) count).Ascends
  lasts : x = 0 ∨ x ∈ (subject w).ids ∧ x ∉ ended story

namespace Lasts

theorem left (h : Lasts subject x count w (story ++ story')) : Lasts subject x count w story := by
  refine ⟨h.ascends, h.lasts.imp_right fun hx => ⟨hx.1, fun hmem => hx.2 ?_⟩⟩
  rw [ended_append]
  exact List.mem_append_left _ hmem

/-- What lasts is there for what happens next, however many deliveries are counted. -/
theorem rest (h : Lasts subject x count w (o :: story)) (n : Nat) : Lasts subject x n w story := by
  refine ⟨h.ascends.recount n, h.lasts.imp_right fun hx => ⟨hx.1, fun hmem => hx.2 ?_⟩⟩
  rw [← List.singleton_append, ended_append]
  exact List.mem_append_right _ hmem

/-- What lasts is still there after the first part of a run. -/
theorem right (h : Lasts subject x count w (story ++ story')) (hrun : Run subject within count w story w') :
    Lasts subject x (count + deliveries story) w' story' := by
  have htraces := hrun.traces
  refine ⟨htraces.tally ▸ h.ascends.foldl htraces.lawful, h.lasts.imp_right fun hx => ?_⟩
  rw [ended_append, List.mem_append, not_or] at hx
  have hids : (subject w').ids = ((subject w).ids ++ made story).filter (· ∉ ended story) := by
    have hids := Lawful.ids_eq (List.append_nil story ▸ htraces.lawful)
    rw [htraces.tally] at hids
    exact hids
  rw [hids, List.mem_filter]
  exact ⟨⟨List.mem_append_left _ hx.1, decide_eq_true hx.2.1⟩, hx.2.2⟩

/-- Who is passed over does not last. -/
theorem ne_of_gone (h : Lasts subject x count w story) (hgone : (subject w).contains e.1 = false) (he : 0 < e.1) :
    e.1 ≠ x := by
  rintro rfl
  rcases h.lasts with hzero | ⟨hmem, -⟩
  · omega
  · exact Bool.false_ne_true (hgone.symm.trans ((contains_iff _ _).mpr hmem))

end Lasts

/-! ## The turns of a delivery -/

/-- The turn of a registration is still to come, or it is over. -/
structure Placed (x : Nat) (entries : List (Nat × ι)) : Prop where
  sorted : (entries.map (·.1)).Pairwise (· < ·)
  positive : ∀ e ∈ entries, 0 < e.1
  due : x ∈ entries.map (·.1) ∨ ∀ e ∈ entries, x < e.1

/-- What a registration hears from a place in a delivery on. When its turn is over, the delivery stands first. -/
def hearing (x delivery : Nat) (entries : List (Nat × ι)) (story : List Occurrence) : List Nat :=
  if x ∈ entries.map (·.1) then heardBy x story else delivery :: heardBy x story

namespace Placed

theorem lt_of_mem (h : Placed x (e :: entries)) (hmem : id ∈ entries.map (·.1)) : e.1 < id :=
  List.rel_of_pairwise_cons h.sorted hmem

theorem tail (h : Placed x (e :: entries)) : Placed x entries := by
  refine ⟨h.sorted.of_cons, fun e he => h.positive e (List.mem_cons_of_mem _ he), ?_⟩
  rcases h.due with hmem | hlt
  · rcases List.mem_cons.mp hmem with rfl | hmem
    · exact .inr fun e he => h.lt_of_mem (List.mem_map_of_mem he)
    · exact .inl hmem
  · exact .inr fun e he => hlt e (List.mem_cons_of_mem _ he)

theorem mem_of_lt (h : Placed x (e :: entries)) (hlt : e.1 < x) : x ∈ entries.map (·.1) := by
  rcases h.due with hmem | hall
  · exact (List.mem_cons.mp hmem).resolve_left (Nat.ne_of_gt hlt)
  · have := hall e List.mem_cons_self
    omega

theorem not_mem_of_le (h : Placed x (e :: entries)) (hle : x ≤ e.1) : x ∉ entries.map (·.1) := by
  intro hmem
  have := h.lt_of_mem hmem
  omega

theorem hearing_passed (hne : e.1 ≠ x) : hearing x delivery (e :: entries) (passed delivery e.1 :: story) =
    hearing x delivery entries story := by
  have hmem : x ∈ (e :: entries).map (·.1) ↔ x ∈ entries.map (·.1) := by
    rw [List.map_cons, List.mem_cons, or_iff_right hne.symm]
  unfold hearing
  simp only [hmem]
  rfl

/-- Before its own turn, a registration hears what the others start. -/
theorem hearing_of_lt (h : Placed x (e :: entries)) (hlt : e.1 < x) :
    hearing x delivery (e :: entries) (heard delivery e.1 :: (reacted ++ later)) =
      heardBy x reacted ++ hearing x delivery entries later := by
  have hmem := h.mem_of_lt hlt
  have hmem' : x ∈ (e :: entries).map (·.1) := List.mem_cons_of_mem _ hmem
  unfold hearing
  rw [if_pos hmem', if_pos hmem, heardBy_heard, if_neg (Nat.ne_of_lt hlt), heardBy_append]

/-- From its own turn on, it hears this after the delivery. -/
theorem hearing_of_le (h : Placed x (e :: entries)) (hle : x ≤ e.1) :
    hearing x delivery (e :: entries) (heard delivery e.1 :: (reacted ++ later)) =
      delivery :: (heardBy x reacted ++ heardBy x later) := by
  have hmem := h.not_mem_of_le hle
  unfold hearing
  rw [heardBy_heard, heardBy_append]
  by_cases heq : e.1 = x
  · rw [if_pos heq, if_pos (heq ▸ List.mem_cons_self)]
  · rw [if_neg heq, if_neg]
    exact fun h => hmem ((List.mem_cons.mp h).resolve_left (Ne.symm heq))

theorem hearing_over (h : Placed x (e :: entries)) (hle : x ≤ e.1) :
    hearing x delivery entries later = delivery :: heardBy x later := if_neg (h.not_mem_of_le hle)

end Placed

namespace Lasts

theorem placed (h : Lasts subject x count w story) : Placed x (subject w).entries := by
  have hpositive : ∀ e ∈ (subject w).entries, 0 < e.1 := fun e he => (h.ascends.issued _ (List.mem_map_of_mem he)).1
  refine ⟨h.ascends.sorted, hpositive, ?_⟩
  rcases h.lasts with rfl | hx
  · exact .inr hpositive
  · exact .inl hx.1

theorem heardBy_started (h : Lasts subject x count w (started n within :: story)) :
    heardBy x (started n within :: story) = hearing x n (subject w).entries story := by
  unfold hearing
  rw [Subject.heardBy_started]
  rcases h.lasts with rfl | ⟨hmem, -⟩
  · rw [if_pos rfl, if_neg]
    exact fun hmem => Nat.lt_irrefl 0 (h.ascends.issued 0 hmem).1
  · rw [if_neg (Nat.ne_of_gt (h.ascends.issued x hmem).1)]
    exact (if_pos hmem).symm

end Lasts

/-! ## Everything is heard once -/

mutual

theorem Run.heardBy_perm {within : List Nat} {count : Nat} {w w' : σ} {story : List Occurrence}
    (hx : Lasts subject x count w story) : Run subject within count w story w' →
      (heardBy x story).Perm (List.range' count (deliveries story))
  | .rest same => .nil
  | .subscribe listener done => .nil
  | .unsubscribe issued done => .nil
  | .deliver turns => by
    have hperm := Turns.hearing_perm hx.placed (hx.rest _) turns
    rw [hx.heardBy_started, deliveries_cons, Nat.add_comm]
    exact hperm
  | .append first second => by
    have hfirst := first.heardBy_perm hx.left
    have hsecond := second.heardBy_perm (hx.right first)
    rw [heardBy_append, deliveries_append, ← List.range'_append_1]
    exact hfirst.append hsecond

theorem Turns.hearing_perm {within : List Nat} {delivery : Nat} {call : σ → Nat × ι → σ} {count : Nat}
    {entries : List (Nat × ι)} {w : σ} {story : List Occurrence} (hplaced : Placed x entries)
    (hx : Lasts subject x count w story) : Turns subject within delivery call count entries w story →
      (hearing x delivery entries story).Perm (delivery :: List.range' count (deliveries story))
  | .nil => .refl _
  | .passed gone turns => by
    rw [Placed.hearing_passed (hx.ne_of_gone gone (hplaced.positive _ List.mem_cons_self))]
    exact turns.hearing_perm hplaced.tail (hx.rest _)
  | .heard there reaction turns => by
    rename_i e rest reacted later
    have hboth : Lasts subject x count w (reacted ++ later) := hx.rest _
    have hreacted := reaction.heardBy_perm hboth.left
    have hlater := turns.hearing_perm hplaced.tail (hboth.right reaction)
    have hcount : deliveries (heard delivery e.1 :: (reacted ++ later)) = deliveries reacted + deliveries later :=
      deliveries_append reacted later
    rw [hcount, ← List.range'_append_1]
    rcases Nat.lt_or_ge e.1 x with hlt | hle
    · rw [hplaced.hearing_of_lt hlt]
      exact (hreacted.append hlater).trans List.perm_middle
    · rw [hplaced.hearing_over hle] at hlater
      rw [hplaced.hearing_of_le hle]
      exact (hreacted.append hlater.cons_inv).cons _

end

/-! ## When two registrations hear the same order -/

/-- A registration between two others, the older one included. -/
def Between (a b x : Nat) : Prop := a ≤ x ∧ x < b

theorem append_eq_append_iff_of_perm (hperm : (heardBy a reacted).Perm (heardBy b reacted))
    {l l' : List Nat} :
    heardBy a reacted ++ l = heardBy b reacted ++ l' ↔ heardBy a reacted = heardBy b reacted ∧ l = l' :=
  ⟨fun h => List.append_inj h hperm.length_eq, fun ⟨h, h'⟩ => by rw [h, h']⟩

theorem cons_ne_append_of_perm {l l' : List Nat} (hdelivery : delivery < count) (hpos : 0 < deliveries reacted)
    (hperm : (heardBy b reacted).Perm (List.range' count (deliveries reacted))) :
    delivery :: l ≠ heardBy b reacted ++ l' := by
  intro h
  have hne : heardBy b reacted ≠ [] := by
    intro hnil
    have hlength := hperm.length_eq
    rw [hnil, List.length_nil, List.length_range'] at hlength
    omega
  obtain ⟨y, m, hy⟩ := List.exists_cons_of_ne_nil hne
  have hmem : y ∈ List.range' count (deliveries reacted) := hperm.subset (hy ▸ List.mem_cons_self)
  have hle := (List.mem_range'_1.mp hmem).1
  rw [hy, List.cons_append] at h
  have heq := (List.cons.inj h).1
  omega

mutual

theorem Run.same_iff {within : List Nat} {count : Nat} {w w' : σ} {story : List Occurrence} (hlt : a < b)
    (ha : Lasts subject a count w story) (hb : Lasts subject b count w story) :
    Run subject within count w story w' →
      (heardBy a story = heardBy b story ↔ Inside (¬ Between a b ·) within story)
  | .rest same => by simp [heardBy, Inside]
  | .subscribe listener done => by simp [heardBy, Inside]
  | .unsubscribe issued done => by simp [heardBy, Inside]
  | .deliver turns => by
    rw [ha.heardBy_started, hb.heardBy_started, inside_started]
    exact Turns.same_iff hlt (Nat.lt_succ_self _) ha.placed hb.placed (ha.rest _) (hb.rest _) turns
  | .append first second => by
    have hperm := (first.heardBy_perm ha.left).trans (first.heardBy_perm hb.left).symm
    rw [heardBy_append, heardBy_append, append_eq_append_iff_of_perm hperm, inside_append,
      first.same_iff hlt ha.left hb.left, second.same_iff hlt (ha.right first) (hb.right first)]

theorem Turns.same_iff {within : List Nat} {delivery : Nat} {call : σ → Nat × ι → σ} {count : Nat}
    {entries : List (Nat × ι)} {w : σ} {story : List Occurrence} (hlt : a < b) (hdelivery : delivery < count)
    (hplaced : Placed a entries) (hplaced' : Placed b entries)
    (ha : Lasts subject a count w story) (hb : Lasts subject b count w story) :
    Turns subject within delivery call count entries w story →
      (hearing a delivery entries story = hearing b delivery entries story ↔
        Inside (¬ Between a b ·) within story)
  | .nil => by simp [hearing, heardBy, Inside]
  | .passed gone turns => by
    have hpositive := hplaced.positive _ List.mem_cons_self
    rw [Placed.hearing_passed (ha.ne_of_gone gone hpositive), Placed.hearing_passed (hb.ne_of_gone gone hpositive),
      inside_passed]
    exact turns.same_iff hlt hdelivery hplaced.tail hplaced'.tail (ha.rest _) (hb.rest _)
  | .heard there reaction turns => by
    rename_i e rest reacted later
    have hfirst : Lasts subject a count w (reacted ++ later) := ha.rest _
    have hsecond : Lasts subject b count w (reacted ++ later) := hb.rest _
    have hperm := reaction.heardBy_perm hfirst.left
    have hperm' := reaction.heardBy_perm hsecond.left
    have hreaction := reaction.same_iff hlt hfirst.left hsecond.left
    have hrest := turns.same_iff hlt (Nat.lt_add_right _ hdelivery) hplaced.tail hplaced'.tail
      (hfirst.right reaction) (hsecond.right reaction)
    rw [inside_heard, inside_append, inside_reaction reaction.traces.inside, ← hreaction, ← hrest]
    rcases Nat.lt_or_ge e.1 a with hea | hea
    · -- the turns of both are still to come
      have hnot : ¬ Between a b e.1 := fun h => Nat.not_le_of_lt hea h.1
      rw [hplaced.hearing_of_lt hea, hplaced'.hearing_of_lt (Nat.lt_trans hea hlt),
        append_eq_append_iff_of_perm (hperm.trans hperm'.symm)]
      simp [hnot]
    · rcases Nat.lt_or_ge e.1 b with heb | heb
      · -- only the turn of the older one is over, and the younger one hears first what is started here
        rw [hplaced.hearing_of_le hea, hplaced'.hearing_of_lt heb, hplaced.hearing_over hea]
        rcases Nat.eq_zero_or_pos (deliveries reacted) with hzero | hpos
        · rw [hzero, List.range'_zero] at hperm hperm'
          rw [hperm.eq_nil, hperm'.eq_nil]
          simp [hzero]
        · refine ⟨fun h => absurd h ?_, fun h => absurd ⟨hea, heb⟩ (h.1.2 (Nat.ne_of_gt hpos))⟩
          exact cons_ne_append_of_perm hdelivery hpos hperm'
      · -- the turns of both are over
        have hnot : ¬ Between a b e.1 := fun h => Nat.not_lt_of_le heb h.2
        rw [hplaced.hearing_of_le hea, hplaced'.hearing_of_le heb, hplaced.hearing_over hea,
          hplaced'.hearing_over heb, List.cons_inj_right, List.cons_inj_right,
          append_eq_append_iff_of_perm (hperm.trans hperm'.symm)]
        simp [hnot]

end

/-- Under zero stand the deliveries as they are started. -/
theorem Lawful.heardBy_zero (h : Lawful t story) (hascends : t.Ascends) :
    heardBy 0 story = List.range' t.count (deliveries story) := by
  induction story generalizing t with
  | nil => rfl
  | cons o story ih =>
    have hrest := ih h.2 (hascends.next h.1)
    rw [count_next] at hrest
    cases o with
    | made | ended | passed => exact hrest
    | started n s =>
      obtain rfl : n = t.count := h.1.1
      rw [heardBy_started, if_pos rfl, deliveries_cons, Nat.add_comm, hrest]
      rfl
    | heard n id =>
      have hpositive := (hascends.issued id h.1.2).1
      rw [heardBy_heard, if_neg (Nat.ne_of_gt hpositive)]
      exact hrest

/-- Two registrations that last for a run hear all deliveries of it, each once. They hear them in the same order just
when none is started inside the call of a registration between them; and either hears them in the order in which they
are started just when none is started inside the call of an older one. -/
theorem Run.heard_in_order {w₀ : σ} {setup : List Occurrence} (hempty : subject w₀ = ∅)
    (hsetup : Run subject [] 0 w₀ setup w) (h : Run subject [] (deliveries setup) w story w') (hlt : a < b)
    (ha : a ∈ (subject w).ids) (hb : b ∈ (subject w).ids) (hlasts : a ∉ ended story) (hlasts' : b ∉ ended story) :
    (∀ x ∈ [a, b], (heardBy x story).Perm (List.range' (deliveries setup) (deliveries story))) ∧
    (heardBy a story = heardBy b story ↔ ∀ n s, started n s ∈ story → ∀ x ∈ s, ¬ (a ≤ x ∧ x < b)) ∧
    ∀ x ∈ [a, b], heardBy x story = List.range' (deliveries setup) (deliveries story) ↔
      ∀ n s, started n s ∈ story → ∀ y ∈ s, x ≤ y := by
  have htraces := hsetup.traces
  have hascends : (Tally.ofSubject (subject w) (deliveries setup)).Ascends := by
    have hstart : (Tally.ofSubject (subject w₀) 0).Ascends := by
      rw [hempty]
      exact Tally.ascends_start
    have hend := hstart.foldl htraces.lawful
    rw [htraces.tally, Nat.zero_add] at hend
    exact hend
  have hof : ∀ x ∈ [a, b], 0 < x ∧ Lasts subject x (deliveries setup) w story := by
    intro x hx
    rcases List.mem_pair.mp hx with rfl | rfl
    · exact ⟨(hascends.issued x ha).1, hascends, .inr ⟨ha, hlasts⟩⟩
    · exact ⟨(hascends.issued x hb).1, hascends, .inr ⟨hb, hlasts'⟩⟩
  have hinside (P : Nat → Prop) : Inside P [] story ↔ ∀ n s, started n s ∈ story → ∀ x ∈ s, P x := by
    simp only [Inside, List.append_nil]
  refine ⟨fun x hx => h.heardBy_perm (hof x hx).2, ?_, fun x hx => ?_⟩
  · rw [h.same_iff hlt (hof a (by simp)).2 (hof b (by simp)).2, hinside]
    rfl
  · have hzero : heardBy 0 story = List.range' (deliveries setup) (deliveries story) :=
      h.traces.lawful.heardBy_zero hascends
    rw [← hzero, eq_comm, h.same_iff (hof x hx).1 ⟨hascends, .inl rfl⟩ (hof x hx).2, hinside]
    simp [Between]

namespace Echo

/-- The world is the subject itself. -/
def own (s : Subject Unit) : Subject Unit := s

/-- Two listeners. -/
def pair : Subject Unit := ((∅ : Subject Unit).subscribe ()).1.subscribe () |>.1

/-- One of the listeners answers with a delivery, which nobody answers. -/
def answer (answerer : Nat) (w : Subject Unit) (e : Nat × Unit) : Subject Unit :=
  if e.1 = answerer then deliver own (fun w _ => w) w else w

theorem run_pair : Run own [] 0 (∅ : Subject Unit) [.made 1, .made 2] pair := by
  have hfirst : Run own [] 0 (∅ : Subject Unit) [.made 1] ((∅ : Subject Unit).subscribe ()).1 := .subscribe () rfl
  have hsecond : Run own [] 0 ((∅ : Subject Unit).subscribe ()).1 [.made 2] pair := .subscribe () rfl
  exact (hfirst.append hsecond :)

theorem run_answer (within : List Nat) : Run own within 1 pair
    [.started 1 within, .heard 1 1, .heard 1 2] (deliver own (fun w _ => w) pair) :=
  .deliver (.heard rfl (.rest rfl) (.heard rfl (.rest rfl) .nil))

/-- What happens if the younger listener answers. -/
def late : List Occurrence :=
  [.started 0 [], .heard 0 1, .heard 0 2, .started 1 [2], .heard 1 1, .heard 1 2]

theorem run_late : Run own [] 0 pair late (deliver own (answer 2) pair) := by
  have hturns : Turns own [] 0 (answer 2) 1 pair.entries pair
      (.heard 0 1 :: ([] ++ .heard 0 2 :: ([.started 1 [2], .heard 1 1, .heard 1 2] ++ []))) :=
    .heard rfl (.rest rfl) (.heard rfl (run_answer [2]) .nil)
  exact .deliver hturns

/-- Then both hear the answer last. -/
theorem heard_in_order_late : 1 ∈ (own pair).ids ∧ 2 ∈ (own pair).ids ∧ 1 ∉ ended late ∧ 2 ∉ ended late ∧
    heardBy 1 late = [0, 1] ∧ heardBy 2 late = [0, 1] := by
  have h := @Run.heard_in_order _ _ own _ _ 1 2 late _ _ rfl run_pair run_late (by decide) (by decide) (by decide)
    (by decide) (by decide)
  have hinside : ∀ n s, started n s ∈ late → ∀ y ∈ s, 2 ≤ y := by
    intro n s hs y hy
    simp only [late, List.mem_cons, Occurrence.started.injEq, reduceCtorEq, false_or, or_false, List.not_mem_nil] at hs
    rcases hs with ⟨rfl, rfl⟩ | ⟨rfl, rfl⟩
    · exact absurd hy List.not_mem_nil
    · exact Nat.le_of_eq (List.mem_singleton.mp hy).symm
  refine ⟨by decide, by decide, by decide, by decide, ?_, (h.2.2 2 (by simp)).2 hinside⟩
  exact (h.2.2 1 (by simp)).2 fun n s hs y hy => Nat.le_of_succ_le (hinside n s hs y hy)

/-- What happens if the older listener answers. -/
def early : List Occurrence :=
  [.started 0 [], .heard 0 1, .started 1 [1], .heard 1 1, .heard 1 2, .heard 0 2]

theorem run_early : Run own [] 0 pair early (deliver own (answer 1) pair) := by
  have hturns : Turns own [] 0 (answer 1) 1 pair.entries pair
      (.heard 0 1 :: ([.started 1 [1], .heard 1 1, .heard 1 2] ++ .heard 0 2 :: ([] ++ []))) :=
    .heard rfl (run_answer [1]) (.heard rfl (.rest rfl) .nil)
  exact .deliver hturns

/-- Observers who note what they hear. The first one writes a cell of each row that is added. -/
def writers : Outside (List (Nat × Event)) where
  onEvent d w observer e :=
    let w := { w with outside := w.outside ++ [(observer, e)] }
    if observer = 0 ∧ e.action = .add then ((Call.setValue 0 "k" e.row (.int32 1)).perform d w).getD w else w
  onCell _ w _ _ := w

/-- A table of one column. -/
def schema : Schema where
  name := "t"
  columns := [{ id := "k", kind := .int32 }]
  nodup := by simp
  kind_default := by decide

/-- The table with two observers, of whom the writing one subscribed first. -/
def observed : World (List (Nat × Event)) :=
  let w : World (List (Nat × Event)) :=
    { network := (({} : Network).insert (.stored (.ofSchema schema))).1.hold 0, outside := [] }
  ((w.subscribe 0 0).1.subscribe 0 1).1

/-- What an observer hears if a row is added. -/
def heardOf (observer : Nat) : Option (List Event) :=
  ((Call.addRow 0).perform (World.dispatch writers 3) observed).map fun w =>
    (w.outside.filter (·.1 = observer)).map (·.2)

/-- Then only the older one hears the answer last. On a table, the younger observer hears that a row is updated before
it hears that the row is added. -/
theorem not_heard_in_order_early : Run own [] 0 pair early (deliver own (answer 1) pair) ∧ 1 ∈ (own pair).ids ∧
    2 ∈ (own pair).ids ∧ 1 ∉ ended early ∧ 2 ∉ ended early ∧ heardBy 1 early = [0, 1] ∧ heardBy 2 early = [1, 0] ∧
    heardOf 0 = some [.added 0, .updated 0 ["k"]] ∧ heardOf 1 = some [.updated 0 ["k"], .added 0] :=
  ⟨run_early, by decide, by decide, by decide, by decide, rfl, rfl, by decide +kernel, by decide +kernel⟩

end Echo

end LiveTables.Subject
