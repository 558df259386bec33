import LiveTables.Proofs.Network.Quiet
import LiveTables.Proofs.Observer.Account

/-!
# Observers that watch a table

A spectator is an observer outside that listens to one table, by a single registration (`Spectator.At`), and makes
something of each event that it hears, given the table as it is shown then. Other observers may do as they like
so long as they leave the spectator its registration and what it keeps (`Spectator.Attends`).

Observers that do nothing but watch their tables are a crowd (`crowd`).
-/

namespace LiveTables

open Network

/-- An observer of a table: its number, the table, what it keeps, and what it makes of an event. -/
structure Spectator (ω σ : Type) where
  id : Nat
  node : Nat
  mine : ω → σ
  hear : TableView → Event → σ → σ

variable {ω σ : Type} {o : Outside ω} {net net' : Network} {n m k : Nat} {i? : Option Nat}

namespace Spectator

/-- It is registered at its table under a number, or not at all, and nowhere else. -/
structure At (v : Spectator ω σ) (i? : Option Nat) (net : Network) : Prop where
  issued : v.node < net.nextId
  only : ∀ m k, (k, .observer v.id) ∈ net.entries m → m = v.node ∧ i? = some k
  present : ∀ k, i? = some k → net.content? v.node ≠ none → (k, .observer v.id) ∈ net.entries v.node

/-- Whether it is registered under a number, or not at all, and nowhere else. -/
def isAt (v : Spectator ω σ) (i? : Option Nat) (net : Network) : Bool :=
  v.node < net.nextId && net.nodes.all fun x =>
    (x.events.entries.all fun e => e.2 ≠ .observer v.id || (x.id = v.node && i? = some e.1)) &&
      (x.id ≠ v.node || i?.all fun k => (k, .observer v.id) ∈ x.events.entries)

/-- It is left what it keeps, and its registration. -/
structure Undisturbed (v : Spectator ω σ) (w w' : World ω) : Prop where
  mine : v.mine w'.outside = v.mine w.outside
  stays : ∀ i?, v.At i? w.network → v.At i? w'.network

/-- To hand events to other observers leaves it undisturbed. -/
def Spares (v : Spectator ω σ) (d : Dispatch ω) : Prop :=
  ∀ (w : World ω) id e, id ≠ v.id → v.Undisturbed w (d.inform w id e)

/-- It hears what it is told, and keeps its registration. The others leave it undisturbed, also when they
hand events to each other. -/
structure Attends (v : Spectator ω σ) (o : Outside ω) : Prop where
  others : ∀ d, v.Spares d → (∀ w id e, id ≠ v.id → v.Undisturbed w (o.onEvent d w id e)) ∧
    ∀ w id row, v.Undisturbed w (o.onCell d w id row)
  own : ∀ d, v.Spares d → ∀ w e, (∀ view, w.network.view? v.node = some view →
      v.mine (o.onEvent d w v.id e).outside = v.hear view e (v.mine w.outside)) ∧
    ∀ i?, v.At i? w.network → v.At i? (o.onEvent d w v.id e).network

variable {v : Spectator ω σ}

/-- What it keeps after an account, if it kept `s` before. -/
def after (v : Spectator ω σ) (L : Account) (s : σ) : σ := L.foldl (fun s x => v.hear x.1 x.2 s) s

@[simp] theorem after_nil (s : σ) : v.after [] s = s := rfl

theorem after_concat (L : Account) (x : TableView × Event) (s : σ) :
    v.after (L ++ [x]) s = v.hear x.1 x.2 (v.after L s) := by
  rw [after, List.foldl_append]
  rfl

theorem Undisturbed.refl (w : World ω) : v.Undisturbed w w := ⟨rfl, fun _ h => h⟩

theorem Attends.spares (h : v.Attends o) (depth : Nat) : v.Spares (World.dispatch o depth) := by
  induction depth with
  | zero => exact fun w id e _ => .refl w
  | succ depth ih => exact (h.others _ ih).1

/-! ## Registrations -/

/-- Only a table that is there has registrations. -/
theorem content?_of_mem_entries {entry : Nat × Listener} (h : entry ∈ net.entries m) : net.content? m ≠ none := by
  intro hnone
  rw [entries, subject_of_content?_eq_none hnone] at h
  exact absurd h List.not_mem_nil

namespace At

/-- Of the registrations of observers those are kept whose table is. -/
theorem of_entries (h : v.At i? net) (hnext : net.nextId ≤ net'.nextId)
    (hentries : ∀ m k, (k, .observer v.id) ∈ net'.entries m ↔
      (k, .observer v.id) ∈ net.entries m ∧ net'.content? m ≠ none)
    (hcontent : net'.content? v.node ≠ none → net.content? v.node ≠ none) : v.At i? net' where
  issued := Nat.lt_of_lt_of_le h.issued hnext
  only m k hk := h.only m k ((hentries m k).1 hk).1
  present k hk hn := (hentries v.node k).2 ⟨h.present k hk (hcontent hn), hn⟩

theorem hold (h : v.At i? net) : v.At i? (net.hold n) :=
  h.of_entries (Nat.le_refl _) (fun _ _ => (and_iff_left_of_imp content?_of_mem_entries).symm) fun hn => hn

theorem setContent {c : Content} (h : v.At i? net) : v.At i? (net.setContent n c) := by
  have hcontent (m : Nat) : (net.setContent n c).content? m ≠ none ↔ net.content? m ≠ none := by
    by_cases hm : m = n
    · subst hm
      rw [content?, content?, Network.setContent, node?_modify (fun x => by rfl)]
      simp
    · rw [content?_setContent_of_ne hm]
  refine h.of_entries (Nat.le_refl _) (fun m k => ?_) (hcontent _).1
  rw [entries, subject_setContent, hcontent]
  exact (and_iff_left_of_imp content?_of_mem_entries).symm

theorem sweep (h : v.At i? net) (ho : net.Ordered) : v.At i? net.sweep := by
  rcases sweep_cases net with heq | heq
  · rwa [heq]
  rw [heq]
  -- of a table that survives only registrations of joined tables are dropped
  refine h.of_entries (Nat.le_refl _) (fun m k => ?_) fun hn => ?_
  · by_cases hm : (net.restrict net.survivors).content? m = none
    · simp only [hm, ne_eq, not_true_eq_false, and_false, iff_false]
      exact fun hk => content?_of_mem_entries hk hm
    · rw [entries, subject_restrict ho survivors_sublist hm, Subject.forget, List.mem_filter, entries]
      simp [hm]
  · obtain ⟨c, hc⟩ := Option.ne_none_iff_exists'.1 hn
    rw [ho.content?_of_restrict survivors_sublist hc]
    simp

theorem release (h : v.At i? net) (ho : net.Ordered) : v.At i? (net.release n) := by
  have hlet : v.At i? { net with held := net.held.erase n } :=
    h.of_entries (Nat.le_refl _) (fun _ _ => (and_iff_left_of_imp content?_of_mem_entries).symm) fun hn => hn
  exact hlet.sweep ⟨ho.descending, ho.bounded, ho.sources⟩

/-- What the nodes tell. -/
theorem of_isAt (h : v.isAt i? net = true) : v.At i? net := by
  simp only [isAt, Bool.and_eq_true, decide_eq_true_eq, List.all_eq_true, Bool.or_eq_true] at h
  obtain ⟨hissued, hnodes⟩ := h
  have hnode {m : Nat} (hm : net.content? m ≠ none) :
      ∃ x ∈ net.nodes, x.id = m ∧ net.entries m = x.events.entries := by
    obtain ⟨c, hc⟩ := Option.ne_none_iff_exists'.1 hm
    obtain ⟨x, hx, -⟩ := content?_eq_some_iff.1 hc
    exact ⟨x, (node?_eq_some hx).1, (node?_eq_some hx).2, by rw [entries, subject_of_node? hx]⟩
  refine ⟨hissued, fun m k hk => ?_, fun k hk hn => ?_⟩
  · obtain ⟨x, hx, rfl, hentries⟩ := hnode (content?_of_mem_entries hk)
    rw [hentries] at hk
    exact ((hnodes x hx).1 _ hk).resolve_left fun hne => hne rfl
  · obtain ⟨x, hx, hid, hentries⟩ := hnode hn
    rw [hentries]
    rcases (hnodes x hx).2 with hne | hall
    · exact absurd hid hne
    · subst hk
      simpa using hall

/-- It registers. -/
theorem subscribe (h : v.At none net) : v.At (some (net.subject v.node .events).nextId)
    (net.subscribe v.node .events (.observer v.id)).1 where
  issued := h.issued
  only m k hk := by
    rw [entries, subject_subscribe] at hk
    split_ifs at hk with hm
    · obtain ⟨rfl, -⟩ := hm
      rcases List.mem_append.1 hk with hk | hk
      · exact absurd (h.only v.node k hk).2 (by simp)
      · exact ⟨rfl, congrArg some (Prod.mk.inj (List.mem_singleton.1 hk)).1.symm⟩
    · exact absurd (h.only m k hk).2 (by simp)
  present k hk hn := by
    rw [content?_subscribe] at hn
    rw [entries, subject_subscribe, if_pos ⟨rfl, hn⟩, ← Option.some.inj hk]
    exact List.mem_append_right _ List.mem_cons_self

/-- Under its number it is registered, and nobody else. -/
theorem mem_entries_iff {i : Nat} {l : Listener} (h : v.At (some i) net) (htidy : (net.subject m .events).Tidy)
    (hl : (k, l) ∈ net.entries m) : l = .observer v.id ↔ m = v.node ∧ k = i := by
  constructor
  · rintro rfl
    obtain ⟨hm, hk⟩ := h.only m k hl
    exact ⟨hm, (Option.some.inj hk).symm⟩
  · rintro ⟨rfl, rfl⟩
    have hmine := h.present k rfl (content?_of_mem_entries hl)
    exact (Prod.mk.inj (List.inj_on_of_nodup_map htidy.nodup hl hmine rfl)).2

/-- At its table it has one turn, and all other turns are of others. -/
theorem exists_turn {i : Nat} (h : v.At (some i) net) (htidy : (net.subject v.node .events).Tidy)
    (hn : net.content? v.node ≠ none) : ∃ before after,
      net.entries v.node = before ++ (i, .observer v.id) :: after ∧
        ∀ x ∈ before ++ after, x.2 ≠ .observer v.id := by
  obtain ⟨before, after, hentries⟩ := List.append_of_mem (h.present i rfl hn)
  refine ⟨before, after, hentries, fun x hx hl => ?_⟩
  have hmem : x ∈ net.entries v.node := by
    rw [hentries]
    exact List.perm_middle.mem_iff.2 (List.mem_cons_of_mem _ hx)
  have hi : x.1 = i := ((h.mem_entries_iff htidy hmem).1 hl).2
  have hnodup : ((net.entries v.node).map (·.1)).Nodup := htidy.nodup
  rw [hentries, List.map_append, List.map_cons, List.nodup_middle, ← List.map_append] at hnodup
  exact (List.nodup_cons.1 hnodup).1 (List.mem_map.2 ⟨x, hx, hi⟩)

end At

end Spectator

/-! ## Crowds -/

/-- Observers each of which watches one table, and all of which make the same of events. -/
def crowd (node : Nat → Nat) (hear : TableView → Event → σ → σ) : Outside (Nat → σ) where
  onEvent _ w id e :=
    match w.network.view? (node id) with
    | none => w
    | some view => { w with outside := Function.update w.outside id (hear view e (w.outside id)) }
  onCell _ w _ _ := w

/-- One of a crowd. -/
def crowdSpectator (node : Nat → Nat) (hear : TableView → Event → σ → σ) (id : Nat) : Spectator (Nat → σ) σ where
  id
  node := node id
  mine s := s id
  hear

section Crowd

variable {node : Nat → Nat} {hear : TableView → Event → σ → σ}

theorem network_crowd (d : Dispatch (Nat → σ)) (w : World (Nat → σ)) (id : Nat) (e : Event) :
    ((crowd node hear).onEvent d w id e).network = w.network := by
  simp only [crowd]
  split <;> rfl

theorem quiet_crowd : (crowd node hear).Quiet := fun _ _ => by
  refine ⟨fun w id e => ?_, fun _ _ _ => .refl⟩
  rw [network_crowd]
  exact .refl

theorem attends_crowd (id : Nat) : (crowdSpectator node hear id).Attends (crowd node hear) where
  others d _ := by
    refine ⟨fun w id' e hid => ⟨?_, fun i? hi => (network_crowd d w id' e).symm ▸ hi⟩, fun w _ _ => .refl w⟩
    simp only [crowdSpectator, crowd]
    split
    · rfl
    · exact Function.update_of_ne (Ne.symm hid) _ _
  own d _ w e := by
    refine ⟨fun view hview => ?_, fun i? hi => (network_crowd d w id e).symm ▸ hi⟩
    have hview' : w.network.view? (node id) = some view := hview
    simp only [crowdSpectator, crowd, hview']
    exact Function.update_self _ _ _

end Crowd

/-! ## Records -/

/-- What an observer does that records all it hears. -/
def Account.record (view : TableView) (e : Event) (L : Account) : Account := L ++ [(view, e)]

/-- It has its account. -/
theorem Spectator.after_record {v : Spectator ω Account} (hhear : v.hear = Account.record) (L L₀ : Account) :
    v.after L L₀ = L₀ ++ L := by
  induction L using List.reverseRecOn with
  | nil => rw [List.append_nil, after_nil]
  | append_singleton L x ih => rw [after_concat, ih, hhear, Account.record, List.append_assoc]

/-- Observers that record what they hear of the table of their number. -/
def recorders : Outside (Nat → Account) := crowd (fun id => id) Account.record

/-- The one that records what is heard of a table. -/
def recorder (n : Nat) : Spectator (Nat → Account) Account := crowdSpectator (fun id => id) Account.record n

theorem quiet_recorders : recorders.Quiet := quiet_crowd

theorem attends_recorder (n : Nat) : (recorder n).Attends recorders := attends_crowd n

end LiveTables
