import LiveTables.Network.World
import LiveTables.Proofs.Network.Wave

/-!
# Quiet observers

An observer is quiet if it leaves the cells of all tables alone: it may read, register and end registrations
of observers, hold tables and let them go, and make new ones (`Quietly`, `Outside.Quiet`). Tables may go on that
occasion, with all that is joined from them, and the rest stays as it is, so that a wave goes on
(`Quietly.wave`).

What happens above a table leaves the table alone, and all that is older (`Follows`).

Of a network that is only orderly, whatever calls it came from, quiet steps keep that much (`Retains`).
-/

namespace LiveTables

namespace Network

variable {net net' net'' : Network} {Q Q' : Queues} {n n₀ m K : Nat} {j : JoinedTable} {s : Side}

/-- What can be done to a network without writing, and without joining tables. -/
inductive Quietly (net : Network) : Network → Prop
  | refl : Quietly net net
  | subscribe {net' : Network} {node : Nat} {stream : Stream} {listener : Listener}
      (before : Quietly net net') (observer : ∀ K s, listener ≠ .join K s) :
      Quietly net (net'.subscribe node stream listener).1
  | unsubscribe {net' : Network} {r : Registration} (before : Quietly net net')
      (observer : r.stream = .events → ∀ K s, (r.id, .join K s) ∉ net'.entries r.node) :
      Quietly net (net'.unsubscribe r)
  | hold {net' : Network} {node : Nat} (before : Quietly net net') : Quietly net (net'.hold node)
  | release {net' : Network} {node : Nat} (before : Quietly net net') : Quietly net (net'.release node)
  | insert {net' : Network} (schema : Schema) (before : Quietly net net') :
      Quietly net (net'.insert (.stored (.ofSchema schema))).1

theorem Quietly.trans (h : Quietly net net') (h' : Quietly net' net'') : Quietly net net'' := by
  induction h' with
  | refl => exact h
  | subscribe _ hl ih => exact .subscribe ih hl
  | unsubscribe _ hr ih => exact .unsubscribe ih hr
  | hold _ ih => exact .hold ih
  | release _ ih => exact .release ih
  | insert schema _ ih => exact .insert schema ih

/-! ## Following -/

/-- A network comes after another in which the tables before `n` may have gone but stayed as they are, and no
joined table came or changed its sources. -/
structure Follows (n : Nat) (net net' : Network) : Prop where
  next : net.nextId ≤ net'.nextId
  contents : ∀ id c, id < n → id < net.nextId → net'.content? id = some c → net.content? id = some c
  sources : ∀ K s m, net'.sourceOf? K s = some m → net.sourceOf? K s = some m
  entries : ∀ m K s i, (i, .join K s) ∈ net'.entries m → (i, .join K s) ∈ net.entries m

namespace Follows

theorem refl (n : Nat) (net : Network) : Follows n net net :=
  ⟨Nat.le_refl _, fun _ _ _ _ hc => hc, fun _ _ _ hs => hs, fun _ _ _ _ hi => hi⟩

theorem trans (h : Follows n net net') (h' : Follows n net' net'') : Follows n net net'' where
  next := Nat.le_trans h.next h'.next
  contents id c hn hid hc :=
    h.contents id c hn hid (h'.contents id c hn (Nat.lt_of_lt_of_le hid h.next) hc)
  sources K s m hs := h.sources K s m (h'.sources K s m hs)
  entries m K s i hi := h.entries m K s i (h'.entries m K s i hi)

theorem mono (h : Follows n net net') (hm : m ≤ n) : Follows m net net' :=
  ⟨h.next, fun id c hid => h.contents id c (Nat.lt_of_lt_of_le hid hm), h.sources, h.entries⟩

/-- What is above a table was above it. -/
theorem reaches (h : Follows n net net') (hreach : net'.Reaches n₀ m) : net.Reaches n₀ m := by
  induction hreach with
  | refl => exact .refl
  | @step m j s _ hj ih =>
    obtain ⟨j₀, hj₀, hs⟩ := sourceOf?_eq_some_iff.1 (h.sources m s _ (sourceOf?_of_joined? hj s))
    exact .step (hs ▸ ih) hj₀

/-- A joined table that is not newer stays as it is, or goes. -/
theorem joined? (h : Follows n net net') (hm : m < n) (hj : net.joined? m = some j) (ho : net.Ordered) :
    net'.joined? m = some j ∨ net'.content? m = none := by
  rcases hc : net'.content? m with - | c
  · exact .inr rfl
  · have hlt : m < net.nextId := ho.lt_nextId (by simp [content?_of_joined? hj])
    have hold := h.contents m c hm hlt hc
    rw [content?_of_joined? hj] at hold
    exact .inl (joined?_eq_some_iff.2 (hc.trans hold.symm))

end Follows

/-- Another engine in a joined table. -/
theorem follows_setJoined {j' : JoinedTable} (hj : net.joined? n = some j) (hsource : j'.source = j.source) :
    Follows n net (net.setContent n (.joined j')) where
  next := Nat.le_refl _
  contents id c hid _ hc := by rwa [content?_setContent_of_ne (Nat.ne_of_lt hid)] at hc
  sources K s m hs := by
    by_cases hK : K = n
    · subst hK
      have hself : (net.setContent K (.joined j')).joined? K = some j' :=
        joined?_eq_some_iff.2 (content?_setContent_self (by simp [content?_of_joined? hj]))
      rwa [sourceOf?_of_joined? hself, hsource, ← sourceOf?_of_joined? hj] at hs
    · rwa [sourceOf?_congr (content?_setContent_of_ne hK)] at hs
  entries m K s i hi := by rwa [Network.entries, subject_setContent] at hi

/-! ## Quiet steps -/

/-- What quiet steps leave of an orderly network: what is there afterwards was there as it is, or is a new stored
table without rows. -/
structure Retains (net net' : Network) : Prop where
  orderly : net'.Orderly
  next : net.nextId ≤ net'.nextId
  contents : ∀ id c, net'.content? id = some c → net.content? id = some c ∨
    net.nextId ≤ id ∧ ∃ schema, c = .stored (.ofSchema schema)
  entries : ∀ m K s i, (i, .join K s) ∈ net'.entries m → (i, .join K s) ∈ net.entries m

/-- Tables went, or nothing happened to the tables. -/
theorem Retains.of_shrink (h : Retains net net') (ho : net''.Orderly) (hnext : net''.nextId = net'.nextId)
    (hc : ∀ id c, net''.content? id = some c → net'.content? id = some c)
    (he : ∀ m K s i, (i, .join K s) ∈ net''.entries m → (i, .join K s) ∈ net'.entries m) :
    Retains net net'' where
  orderly := ho
  next := hnext ▸ h.next
  contents id c hid := h.contents id c (hc id c hid)
  entries m K s i hi := h.entries m K s i (he m K s i hi)

/-- What was given a number, and is there, is as it was. -/
theorem Retains.content? (h : Retains net net') {c : Content} (hm : m < net.nextId)
    (hc : net'.content? m = some c) : net.content? m = some c :=
  (h.contents m c hc).resolve_right fun hnew => absurd hm (Nat.not_lt_of_le hnew.1)

theorem Quietly.retains (h : Quietly net net') (ho : net.Orderly) : Retains net net' := by
  induction h with
  | refl => exact ⟨ho, Nat.le_refl _, fun _ _ hc => .inl hc, fun _ _ _ _ hi => hi⟩
  | @subscribe net' node stream listener _ hl ih =>
    exact ih.of_shrink ⟨ih.orderly.ordered.subscribe stream listener, ih.orderly.wired.subscribe hl⟩ rfl
      (fun id c hc => by rwa [content?_subscribe] at hc) fun m K s i hi => (mem_entries_subscribe hl).1 hi
  | @unsubscribe net' r _ hr ih =>
    exact ih.of_shrink ⟨ih.orderly.ordered.unsubscribe r, ih.orderly.wired.unsubscribe hr⟩ rfl
      (fun id c hc => by rwa [content?_unsubscribe] at hc) fun m K s i hi => (mem_entries_unsubscribe hr).1 hi
  | hold _ ih => exact ih.of_shrink ih.orderly.hold rfl (fun _ _ hc => hc) fun _ _ _ _ hi => hi
  | @release net' node _ ih =>
    have hnext : (net'.release node).nextId = net'.nextId := by
      rw [Network.release, sweep]
      split_ifs <;> rfl
    exact ih.of_shrink ih.orderly.release hnext (fun id c hc => ih.orderly.ordered.content?_of_release hc)
      fun m K s i hi => ih.orderly.ordered.mem_entries_of_release hi
  | @insert net' schema _ ih =>
    refine ⟨ih.orderly.insert_stored _, Nat.le_succ_of_le ih.next, fun id c hc => ?_, fun m K s i hi => ?_⟩
    · -- only the number that was free has come to have a table
      rw [content?_insert] at hc
      split_ifs at hc with heq
      · exact .inr ⟨heq ▸ ih.next, schema, (Option.some.inj hc).symm⟩
      · exact ih.contents id c hc
    · rw [Network.entries, subject_insert ih.orderly.ordered] at hi
      exact ih.entries m K s i hi

/-- What is there after quiet steps was there as it is, or is a new stored table. -/
structure Outlasts (net net' : Network) : Prop where
  formed : net'.Formed
  next : net.nextId ≤ net'.nextId
  contents : ∀ id c, net'.content? id = some c → net.content? id = some c ∨
    net.nextId ≤ id ∧ ∃ t, c = .stored t
  entries : ∀ m K s i, (i, .join K s) ∈ net'.entries m → (i, .join K s) ∈ net.entries m

namespace Outlasts

theorem joined? (h : Outlasts net net') (hj : net'.joined? K = some j) : net.joined? K = some j := by
  rcases h.contents K _ (content?_of_joined? hj) with hold | ⟨-, t, ht⟩
  · exact joined?_eq_some_iff.2 hold
  · exact Content.noConfusion ht

theorem follows (h : Outlasts net net') (n : Nat) : Follows n net net' where
  next := h.next
  contents id c _ hid hc :=
    (h.contents id c hc).resolve_right fun hnew => absurd hid (Nat.not_lt_of_le hnew.1)
  sources K s m hs := by
    obtain ⟨j, hj, rfl⟩ := sourceOf?_eq_some_iff.1 hs
    exact sourceOf?_of_joined? (h.joined? hj) s
  entries := h.entries

/-- The networks agree on the tables that were there and are. -/
theorem agree (h : Outlasts net net') (ho : net.Ordered) :
    Agree net net' fun m => net'.content? m ≠ none ∧ m < net.nextId where
  contents id hid := by
    obtain ⟨c, hc⟩ := Option.ne_none_iff_exists'.1 hid.1
    rw [hc, (h.follows (id + 1)).contents id c (Nat.lt_succ_self id) hid.2 hc]
  closed id j s hid hj := by
    obtain ⟨c, hc⟩ := Option.ne_none_iff_exists'.1 hid.1
    have hold := (h.follows (id + 1)).contents id c (Nat.lt_succ_self id) hid.2 hc
    have hj' : net'.joined? id = some j := by
      rw [joined?_eq_some_iff, hc, ← hold, content?_of_joined? hj]
    exact ⟨(h.formed.ordered.source hj' s).2, Nat.lt_trans (ho.source hj s).1 hid.2⟩

/-- What was given a number, and is there, was there. -/
theorem content?_ne_none (h : Outlasts net net') (hm : m < net.nextId) (hc : net'.content? m ≠ none) :
    net.content? m ≠ none := by
  obtain ⟨c, hc⟩ := Option.ne_none_iff_exists'.1 hc
  rw [(h.follows (m + 1)).contents m c (Nat.lt_succ_self m) hm hc]
  simp

/-- A table that is left is above what it was above, because it has all its sources. -/
theorem reaches (h : Outlasts net net') (ho : net.Ordered) (hreach : net.Reaches n m)
    (hm : net'.content? m ≠ none) : net'.Reaches n m := by
  induction hreach with
  | refl => exact .refl
  | @step m j s _ hj ih =>
    have hlt : m < net.nextId := ho.lt_nextId (by simp [content?_of_joined? hj])
    have hj' := ((h.agree ho).joined? ⟨hm, hlt⟩).trans hj
    exact .step (ih (h.formed.ordered.source hj' s).2) hj'

/-- A wave goes on. -/
theorem wave (h : Outlasts net net') (hw : Wave net n₀ Q) : Wave net' n₀ Q where
  formed := h.formed
  port K j hj s := by
    have ho := hw.formed.ordered
    have hj₀ := h.joined? hj
    have hsource := (h.formed.ordered.source hj s).2
    exact (h.agree ho).port ho h.formed.ordered (fun _ _ _ _ _ => rfl)
      ⟨hsource, ho.lt_nextId (ho.source hj₀ s).2⟩ rfl (hw.port K j hj₀ s)
  cone K j s hj hne := by
    have hreach := hw.cone K j s (h.joined? hj) hne
    exact h.reaches hw.formed.ordered hreach (h.formed.ordered.source hj s).2

end Outlasts

/-- A well-formed network stays well-formed, for new tables without rows are valid. -/
theorem Quietly.outlasts (h : Quietly net net') (hf : net.Formed) : Outlasts net net' := by
  have hretains := h.retains hf.orderly
  refine ⟨hf.of_contents hretains.orderly.ordered hretains.orderly.wired fun id c hc => ?_, hretains.next,
    fun id c hc => ?_, hretains.entries⟩
  · refine (hretains.contents id c hc).imp_right fun ⟨hnew, schema, heq⟩ => ⟨?_, _, heq, Table.valid_ofSchema schema⟩
    by_contra hn
    exact absurd (hf.ordered.lt_nextId hn) (Nat.not_lt_of_le hnew)
  · exact (hretains.contents id c hc).imp_right fun ⟨hnew, schema, heq⟩ => ⟨hnew, _, heq⟩

theorem Quietly.follows (h : Quietly net net') (hf : net.Formed) (n : Nat) : Follows n net net' :=
  (h.outlasts hf).follows n

theorem Quietly.wave (h : Quietly net net') (hw : Wave net n₀ Q) : Wave net' n₀ Q :=
  (h.outlasts hw.formed).wave hw

end Network

/-! ## Observers -/

variable {ω : Type} {o : Outside ω}

/-- Observers that write nothing, also when they hand events to each other. -/
def Outside.Quiet (o : Outside ω) : Prop :=
  ∀ d : Dispatch ω, (∀ (w : World ω) id e, w.network.Quietly (d.inform w id e).network) →
    (∀ (w : World ω) id e, w.network.Quietly (o.onEvent d w id e).network) ∧
      ∀ (w : World ω) id row, w.network.Quietly (o.onCell d w id row).network

theorem Outside.Quiet.inform (h : o.Quiet) (depth : Nat) (w : World ω) (id : Nat) (e : Event) :
    w.network.Quietly ((World.dispatch o depth).inform w id e).network := by
  induction depth generalizing w id e with
  | zero => exact .refl
  | succ depth ih => exact (h (World.dispatch o depth) ih).1 w id e

theorem Outside.Quiet.onEvent (h : o.Quiet) (depth : Nat) (w : World ω) (id : Nat) (e : Event) :
    w.network.Quietly (o.onEvent (World.dispatch o depth) w id e).network :=
  (h _ (h.inform depth)).1 w id e

theorem Outside.Quiet.onCell (h : o.Quiet) (depth : Nat) (w : World ω) (id row : Nat) :
    w.network.Quietly (o.onCell (World.dispatch o depth) w id row).network :=
  (h _ (h.inform depth)).2 w id row

end LiveTables
