import LiveTables.Network.Basic
import Mathlib.Data.List.Basic
import Mathlib.Data.List.Nodup
import Mathlib.Data.List.Pairwise

/-!
# What a network holds

A network is read through the contents of its numbers. This module says what each operation does to the
contents (`content?_insert`, `content?_setContent_of_ne`, `content?_sweep`), and that a node comes after its sources
(`Ordered`), so that what is true of stored tables and passes from sources to joined tables is true of all
(`Ordered.induction`).
-/

namespace LiveTables

namespace Node

@[simp] theorem id_modifySubject (x : Node) (stream : Stream) (f : Subject Listener → Subject Listener) :
    (x.modifySubject stream f).id = x.id := by
  cases stream <;> rfl

@[simp] theorem content_modifySubject (x : Node) (stream : Stream)
    (f : Subject Listener → Subject Listener) : (x.modifySubject stream f).content = x.content := by
  cases stream <;> rfl

theorem source_mem_sources {x : Node} {j : JoinedTable} (h : x.content = .joined j) (s : Side) :
    j.source s ∈ x.sources := by
  rw [sources, h]
  cases s <;> simp [JoinedTable.source]

end Node

namespace Network

variable {net net' : Network} {id n : Nat} {c : Content} {t : Table} {j : JoinedTable}

theorem content?_of_table? (h : net.table? id = some t) : net.content? id = some (.stored t) := by
  unfold table? at h
  split at h
  · rename_i u hc
    rw [hc, Option.some.inj h]
  · exact absurd h (by simp)

theorem content?_of_joined? (h : net.joined? id = some j) : net.content? id = some (.joined j) := by
  unfold joined? at h
  split at h
  · rename_i u hc
    rw [hc, Option.some.inj h]
  · exact absurd h (by simp)

theorem table?_eq_some_iff : net.table? id = some t ↔ net.content? id = some (.stored t) :=
  ⟨content?_of_table?, fun h => by rw [table?, h]⟩

theorem joined?_eq_some_iff : net.joined? id = some j ↔ net.content? id = some (.joined j) :=
  ⟨content?_of_joined?, fun h => by rw [joined?, h]⟩

/-- A table is a stored one or a joined one. -/
theorem exists_of_content?_ne_none (h : net.content? id ≠ none) :
    (∃ t, net.table? id = some t) ∨ ∃ j, net.joined? id = some j := by
  obtain ⟨c, hc⟩ := Option.ne_none_iff_exists'.1 h
  cases c with
  | stored t => exact .inl ⟨t, table?_eq_some_iff.2 hc⟩
  | joined j => exact .inr ⟨j, joined?_eq_some_iff.2 hc⟩

theorem joined?_eq_none_of_table? (h : net.table? id = some t) : net.joined? id = none := by
  rw [joined?, content?_of_table? h]

theorem table?_eq_none_of_joined? (h : net.joined? id = some j) : net.table? id = none := by
  rw [table?, content?_of_joined? h]

/-- What stands at a number depends on the contents only. -/
theorem joined?_congr (h : net'.content? id = net.content? id) : net'.joined? id = net.joined? id := by
  rw [joined?, joined?, h]

theorem table?_congr (h : net'.content? id = net.content? id) : net'.table? id = net.table? id := by
  rw [table?, table?, h]

theorem node?_eq_some {x : Node} (h : net.node? id = some x) : x ∈ net.nodes ∧ x.id = id :=
  ⟨List.mem_of_find?_eq_some h, by simpa using List.find?_some h⟩

theorem content?_eq_some_iff : net.content? id = some c ↔ ∃ x, net.node? id = some x ∧ x.content = c := by
  rw [content?, Option.map_eq_some_iff]

/-! ## Order -/

/-- The newest node comes first, and every source of a node comes after it. -/
structure Ordered (net : Network) : Prop where
  descending : net.nodes.Pairwise fun a b => b.id < a.id
  bounded : ∀ x ∈ net.nodes, x.id < net.nextId
  sources : ∀ x ∈ net.nodes, ∀ s ∈ x.sources, s < x.id ∧ ∃ y ∈ net.nodes, y.id = s

namespace Ordered

/-- A number belongs to one node. -/
theorem eq_of_id_eq (h : net.Ordered) {x y : Node} (hx : x ∈ net.nodes) (hy : y ∈ net.nodes)
    (hid : x.id = y.id) : x = y := by
  by_contra hne
  have hnodup : (net.nodes.map Node.id).Nodup := by
    rw [List.Nodup, List.pairwise_map]
    exact h.descending.imp fun hlt => (Nat.ne_of_lt hlt).symm
  exact hne (List.inj_on_of_nodup_map hnodup hx hy hid)

theorem node?_of_mem (h : net.Ordered) {x : Node} (hx : x ∈ net.nodes) : net.node? x.id = some x := by
  rcases hy : net.node? x.id with - | y
  · exact absurd (List.find?_eq_none.1 hy x hx) (by simp)
  · obtain ⟨hmem, hid⟩ := node?_eq_some hy
    rw [h.eq_of_id_eq hmem hx hid]

theorem content?_of_mem (h : net.Ordered) {x : Node} (hx : x ∈ net.nodes) :
    net.content? x.id = some x.content := by
  rw [content?, h.node?_of_mem hx, Option.map_some]

theorem lt_nextId (h : net.Ordered) (hc : net.content? id ≠ none) : id < net.nextId := by
  obtain ⟨c, hc⟩ := Option.ne_none_iff_exists'.1 hc
  obtain ⟨x, hx, -⟩ := content?_eq_some_iff.1 hc
  obtain ⟨hmem, rfl⟩ := node?_eq_some hx
  exact h.bounded x hmem

theorem content?_nextId (h : net.Ordered) : net.content? net.nextId = none := by
  by_contra hc
  exact absurd (h.lt_nextId hc) (Nat.lt_irrefl _)

/-- A source is older than the table that is joined from it, and it exists. -/
theorem source (h : net.Ordered) (hj : net.joined? id = some j) (s : Side) :
    j.source s < id ∧ net.content? (j.source s) ≠ none := by
  obtain ⟨x, hx, hcontent⟩ := content?_eq_some_iff.1 (content?_of_joined? hj)
  obtain ⟨hmem, rfl⟩ := node?_eq_some hx
  obtain ⟨hlt, y, hy, hid⟩ := h.sources x hmem _ (Node.source_mem_sources hcontent s)
  refine ⟨hlt, ?_⟩
  rw [← hid, h.content?_of_mem hy]
  simp

/-- What holds of stored tables, and of joined tables if it holds of their sources, holds of all. -/
theorem induction (h : net.Ordered) {motive : Nat → Prop}
    (stored : ∀ id t, net.table? id = some t → motive id)
    (joined : ∀ id j, net.joined? id = some j → (∀ s, motive (j.source s)) → motive id) (id : Nat)
    (hid : net.content? id ≠ none) : motive id := by
  induction id using Nat.strongRecOn with
  | ind id ih =>
    rcases exists_of_content?_ne_none hid with ⟨t, ht⟩ | ⟨j, hj⟩
    · exact stored id t ht
    · refine joined id j hj fun s => ?_
      obtain ⟨hlt, hsource⟩ := h.source hj s
      exact ih _ hlt hsource

end Ordered

/-! ## Operations -/

theorem node?_modify {f : Node → Node} (hf : ∀ x, (f x).id = x.id) :
    (net.modify n f).node? id = (net.node? id).map fun x => if x.id = n then f x else x := by
  have hid : ((fun x : Node => decide (x.id = id)) ∘ fun x => if x.id = n then f x else x) =
      fun x => decide (x.id = id) := by
    funext x
    simp only [Function.comp_apply]
    split_ifs
    · rw [hf]
    · rfl
  rw [node?, modify, List.find?_map, hid, node?]

/-- A change that leaves the contents of a node alone. -/
theorem content?_modify {f : Node → Node} (hf : ∀ x, (f x).id = x.id)
    (hcontent : ∀ x, (f x).content = x.content) : (net.modify n f).content? id = net.content? id := by
  rw [content?, node?_modify hf, content?, Option.map_map]
  congr 1
  funext x
  simp only [Function.comp_apply]
  split_ifs
  · exact hcontent x
  · rfl

theorem content?_setContent_of_ne (h : id ≠ n) : (net.setContent n c).content? id = net.content? id := by
  rw [content?, setContent, node?_modify (fun x => by rfl), content?, Option.map_map]
  rcases hx : net.node? id with - | x
  · rfl
  · have hne : x.id ≠ n := (node?_eq_some hx).2 ▸ h
    simp [hne]

theorem content?_setContent_self (h : net.content? n ≠ none) :
    (net.setContent n c).content? n = some c := by
  rw [content?, setContent, node?_modify (fun x => by rfl), Option.map_map]
  rcases hx : net.node? n with - | x
  · rw [content?, hx] at h
    exact absurd rfl h
  · simp [(node?_eq_some hx).2]

@[simp] theorem content?_subscribe (node : Nat) (stream : Stream) (listener : Listener) :
    (net.subscribe node stream listener).1.content? id = net.content? id :=
  content?_modify (fun x => x.id_modifySubject stream _) fun x => x.content_modifySubject stream _

@[simp] theorem content?_unsubscribe (r : Registration) :
    (net.unsubscribe r).content? id = net.content? id :=
  content?_modify (fun x => x.id_modifySubject r.stream _) fun x => x.content_modifySubject r.stream _

@[simp] theorem content?_hold : (net.hold n).content? id = net.content? id := rfl

theorem content?_insert :
    (net.insert c).1.content? id = if id = net.nextId then some c else net.content? id := by
  rw [content?, node?, insert, List.find?_cons]
  split_ifs with heq
  · simp [heq]
  · have hne : ¬ net.nextId = id := fun h => heq h.symm
    simp [hne, content?, node?]

/-! ## Keeping the order -/

/-- Nodes may change in all but their numbers and their sources. -/
theorem Ordered.of_map (h : net.Ordered) {f : Node → Node} (hnodes : net'.nodes = net.nodes.map f)
    (hnext : net'.nextId = net.nextId) (hid : ∀ x, (f x).id = x.id)
    (hsources : ∀ x ∈ net.nodes, (f x).sources = x.sources) : net'.Ordered where
  descending := by
    rw [hnodes, List.pairwise_map]
    exact h.descending.imp fun {a b} hlt => by rwa [hid, hid]
  bounded x' hx' := by
    rw [hnodes] at hx'
    obtain ⟨x, hx, rfl⟩ := List.mem_map.1 hx'
    rw [hid, hnext]
    exact h.bounded x hx
  sources x' hx' s hs := by
    rw [hnodes] at hx' ⊢
    obtain ⟨x, hx, rfl⟩ := List.mem_map.1 hx'
    rw [hsources x hx] at hs
    obtain ⟨hlt, y, hy, rfl⟩ := h.sources x hx s hs
    exact ⟨(hid x).symm ▸ hlt, f y, List.mem_map_of_mem hy, hid y⟩

theorem Ordered.modify (h : net.Ordered) {f : Node → Node} (hid : ∀ x, (f x).id = x.id)
    (hsources : ∀ x ∈ net.nodes, x.id = n → (f x).sources = x.sources) : (net.modify n f).Ordered := by
  refine h.of_map (f := fun x => if x.id = n then f x else x) rfl rfl (fun x => ?_) fun x hx => ?_
  · split_ifs
    · exact hid x
    · rfl
  · split_ifs with heq
    · exact hsources x hx heq
    · rfl

theorem Ordered.modifySubject (h : net.Ordered) (stream : Stream)
    (f : Node → Subject Listener → Subject Listener) :
    (net.modify n fun x => x.modifySubject stream (f x)).Ordered := by
  refine h.modify (fun x => x.id_modifySubject stream _) fun x _ _ => ?_
  rw [Node.sources, Node.content_modifySubject, Node.sources]

theorem Ordered.subscribe (h : net.Ordered) (stream : Stream) (listener : Listener) :
    (net.subscribe n stream listener).1.Ordered :=
  h.modifySubject stream fun _ s => (s.subscribe listener).1

theorem Ordered.unsubscribe (h : net.Ordered) (r : Registration) : (net.unsubscribe r).Ordered :=
  h.modifySubject r.stream fun _ s => s.unsubscribe r.id

theorem Ordered.hold (h : net.Ordered) : (net.hold n).Ordered := ⟨h.descending, h.bounded, h.sources⟩

/-- Another stored table in the place of one. -/
theorem Ordered.setTable {t₀ : Table} (h : net.Ordered) (ht : net.table? n = some t₀) :
    (net.setContent n (.stored t)).Ordered := by
  refine h.modify (fun x => rfl) fun x hx hid => ?_
  have hcontent : x.content = .stored t₀ := by
    have hx' := h.content?_of_mem hx
    rw [hid, content?_of_table? ht] at hx'
    exact (Option.some.inj hx').symm
  rw [Node.sources, Node.sources, hcontent]

/-- Another joined table in the place of one with the same sources. -/
theorem Ordered.setJoined {j₀ : JoinedTable} (h : net.Ordered) (hj : net.joined? n = some j₀)
    (hsource : j.source = j₀.source) : (net.setContent n (.joined j)).Ordered := by
  refine h.modify (fun x => rfl) fun x hx hid => ?_
  have hcontent : x.content = .joined j₀ := by
    have hx' := h.content?_of_mem hx
    rw [hid, content?_of_joined? hj] at hx'
    exact (Option.some.inj hx').symm
  have hleft : j.left = j₀.left := congrFun hsource .left
  have hright : j.right = j₀.right := congrFun hsource .right
  simp only [Node.sources, hcontent, hleft, hright]

theorem Ordered.insert (h : net.Ordered)
    (hc : ∀ s ∈ Node.sources { id := net.nextId, content := c }, net.content? s ≠ none) :
    (net.insert c).1.Ordered where
  descending := List.pairwise_cons.2 ⟨h.bounded, h.descending⟩
  bounded x hx := by
    rcases List.mem_cons.1 hx with rfl | hx
    · exact Nat.lt_succ_self _
    · exact Nat.lt_succ_of_lt (h.bounded x hx)
  sources x hx s hs := by
    rcases List.mem_cons.1 hx with rfl | hx
    · have hs' := hc s hs
      obtain ⟨c', hc'⟩ := Option.ne_none_iff_exists'.1 hs'
      obtain ⟨y, hy, -⟩ := content?_eq_some_iff.1 hc'
      obtain ⟨hmem, hid⟩ := node?_eq_some hy
      exact ⟨h.lt_nextId hs', y, List.mem_cons_of_mem _ hmem, hid⟩
    · obtain ⟨hlt, y, hy, hid⟩ := h.sources x hx s hs
      exact ⟨hlt, y, List.mem_cons_of_mem _ hy, hid⟩

/-! ## Sweeping -/

section Sweep

variable {held wanted : List Nat} {nodes : List Node}

theorem living_sublist : (living held nodes wanted).Sublist nodes := by
  induction nodes generalizing wanted with
  | nil => exact .slnil
  | cons x older ih =>
    rw [living]
    split_ifs
    · exact ih.cons_cons x
    · exact ih.cons x

/-- What is wanted lives. -/
theorem mem_living_of_wanted {y : Node} (hy : y ∈ nodes) (hwanted : y.id ∈ wanted) :
    y ∈ living held nodes wanted := by
  induction nodes generalizing wanted with
  | nil => exact absurd hy List.not_mem_nil
  | cons x older ih =>
    rw [living]
    rcases List.mem_cons.1 hy with rfl | hy
    · rw [if_pos (.inr hwanted)]
      exact List.mem_cons_self
    · split_ifs
      · exact List.mem_cons_of_mem _ (ih hy (List.mem_append_right _ hwanted))
      · exact ih hy hwanted

/-- The sources of what lives live. -/
theorem source_mem_living {x y : Node} (hdescending : nodes.Pairwise fun a b => b.id < a.id)
    (hx : x ∈ living held nodes wanted) (hy : y ∈ nodes) (hsource : y.id ∈ x.sources)
    (hlt : y.id < x.id) : y ∈ living held nodes wanted := by
  induction nodes generalizing wanted with
  | nil => exact absurd hy List.not_mem_nil
  | cons z older ih =>
    obtain ⟨hz, hdescending⟩ := List.pairwise_cons.1 hdescending
    have hstep {wanted : List Nat} (hold : x ∈ living held older wanted) :
        y ∈ living held older wanted := by
      refine ih hdescending hold ((List.mem_cons.1 hy).resolve_left fun heq => ?_)
      have hlater : x.id < z.id := hz x (living_sublist.subset hold)
      rw [heq] at hlt
      exact absurd hlater (Nat.lt_asymm hlt)
    rw [living] at hx ⊢
    split_ifs at hx ⊢
    · rcases List.mem_cons.1 hx with rfl | hx
      · have hy' : y ∈ older := (List.mem_cons.1 hy).resolve_left fun heq =>
          absurd (heq ▸ hlt) (Nat.lt_irrefl _)
        exact List.mem_cons_of_mem _ (mem_living_of_wanted hy' (List.mem_append_left _ hsource))
      · exact List.mem_cons_of_mem _ (hstep hx)
    · exact hstep hx

end Sweep

@[simp] theorem Node.id_keepJoins (x : Node) (living : List Nat) : (x.keepJoins living).id = x.id := rfl

@[simp] theorem Node.content_keepJoins (x : Node) (living : List Nat) :
    (x.keepJoins living).content = x.content := rfl

/-- The nodes that somebody holds, or wants for a source. -/
def survivors (net : Network) : List Node := living net.held net.nodes []

theorem survivors_sublist : net.survivors.Sublist net.nodes := living_sublist

/-- The network with only some of its nodes, and of the registrations of joined tables only theirs. -/
def restrict (net : Network) (nodes : List Node) : Network :=
  { net with nodes := nodes.map fun x => x.keepJoins (nodes.map (·.id)) }

/-- Sweeping leaves the network alone, or only the nodes that live. -/
theorem sweep_cases (net : Network) : net.sweep = net ∨ net.sweep = net.restrict net.survivors := by
  rw [sweep]
  split_ifs
  · exact .inl rfl
  · exact .inr rfl

theorem Ordered.sweep (h : net.Ordered) : net.sweep.Ordered := by
  rcases sweep_cases net with heq | heq
  · rwa [heq]
  rw [heq]
  refine ⟨?_, fun x' hx' => ?_, fun x' hx' s hs => ?_⟩
  · rw [restrict, List.pairwise_map]
    exact h.descending.sublist survivors_sublist
  · obtain ⟨x, hx, rfl⟩ := List.mem_map.1 hx'
    exact h.bounded x (survivors_sublist.subset hx)
  · obtain ⟨x, hx, rfl⟩ := List.mem_map.1 hx'
    obtain ⟨hlt, y, hy, rfl⟩ := h.sources x (survivors_sublist.subset hx) s hs
    have hlives := source_mem_living h.descending hx hy hs hlt
    exact ⟨hlt, _, List.mem_map_of_mem hlives, rfl⟩

theorem Ordered.release (h : net.Ordered) : (net.release n).Ordered :=
  sweep ⟨h.descending, h.bounded, h.sources⟩

/-- What stands in a network with some nodes stood in the network with all of them. -/
theorem exists_of_restrict {nodes : List Node} (hc : (net.restrict nodes).content? id = some c) :
    ∃ x ∈ nodes, x.id = id ∧ x.content = c := by
  obtain ⟨x', hx', rfl⟩ := content?_eq_some_iff.1 hc
  obtain ⟨hmem, rfl⟩ := node?_eq_some hx'
  obtain ⟨x, hx, rfl⟩ := List.mem_map.1 hmem
  exact ⟨x, hx, rfl, rfl⟩

theorem Ordered.content?_of_restrict {nodes : List Node} (h : net.Ordered)
    (hsub : nodes.Sublist net.nodes) (hc : (net.restrict nodes).content? id = some c) :
    net.content? id = some c := by
  obtain ⟨x, hx, rfl, rfl⟩ := exists_of_restrict hc
  exact h.content?_of_mem (hsub.subset hx)

/-- A node that is kept stays as it is. -/
theorem Ordered.content?_restrict {nodes : List Node} {x : Node} (h : (net.restrict nodes).Ordered)
    (hx : x ∈ nodes) : (net.restrict nodes).content? x.id = some x.content := by
  have hmem : x.keepJoins (nodes.map (·.id)) ∈ (net.restrict nodes).nodes :=
    List.mem_map_of_mem (f := fun x : Node => x.keepJoins (nodes.map (·.id))) hx
  have hkept := h.content?_of_mem hmem
  exact hkept

/-- What is left after sweeping is as it was. -/
theorem Ordered.content?_of_sweep (h : net.Ordered) (hc : net.sweep.content? id = some c) :
    net.content? id = some c := by
  rcases sweep_cases net with heq | heq
  · rwa [heq] at hc
  · exact h.content?_of_restrict survivors_sublist (heq ▸ hc)

theorem Ordered.content?_of_release (h : net.Ordered) (hc : (net.release n).content? id = some c) :
    net.content? id = some c := by
  have h' : Ordered { net with held := net.held.erase n } := ⟨h.descending, h.bounded, h.sources⟩
  exact h'.content?_of_sweep hc

end Network

end LiveTables
