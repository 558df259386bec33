import LiveTables.Proofs.Join.Build
import LiveTables.Proofs.Network.Settled

/-!
# A joined table comes

A table may be joined from any two tables that share no column. It has linked the rows of its sources under
their keys, so that a settled network stays settled (`settled_insertJoined`).
-/

namespace LiveTables.Network

open Notice JoinedTable

variable {net : Network} {n l r : Nat} {j : JoinedTable} {c : String} {kind : Kind} {s : Side}
  {spec : JoinSpec} {left right : TableView}

/-! ## Columns of a table -/

theorem Formed.nodup_columnIds (h : net.Formed) (hn : net.content? n ≠ none) :
    (net.shown n).columnIds.Nodup := by
  rcases exists_of_content?_ne_none hn with ⟨t, ht⟩ | ⟨j, hj⟩
  · rw [shown, see_stored ht]
    exact (h.tables n t ht).wellFormed.nodup_columnIds
  · rw [h.ordered.columnIds_joined hj]
    exact (h.valid n j hj).nodup_columnIds

theorem Ordered.mem_columnIds (h : net.Ordered) (hkind : (net.shown n).columnKind c = .ok kind) :
    c ∈ (net.shown n).columnIds := by
  by_cases hn : net.content? n = none
  · rw [shown, see_of_none hn] at hkind
    cases hkind
  rcases exists_of_content?_ne_none hn with ⟨t, ht⟩ | ⟨j, hj⟩
  · rw [shown, see_stored ht] at hkind ⊢
    exact Table.mem_columnIds hkind
  · rw [h.columnKind_joined hj] at hkind
    rw [h.columnIds_joined hj]
    exact JoinedTable.mem_columnIds hkind

/-! ## The new table -/

section Built

variable (h : net.Settled) (hbuilt : j.Built fun s => net.shown (j.source s))
  (hsources : ∀ s, net.content? (j.source s) ≠ none)

include h hbuilt

theorem fits_built : net.Fits j where
  kinds := hbuilt.kinds
  ids s := by
    rw [hbuilt.ids]
  whole s j' hj' s' c hc := by
    rw [hbuilt.ids, h.formed.ordered.columnIds_joined hj']
    exact mem_columnIds_of_mem_sideIds hc

include hsources

/-- The rows of the sources are linked as they are. -/
theorem port_built (s : Side) : Port net silent n j s where
  known hpasses k := by
    refine .inl ?_
    rw [hbuilt.classes, h.presumed_eq (hsources s) hpasses]
    split_ifs with hk
    · rfl
    · exact (h.formed.actual_of_dead hk).symm
  gone k hlinked hdead := by
    rw [hbuilt.classes, if_neg hdead] at hlinked
    exact absurd rfl hlinked
  come k hlive hfree := by
    rw [hbuilt.classes, if_pos hlive] at hfree
    exact absurd hfree (hbuilt.readable s k hlive)
  refills := trivial
  legible x hx := absurd hx List.not_mem_nil
  settles := .nil

theorem settled_insert_built (hgap : ∀ c kind, (j.gap c kind).kind = kind) :
    (net.insertJoined j).1.Settled := by
  have ho := h.formed.ordered
  have hvalid : j.Valid := hbuilt.valid (fun s => h.formed.nodup_columnIds (hsources s))
    (fun s c kind hkind => ho.mem_columnIds hkind) hgap
  have hformed := h.formed.insertJoined hvalid (fits_built h hbuilt) hsources
  have hold {id : Nat} (hid : id ≠ net.nextId) : (net.insertJoined j).1.content? id = net.content? id := by
    rw [content?_insertJoined, if_neg hid]
  have hagree : Agree net (net.insertJoined j).1 fun m => net.content? m ≠ none :=
    ⟨fun id hid => hold (Nat.ne_of_lt (ho.lt_nextId hid)), fun id j₁ s _ hj₁ => (ho.source hj₁ s).2⟩
  refine ⟨hformed, fun K j₁ hj₁ s => ?_⟩
  by_cases hK : K = net.nextId
  · have hnew := content?_of_joined? hj₁
    rw [content?_insertJoined, if_pos hK] at hnew
    obtain rfl : j = j₁ := by simpa using hnew
    exact hagree.port ho hformed.ordered (fun _ _ _ _ _ => rfl) (hsources s) rfl
      (port_built h hbuilt hsources s)
  · have hj₀ : net.joined? K = some j₁ := (joined?_congr (hold hK)).symm.trans hj₁
    exact hagree.port ho hformed.ordered (fun _ _ _ _ _ => rfl) (ho.source hj₀ s).2 rfl (h.port K j₁ hj₀ s)

end Built

/-- Joining two tables of a settled network. -/
theorem settled_insertJoined (h : net.Settled) (hleft : net.view? l = some left)
    (hright : net.view? r = some right) (hj : ofSources spec l r left right = .ok j)
    (hgap : ∀ c kind, (spec.gap c kind).kind = kind) : (net.insertJoined j).1.Settled := by
  have ho := h.formed.ordered
  obtain ⟨hexistsLeft, rfl⟩ := ho.view?_eq_some_iff.1 hleft
  obtain ⟨hexistsRight, rfl⟩ := ho.view?_eq_some_iff.1 hright
  obtain ⟨hbuilt, rfl, rfl, hgaps, -⟩ := built_of_sources hj
  have hsources (s : Side) : net.content? (j.source s) ≠ none := by
    cases s with
    | left => exact hexistsLeft
    | right => exact hexistsRight
  have hviews : sourceView (net.shown j.left) (net.shown j.right) = fun s => net.shown (j.source s) := by
    funext s
    cases s <;> rfl
  rw [hviews] at hbuilt
  refine settled_insert_built h hbuilt hsources fun c kind => ?_
  rw [hgaps]
  exact hgap c kind

end LiveTables.Network
