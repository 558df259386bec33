import LiveTables.Proofs.Network.Views
import LiveTables.Proofs.Network.Wiring
import LiveTables.Proofs.Table.Writes

/-!
# Well-formed networks

In a well-formed network (`Formed`) the nodes are in order and wired, every table is valid, and every joined
table fits its sources: it shows columns that they have, first those that they had at the start. Because
no column may stand in both sources, no table is above another on both sides (`Formed.not_both`): tables form
trees, in which a change comes from one side only.
-/

namespace LiveTables.Network

variable {net net' : Network} {id m n K : Nat} {c : Content} {t t' : Table} {j j' : JoinedTable} {s : Side}

/-- A joined table shows columns of its sources in their kinds, the first ones of each source, and of a
source that is joined itself all source columns. -/
structure Fits (net : Network) (j : JoinedTable) : Prop where
  kinds : ∀ s id kind, (id, kind) ∈ j.columns s → (net.shown (j.source s)).columnKind id = .ok kind
  ids : ∀ s, j.sideIds s <+: (net.shown (j.source s)).columnIds
  whole : ∀ s j', net.joined? (j.source s) = some j' → ∀ s', j'.sideIds s' ⊆ j.sideIds s

/-- What holds of a network at all times. -/
structure Formed (net : Network) : Prop where
  ordered : net.Ordered
  wired : net.Wired
  tables : ∀ id t, net.table? id = some t → t.Valid
  valid : ∀ id j, net.joined? id = some j → j.Valid
  fits : ∀ id j, net.joined? id = some j → net.Fits j

theorem Formed.orderly (h : net.Formed) : net.Orderly := ⟨h.ordered, h.wired⟩

/-- A table is above another if it is joined from it, directly or not, or is the same. -/
inductive Reaches (net : Network) (n : Nat) : Nat → Prop
  | refl : Reaches net n n
  | step {m : Nat} {j : JoinedTable} {s : Side} (below : Reaches net n (j.source s))
      (joined : net.joined? m = some j) : Reaches net n m

/-! ## Trees -/

/-- The first column of a table stands among the source columns of all that is above it. -/
theorem Formed.exists_handle (h : net.Formed) (hreach : net.Reaches n m) (hne : n ≠ m) :
    ∃ id, (net.shown n).columnIds.head? = some id ∧
      ∀ j, net.joined? m = some j → ∃ s, id ∈ j.sideIds s := by
  induction hreach with
  | refl => exact absurd rfl hne
  | @step m j s below hj ih =>
    by_cases hsource : n = j.source s
    · -- the key is one of the columns shown, so there is a first one
      obtain ⟨more, hmore⟩ := (h.fits m j hj).ids s
      rcases hids : j.sideIds s with - | ⟨id, rest⟩
      · exact absurd ((h.valid m j hj).key s) (by simp [hids])
      · refine ⟨id, by rw [hsource, ← hmore, hids]; rfl, fun j' hj' => ⟨s, ?_⟩⟩
        obtain rfl := Option.some.inj (hj.symm.trans hj')
        rw [hids]
        exact List.mem_cons_self
    · obtain ⟨id, hhead, hid⟩ := ih hsource
      refine ⟨id, hhead, fun j' hj' => ⟨s, ?_⟩⟩
      obtain rfl := Option.some.inj (hj.symm.trans hj')
      obtain ⟨j₁, hj₁⟩ : ∃ j₁, net.joined? (j.source s) = some j₁ := by
        cases below with
        | refl => exact absurd rfl hsource
        | step _ hj₁ => exact ⟨_, hj₁⟩
      obtain ⟨s₁, hid₁⟩ := hid j₁ hj₁
      exact (h.fits m j hj).whole s j₁ hj₁ s₁ hid₁

/-- The column by which a source is recognized stands on its side. -/
theorem Formed.exists_mem_sideIds (h : net.Formed) (hj : net.joined? m = some j)
    (hreach : net.Reaches n (j.source s)) :
    ∃ id, (net.shown n).columnIds.head? = some id ∧ id ∈ j.sideIds s := by
  by_cases hne : n = j.source s
  · obtain ⟨more, hmore⟩ := (h.fits m j hj).ids s
    rcases hids : j.sideIds s with - | ⟨id, rest⟩
    · exact absurd ((h.valid m j hj).key s) (by simp [hids])
    · exact ⟨id, by rw [hne, ← hmore, hids]; rfl, List.mem_cons_self⟩
  · obtain ⟨id, hhead, hid⟩ := h.exists_handle hreach hne
    cases hreach with
    | refl => exact absurd rfl hne
    | @step _ j₁ s₁ _ hj₁ =>
      obtain ⟨s₂, hs₂⟩ := hid _ hj₁
      exact ⟨id, hhead, (h.fits m j hj).whole s _ hj₁ s₂ hs₂⟩

/-- Nothing is below both sources of a joined table. -/
theorem Formed.not_both (h : net.Formed) (hj : net.joined? m = some j)
    (hreach : net.Reaches n (j.source s)) : ¬ net.Reaches n (j.source s.other) := by
  intro hother
  obtain ⟨id, hhead, hid⟩ := h.exists_mem_sideIds hj hreach
  obtain ⟨id', hhead', hid'⟩ := h.exists_mem_sideIds hj hother
  obtain rfl : id = id' := Option.some.inj (hhead.symm.trans hhead')
  obtain ⟨k, hk⟩ := (h.valid m j hj).exists_column? hid
  obtain ⟨k', hk'⟩ := (h.valid m j hj).exists_column? hid'
  have hside : s = s.other := (Prod.mk.inj (Option.some.inj (hk.symm.trans hk'))).1
  exact s.ne_other hside

/-- What is above a table is not older. -/
theorem Reaches.le (h : net.Ordered) (hreach : net.Reaches n m) : n ≤ m := by
  induction hreach with
  | refl => exact Nat.le_refl _
  | @step m j s _ hj ih => exact Nat.le_trans ih (Nat.le_of_lt (h.source hj s).1)

theorem Reaches.trans (h : net.Reaches n m) (h' : net.Reaches m id) : net.Reaches n id := by
  induction h' with
  | refl => exact h
  | step _ hj ih => exact .step ih hj

/-! ## Staying well-formed -/

/-- Tables may go, with all that is above them, and new stored tables may come. -/
theorem Formed.of_contents (h : net.Formed) (ho : net'.Ordered) (hw : net'.Wired)
    (hc : ∀ id c, net'.content? id = some c → net.content? id = some c ∨
      net.content? id = none ∧ ∃ t, c = .stored t ∧ t.Valid) : net'.Formed := by
  have hjoined {id : Nat} {j : JoinedTable} (hj : net'.joined? id = some j) :
      net.joined? id = some j := by
    rcases hc id _ (content?_of_joined? hj) with hold | ⟨-, t, ht, -⟩
    · exact joined?_eq_some_iff.2 hold
    · exact Content.noConfusion ht
  have hsource {id : Nat} {j : JoinedTable} (hj : net'.joined? id = some j) (s : Side) :
      net'.content? (j.source s) = net.content? (j.source s) := by
    obtain ⟨c, hc'⟩ := Option.ne_none_iff_exists'.1 (ho.source hj s).2
    rcases hc _ c hc' with hold | ⟨hnone, -⟩
    · rw [hc', hold]
    · exact absurd hnone (h.ordered.source (hjoined hj) s).2
  refine ⟨ho, hw, fun id t ht => ?_, fun id j hj => h.valid id j (hjoined hj), fun id j hj => ?_⟩
  · rcases hc id _ (content?_of_table? ht) with hold | ⟨-, t', ht', hvalid⟩
    · exact h.tables id t (table?_eq_some_iff.2 hold)
    · obtain rfl := Content.stored.inj ht'
      exact hvalid
  · have hfits := h.fits id j (hjoined hj)
    refine ⟨fun s c kind hcol => ?_, fun s => ?_, fun s j' hj' => ?_⟩
    · rw [(h.ordered.shown_congr ho (hsource hj s)).2.2]
      exact hfits.kinds s c kind hcol
    · rw [(h.ordered.shown_congr ho (hsource hj s)).2.1]
      exact hfits.ids s
    · exact hfits.whole s j' ((joined?_congr (hsource hj s)).symm.trans hj')

/-- Another table in the place of one, which has all columns of the first. -/
theorem Formed.replace (h : net.Formed) (ho : net'.Ordered) (hw : net'.Wired)
    (hother : ∀ id, id ≠ n → net'.content? id = net.content? id)
    (hids : (net.shown n).columnIds <+: (net'.shown n).columnIds)
    (hkinds : ∀ id kind, (net.shown n).columnKind id = .ok kind → (net'.shown n).columnKind id = .ok kind)
    (htable : ∀ t, net'.table? n = some t → t.Valid)
    (hjoined : ∀ j, net'.joined? n = some j → j.Valid ∧
      ∃ j₀, net.joined? n = some j₀ ∧ j.source = j₀.source ∧ j.columns = j₀.columns) : net'.Formed := by
  -- no table shows fewer columns than before, so a joined table finds those that it has of its sources
  have hshown (id : Nat) : (net.shown id).columnIds <+: (net'.shown id).columnIds ∧
      ∀ c kind, (net.shown id).columnKind c = .ok kind → (net'.shown id).columnKind c = .ok kind := by
    by_cases heq : id = n
    · subst heq
      exact ⟨hids, hkinds⟩
    · obtain ⟨-, hids', hkinds'⟩ := h.ordered.shown_congr ho (hother id heq)
      rw [hids', hkinds']
      exact ⟨List.prefix_rfl, fun _ _ hk => hk⟩
  have hold {id : Nat} {j : JoinedTable} (hj : net'.joined? id = some j) : j.Valid ∧
      ∃ j₀, net.joined? id = some j₀ ∧ j.source = j₀.source ∧ j.columns = j₀.columns := by
    by_cases heq : id = n
    · subst heq
      exact hjoined j hj
    · have hj₀ := (joined?_congr (hother id heq)).symm.trans hj
      exact ⟨h.valid id j hj₀, j, hj₀, rfl, rfl⟩
  refine ⟨ho, hw, fun id t ht => ?_, fun id j hj => (hold hj).1, fun id j hj => ?_⟩
  · by_cases heq : id = n
    · exact htable t (heq ▸ ht)
    · exact h.tables id t ((table?_congr (hother id heq)).symm.trans ht)
  · obtain ⟨-, j₀, hj₀, hsource, hcolumns⟩ := hold hj
    have hfits := h.fits id j₀ hj₀
    have hside (s : Side) : j.sideIds s = j₀.sideIds s := by
      rw [JoinedTable.sideIds, hcolumns, JoinedTable.sideIds]
    refine ⟨fun s c kind hcol => ?_, fun s => ?_, fun s j' hj' s' => ?_⟩
    · rw [hsource]
      exact (hshown _).2 c kind (hfits.kinds s c kind (hcolumns ▸ hcol))
    · rw [hside, hsource]
      exact (hfits.ids s).trans (hshown _).1
    · obtain ⟨-, j₁, hj₁, -, hcolumns₁⟩ := hold hj'
      rw [hside, JoinedTable.sideIds, hcolumns₁]
      rw [hsource] at hj₁
      exact hfits.whole s j₁ hj₁ s'

/-- Another stored table in the place of one. -/
theorem Formed.setTable (h : net.Formed) (ht : net.table? n = some t) (hvalid : t'.Valid)
    (hids : t.columnIds <+: t'.columnIds)
    (hkinds : ∀ id kind, t.columnKind id = .ok kind → t'.columnKind id = .ok kind) :
    (net.setContent n (.stored t')).Formed := by
  have hself : (net.setContent n (.stored t')).table? n = some t' :=
    table?_eq_some_iff.2 (content?_setContent_self (by simp [content?_of_table? ht]))
  have hview : net.shown n = t.view := see_stored ht
  have hview' : (net.setContent n (.stored t')).shown n = t'.view := see_stored hself
  have horderly : (net.setContent n (.stored t')).Orderly := h.orderly.setTable ht
  refine h.replace horderly.ordered horderly.wired
    (fun id hne => content?_setContent_of_ne hne) ?_ ?_ (fun u hu => ?_) fun j hj => ?_
  · rwa [hview, hview']
  · rwa [hview, hview']
  · obtain rfl := Option.some.inj (hself.symm.trans hu)
    exact hvalid
  · rw [joined?_eq_none_of_table? hself] at hj
    exact absurd hj (by simp)

/-- Another joined table in the place of one, with the same source columns. -/
theorem Formed.setJoined (h : net.Formed) (hj : net.joined? n = some j) (hvalid : j'.Valid)
    (hsource : j'.source = j.source) (hcolumns : j'.columns = j.columns)
    (hids : j.columnIds <+: j'.columnIds)
    (hkinds : ∀ id kind, j.columnKind id = .ok kind → j'.columnKind id = .ok kind) :
    (net.setContent n (.joined j')).Formed := by
  have hself : (net.setContent n (.joined j')).joined? n = some j' :=
    joined?_eq_some_iff.2 (content?_setContent_self (by simp [content?_of_joined? hj]))
  have horderly := h.orderly.setJoined hj hsource
  refine h.replace horderly.ordered horderly.wired
    (fun id hne => content?_setContent_of_ne hne) ?_ ?_ (fun u hu => ?_) fun j₁ hj₁ => ?_
  · rwa [h.ordered.columnIds_joined hj, horderly.ordered.columnIds_joined hself]
  · rwa [h.ordered.columnKind_joined hj, horderly.ordered.columnKind_joined hself]
  · rw [table?_eq_none_of_joined? hself] at hu
    exact absurd hu (by simp)
  · obtain rfl := Option.some.inj (hself.symm.trans hj₁)
    exact ⟨hvalid, j, hj, hsource, hcolumns⟩

/-- A joined table that fits its sources comes. -/
theorem Formed.insertJoined (h : net.Formed) (hvalid : j.Valid) (hfits : net.Fits j)
    (hsources : ∀ s, net.content? (j.source s) ≠ none) : (net.insertJoined j).1.Formed := by
  have ho := h.ordered.insertJoined hsources
  have hold {id : Nat} (hid : net.content? id ≠ none) :
      (net.insertJoined j).1.content? id = net.content? id := by
    rw [content?_insertJoined, if_neg (Nat.ne_of_lt (h.ordered.lt_nextId hid))]
  have hcases {id : Nat} {j₁ : JoinedTable} (hj₁ : (net.insertJoined j).1.joined? id = some j₁) :
      j₁.Valid ∧ net.Fits j₁ ∧ ∀ s, net.content? (j₁.source s) ≠ none := by
    by_cases heq : id = net.nextId
    · have hnew := content?_of_joined? hj₁
      rw [content?_insertJoined, if_pos heq] at hnew
      obtain rfl : j = j₁ := by simpa using hnew
      exact ⟨hvalid, hfits, hsources⟩
    · have hj₁' : net.joined? id = some j₁ := by
        rw [joined?_eq_some_iff, ← content?_of_joined? hj₁, content?_insertJoined, if_neg heq]
      exact ⟨h.valid id j₁ hj₁', h.fits id j₁ hj₁', fun s => (h.ordered.source hj₁' s).2⟩
  refine ⟨ho, h.wired.insertJoined h.ordered hsources, fun id t ht => ?_,
    fun id j₁ hj₁ => (hcases hj₁).1, fun id j₁ hj₁ => ?_⟩
  · by_cases heq : id = net.nextId
    · have hnew := content?_of_table? ht
      rw [content?_insertJoined, if_pos heq] at hnew
      exact absurd hnew (by simp)
    · refine h.tables id t ?_
      rw [table?_eq_some_iff, ← content?_of_table? ht, content?_insertJoined, if_neg heq]
  · obtain ⟨-, hfits₁, hexist⟩ := hcases hj₁
    refine ⟨fun s c kind hcol => ?_, fun s => ?_, fun s j₂ hj₂ => ?_⟩
    · rw [(h.ordered.shown_congr ho (hold (hexist s))).2.2]
      exact hfits₁.kinds s c kind hcol
    · rw [(h.ordered.shown_congr ho (hold (hexist s))).2.1]
      exact hfits₁.ids s
    · exact hfits₁.whole s j₂ ((joined?_congr (hold (hexist s))).symm.trans hj₂)

end LiveTables.Network
