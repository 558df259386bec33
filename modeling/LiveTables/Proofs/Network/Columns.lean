import LiveTables.Proofs.Network.Settled

/-!
# A computed column comes

A computed column may be registered at any table. Nothing is announced of it, and nothing needs to be: no
joined table shows the column, because each shows those that its sources had when it was joined, and all other
columns are read as before. So a settled network stays settled (`settled_addComputed_stored`,
`settled_addComputed_joined`).
-/

namespace LiveTables.Network

variable {net net' : Network} {n k : Nat} {j j' : JoinedTable} {t t' : Table} {c : String}
  {col : ComputedColumn}

/-- Another table in the place of one, in which all that is shown further up reads as before. -/
theorem Settled.replace (h : net.Settled) (hformed : net'.Formed)
    (hother : ∀ id, id ≠ n → net'.content? id = net.content? id)
    (hsort : ∀ t', net'.table? n = some t' → ∃ t, net.table? n = some t)
    (hsources : ∀ s, net'.sourceOf? n s = net.sourceOf? n s)
    (hrows : (net'.shown n).rows = (net.shown n).rows)
    (hpresumed : ∀ c, Captured net n c → ∀ k, net'.presumed n k c = net.presumed n k c)
    (hplain : ∀ c, Plain net' n c → Plain net n c)
    (hpasses : ∀ c, Captured net n c → Passes net' n c → Passes net n c)
    (hown : ∀ j, net'.joined? n = some j → ∀ s, Port net' silent n j s) : net'.Settled := by
  have hadvance : Advance net silent net' silent n [] := by
    refine ⟨hformed, hother, hsort, hsources, fun _ _ _ _ _ => rfl, fun K _ s => ?_, ⟨?_, ?_, trivial, ?_⟩,
      fun c hc k => .inr (.inr ⟨hpresumed c hc k, fun hdue => ?_⟩), hplain, hpasses, ?_, .nil, hown⟩
    · simp [silent]
    · exact fun k hk hnot => absurd (hrows ▸ hk) hnot
    · exact fun k hk hnot => absurd (hrows ▸ hk) hnot
    · exact fun x hx => absurd hx List.not_mem_nil
    · obtain ⟨K, j, s, hj, rfl, -⟩ := hc
      exact absurd hdue ((h.calm (h.formed.ordered.source hj s).2).1 k c)
    · exact fun x hx => absurd hx List.not_mem_nil
  exact ((h.wave n).advance hadvance (fun hne => absurd rfl hne) fun _ _ _ hne => absurd rfl hne).settled

/-- Columns that are shown further up are known. -/
theorem Formed.exists_kind_of_captured (h : net.Formed) (hc : Captured net n c) :
    ∃ kind, (net.shown n).columnKind c = .ok kind := by
  obtain ⟨K, j, s, hj, rfl, hid⟩ := hc
  obtain ⟨kind, hcol⟩ := (h.valid K j hj).exists_column? hid
  exact ⟨kind, (h.fits K j hj).kinds s c kind (JoinedTable.mem_columns_of_column? hcol)⟩

/-! ## Stored tables -/

theorem settled_addComputed_stored (h : net.Settled) (ht : net.table? n = some t)
    (hlaw : col.Lawful (t.computed.kind? t.storedKind?)) (hadd : t.addComputed col = (t', .ok ())) :
    (net.setContent n (.stored t')).Settled := by
  have hvalid := h.formed.tables n t ht
  obtain ⟨hvalid', computed, rfl, hcons⟩ := hvalid.addComputed hlaw hadd
  set t' := { t with computed } with ht'def
  have ht' := table?_setContent ht t'
  -- the new column is not one that was known
  have hknown {c : String} {kind : Kind} (hkind : t.columnKind c = .ok kind) : c ≠ col.id := by
    refine hvalid'.registered.layered.ne_of_known (c := t.computed) hcons fun hnone => ?_
    rw [hvalid.wellFormed.columnKind_eq_ok] at hkind
    exact absurd (hkind.symm.trans hnone) (by simp)
  have hkinds (c : String) (kind : Kind) (hkind : t.columnKind c = .ok kind) : t'.columnKind c = .ok kind :=
    hvalid.wellFormed.columnKind_addComputed hadd hkind
  have hids : t.columnIds <+: t'.columnIds := by
    rw [Table.columnIds, Table.columnIds, Computed.ids_of_cons hcons, ← List.append_assoc]
    exact List.prefix_append _ _
  refine h.replace (h.formed.setTable ht hvalid' hids hkinds) (fun id hid => content?_setContent_of_ne hid)
    (fun _ _ => ⟨t, ht⟩) (fun s => ?_) ?_ (fun c hc k => ?_) (fun c hc => ?_) (fun _ _ _ => .stored ht)
    fun j hj => ?_
  · rw [sourceOf?, joined?_eq_none_of_table? ht', sourceOf?, joined?_eq_none_of_table? ht]
  · rw [rows_stored ht, rows_stored ht']
    rfl
  · obtain ⟨kind, hkind⟩ := h.formed.exists_kind_of_captured hc
    rw [shown, see_stored ht] at hkind
    rw [presumed_stored ht', presumed_stored ht, actual_stored ht', actual_stored ht]
    congr 1
    show (if t.isLive k then _ else _) = if t.isLive k then _ else _
    rw [Computed.read_of_cons hcons (hknown hkind)]
    rfl
  · cases hc with
    | stored ht₁ hc =>
      obtain rfl := Option.some.inj (ht₁.symm.trans ht')
      exact .stored ht hc
    | source hj => exact absurd ((joined?_eq_none_of_table? ht').symm.trans hj) (by simp)
  · exact absurd ((joined?_eq_none_of_table? ht').symm.trans hj) (by simp)

/-! ## Joined tables -/

section Joined

variable {computed : Computed} (h : net.Settled) (hj : net.joined? n = some j)
  (hvalid' : JoinedTable.Valid { j with computed })
  (hcons : computed.newestFirst = col :: j.computed.newestFirst)

/-- The tables before the joined one stay as they are. -/
theorem agree_setComputed (h : net.Settled) (n : Nat) (j : JoinedTable) (computed : Computed) :
    Agree net (net.setContent n (.joined { j with computed })) fun m => m < n where
  contents _ hid := content?_setContent_of_ne (Nat.ne_of_lt hid)
  closed _ _ s hid hj₁ := Nat.lt_trans (h.formed.ordered.source hj₁ s).1 hid

theorem joined?_setComputed (hj : net.joined? n = some j) (computed : Computed) :
    (net.setContent n (.joined { j with computed })).joined? n = some { j with computed } :=
  joined?_eq_some_iff.2 (content?_setContent_self (by simp [content?_of_joined? hj]))

include hvalid' hcons

/-- The new column is not one that was known. -/
theorem ne_of_kind {kind : Kind} (hvalid : j.Valid) (hkind : j.columnKind c = .ok kind) : c ≠ col.id := by
  refine hvalid'.registered.layered.ne_of_known (c := j.computed) hcons fun hnone => ?_
  rw [hvalid.columnKind_eq_ok] at hkind
  exact absurd (hkind.symm.trans hnone) (by simp)

include h hj

theorem formed_setComputed : (net.setContent n (.joined { j with computed })).Formed := by
  have hvalid := h.formed.valid n j hj
  refine h.formed.setJoined hj hvalid' rfl rfl ?_ fun c kind hkind => ?_
  · rw [JoinedTable.columnIds, JoinedTable.columnIds, Computed.ids_of_cons hcons, ← List.append_assoc]
    exact List.prefix_append _ _
  · rw [hvalid'.columnKind_eq_ok]
    exact Layered.kind?_of_cons hvalid'.layers (hvalid.columnKind_eq_ok.1 hkind) hcons

theorem ne_of_captured (hc : Captured net n c) : c ≠ col.id := by
  obtain ⟨kind, hkind⟩ := h.formed.exists_kind_of_captured hc
  rw [h.formed.ordered.columnKind_joined hj] at hkind
  exact ne_of_kind hvalid' hcons (h.formed.valid n j hj) hkind

/-- The other columns read as before. -/
theorem presumed_setComputed (hc : c ≠ col.id) :
    (net.setContent n (.joined { j with computed })).presumed n k c = net.presumed n k c := by
  have ho := h.formed.ordered
  have ho' := (formed_setComputed h hj hvalid' hcons).ordered
  have hsee : (fun s => (net.setContent n (.joined { j with computed })).see JoinedTable.linkedCell
      (j.source s)) = fun s => net.see JoinedTable.linkedCell (j.source s) :=
    funext fun s => (agree_setComputed h n j computed).see ho ho' (ho.source hj s).1
  rw [presumed, presumed, ho.see_joined hj, ho'.see_joined (joined?_setComputed hj computed), TableView.class?,
    TableView.class?]
  congr 1
  show (if j.engine.contains k then computed.read _ c else _) = if j.engine.contains k then _ else _
  rw [Computed.read_of_cons hcons hc]
  exact congrArg (fun source => (j.viewWith JoinedTable.linkedCell source).get c k) hsee

/-- The other columns pass as before. -/
theorem passes_of_setComputed {m : Nat}
    (hpasses : Passes (net.setContent n (.joined { j with computed })) m c) (hm : m = n)
    (hc : c ≠ col.id) : Passes net n c := by
  have hself := joined?_setComputed hj computed
  have hagree := agree_setComputed h n j computed
  have hsource (s : Side) : j.source s < n := (h.formed.ordered.source hj s).1
  induction hpasses with
  | stored ht => exact absurd ((joined?_eq_none_of_table? (hm ▸ ht)).symm.trans hself) (by simp)
  | plain hplain =>
    subst hm
    obtain ⟨s, kind, hcol, hbelow⟩ := hplain.exists_column? hself
    exact .plain (.source hj hcol (hagree.symm.plain (hsource s) hbelow))
  | @first m j₁ t c s kind hj₁ hcol ht =>
    subst hm
    obtain rfl := Option.some.inj (hj₁.symm.trans hself)
    exact .first hj hcol ((hagree.table? (hsource s)).symm.trans ht)
  | @through m j₁ c s kind hj₁ hcol hother hbelow =>
    subst hm
    obtain rfl := Option.some.inj (hj₁.symm.trans hself)
    exact .through hj hcol hother (hagree.symm.passes (hsource s) hbelow)
  | @computed m j₁ c col₁ hj₁ hcol₁ _ ih =>
    subst hm
    obtain rfl := Option.some.inj (hj₁.symm.trans hself)
    have hcol : j.computed.column? c = some col₁ := (Computed.column?_of_cons hcons hc).symm.trans hcol₁
    refine .computed hj hcol fun d hd => ih d hd rfl ?_
    -- dependencies were known before
    exact hvalid'.registered.layered.ne_of_known (c := j.computed) hcons
      ((h.formed.valid m j hj).registered.layered.known_of_mem hcol hd)

theorem port_setComputed (s : Side) :
    Port (net.setContent n (.joined { j with computed })) silent n { j with computed } s := by
  have ho := h.formed.ordered
  have ho' := (formed_setComputed h hj hvalid' hcons).ordered
  have hport := (agree_setComputed h n j computed).port ho ho' (fun _ _ _ _ _ => rfl) (ho.source hj s).1 rfl
    (h.port n j hj s)
  exact ⟨hport.known, hport.gone, hport.come, hport.refills, hport.legible, hport.settles⟩

end Joined

theorem settled_addComputed_joined (h : net.Settled) (hj : net.joined? n = some j)
    (hlaw : col.Lawful (j.computed.kind? j.sourceKind?)) (hadd : j.addComputed col = (j', .ok ())) :
    (net.setContent n (.joined j')).Settled := by
  obtain ⟨hvalid', computed, rfl, hcons⟩ := (h.formed.valid n j hj).addComputed hlaw hadd
  have hself := joined?_setComputed hj computed
  have hformed := formed_setComputed h hj hvalid' hcons
  refine h.replace hformed (fun id hid => content?_setContent_of_ne hid) (fun t ht => ?_) (fun s => ?_) ?_
    (fun c hc k => ?_) (fun c hc => ?_) (fun c hc hpasses => ?_) fun j₁ hj₁ s => ?_
  · exact absurd ((joined?_eq_none_of_table? ht).symm.trans hself) (by simp)
  · rw [sourceOf?_of_joined? hself, sourceOf?_of_joined? hj]
    rfl
  · rw [h.formed.ordered.rows_joined hj, hformed.ordered.rows_joined hself]
  · exact presumed_setComputed h hj hvalid' hcons (ne_of_captured h hj hvalid' hcons hc)
  · obtain ⟨s, kind, hcol, hbelow⟩ := hc.exists_column? hself
    have hagree := agree_setComputed h n j computed
    exact .source hj hcol (hagree.symm.plain (h.formed.ordered.source hj s).1 hbelow)
  · exact passes_of_setComputed h hj hvalid' hcons hpasses rfl (ne_of_captured h hj hvalid' hcons hc)
  · obtain rfl := Option.some.inj (hj₁.symm.trans hself)
    exact port_setComputed h hj hvalid' hcons s

end LiveTables.Network
