import LiveTables.Proofs.Network.Extended

/-!
# Worlds in step

Of two worlds, one may have more computed columns in one of its tables and be the same otherwise (`World.InStep`). They
stay in step in all that happens when a change is announced in both (`Outside.Passive.inStep`): the new columns are
announced besides, but no joined table has them among the columns of its sources, so that it links what it would have
linked, and one that hears of new columns only does nothing at all.

The observers are passive here: they watch, and leave the network alone.
-/

namespace LiveTables

open Network World

variable {ω : Type} {o : Outside ω} {d : Dispatch ω} {w w' : World ω} {base : Network} {n m K row depth : Nat}
  {more : List ComputedColumn} {j : JoinedTable} {t : Table} {side : Side} {columns extra : List String}

/-- Observers that leave the network alone, whatever they keep for themselves. -/
def Outside.Passive (o : Outside ω) : Prop :=
  ∀ (d : Dispatch ω) (w : World ω), (∀ id e, (o.onEvent d w id e).network = w.network) ∧
    ∀ id row, (o.onCell d w id row).network = w.network

/-- The second world is the first with more computed columns in one table. Writing has not changed what it never
changes. -/
structure World.InStep (n : Nat) (more : List ComputedColumn) (base : Network) (w w' : World ω) : Prop where
  network : w'.network = w.network.extend n more
  tight : w.network.Tight
  tight' : w'.network.Tight
  frame : w.network.frame = base.frame

/-! ## Columns that a joined table does not know -/

namespace JoinedTable

/-- Columns that are not among those of a source make no difference to what is announced of it. -/
theorem plainColumns_append (h : ∀ c ∈ extra, c ∉ j.sideIds side) :
    j.plainColumns side (columns ++ extra) = j.plainColumns side columns := by
  have hnone : j.plainColumns side extra = [] := by
    refine List.eq_nil_iff_forall_not_mem.2 fun c hc => ?_
    obtain ⟨hside, -, hmem⟩ := mem_plainColumns.1 hc
    exact h c hmem hside
  rw [plainColumns, List.filter_append]
  exact (congrArg (_ ++ ·) hnone).trans (List.append_nil _)

end JoinedTable

/-- An update that names such columns besides is taken like one that does not. -/
theorem onSourceEvent_append (hkey : j.key side ∈ j.sideIds side) (h : ∀ c ∈ extra, c ∉ j.sideIds side) :
    onSourceEvent d w K j side (.updated row (columns ++ extra)) =
      onSourceEvent d w K j side (.updated row columns) := by
  have htouches : (Event.updated row (columns ++ extra)).touches (j.key side) =
      (Event.updated row columns).touches (j.key side) := by
    have hnot : j.key side ∉ extra := fun hmem => h _ hmem hkey
    exact decide_eq_decide.2 (List.mem_append.trans (or_iff_left hnot))
  have hplain : j.plainColumns side (Event.updated row (columns ++ extra)).columns =
      j.plainColumns side (Event.updated row columns).columns := JoinedTable.plainColumns_append h
  rw [onSourceEvent, onSourceEvent, htouches, hplain]
  rfl

/-- An update that names no column is nothing to a joined table. -/
theorem onSourceEvent_updated_nil : onSourceEvent d w K j side (.updated row []) = w := rfl

namespace World.InStep

variable (h : InStep n more base w w')

include h

theorem of_network {w₁ w₁' : World ω} (hw : w₁.network = w.network) (hw' : w₁'.network = w'.network) :
    InStep n more base w₁ w₁' where
  network := by rw [hw, hw', h.network]
  tight := hw ▸ h.tight
  tight' := hw' ▸ h.tight'
  frame := hw ▸ h.frame

theorem joined? (K : Nat) :
    w'.network.joined? K = (w.network.joined? K).map (·.extend (moreAt n more K)) := by
  rw [h.network, joined?_extend]

theorem joined?_eq (hj : w.network.joined? K = some j) :
    w'.network.joined? K = some (j.extend (moreAt n more K)) := by
  rw [h.joined?, hj, Option.map_some]

/-- Of the columns that its source has more, a joined table knows none. -/
theorem not_mem_sideIds (hj : w.network.joined? K = some j) (hextra : extra ⊆ (moreAt n more (j.source side)).map (·.id)) :
    ∀ c ∈ extra, c ∉ j.sideIds side :=
  fun _ hc hside => h.tight.not_mem_of_sideIds (h.network ▸ h.tight') hj hside (hextra hc)

/-- The current key of a source row is the same. -/
theorem keyOf (hj : w.network.joined? K = some j) (side : Side) (row : Nat) :
    w'.keyOf (j.extend (moreAt n more K)) side row = w.keyOf j side row := by
  have ho := h.tight.kinded.regular.orderly.ordered
  have ho' := h.tight'.kinded.regular.orderly.ordered
  have hsource := (ho.source hj side).2
  have hsource' : w'.network.content? (j.source side) ≠ none := (ho'.source (h.joined?_eq hj) side).2
  obtain ⟨⟨id, kind⟩, hmem, hid⟩ := List.mem_map.1 (h.tight.keys K j hj side)
  have hkind : (w.network.shown (j.source side)).columnKind (j.key side) = .ok kind :=
    hid ▸ h.tight.kinded.kinds K j hj side id kind hmem
  have hget : (w'.network.shown (j.source side)).get (j.key side) row =
      (w.network.shown (j.source side)).get (j.key side) row := by
    rw [h.network]
    exact h.tight.get_extend (h.network ▸ h.tight') hsource hkind
  show (w'.network.view? (j.source side)).bind _ = (w.network.view? (j.source side)).bind _
  rw [ho.view?_eq hsource, ho'.view?_eq hsource']
  exact congrArg Except.toOption hget

/-! ## Single steps -/

theorem hold (K : Nat) :
    InStep n more (base.hold K) (w.modifyNetwork (·.hold K)) (w'.modifyNetwork (·.hold K)) where
  network := by
    show w'.network.hold K = _
    rw [h.network]
    rfl
  tight := h.tight.changes (.quietly (.hold .refl))
  tight' := h.tight'.changes (.quietly (.hold .refl))
  frame := by
    obtain ⟨hnodes, hheld⟩ := Prod.mk.inj h.frame
    exact Prod.ext hnodes (congrArg (K :: ·) hheld)

/-- A joined table is given other links. -/
theorem link (hj : w.network.joined? K = some j) (engine : JoinEngine) :
    InStep n more base (w.modifyNetwork (·.setContent K (.joined { j with engine })))
      (w'.modifyNetwork (·.setContent K (.joined { j.extend (moreAt n more K) with engine }))) where
  network := by
    show w'.network.setContent K _ = (w.network.setContent K _).extend n more
    rw [h.network, ← setContent_extend]
    rfl
  tight := h.tight.changes (.link hj engine)
  tight' := h.tight'.changes (.link (h.joined?_eq hj) engine)
  frame := by
    have hframe : (w.network.setContent K (.joined { j with engine })).frame = w.network.frame :=
      frame_setContent h.tight.kinded.regular.orderly.ordered (content?_of_joined? hj) rfl rfl
    exact hframe.trans h.frame

/-- A stored table is edited. -/
theorem edit {e : Table.Edit} {done done' : Table × List Signal} (ht : w.network.table? m = some t)
    (hdone : t.attempt e = some done) (hdone' : (t.extend (moreAt n more m)).attempt e = some done')
    (halongside : done'.1 = done.1.extend (moreAt n more m)) :
    InStep n more base (w.modifyNetwork (·.setContent m (.stored done.1)))
      (w'.modifyNetwork (·.setContent m (.stored done'.1))) := by
  have hperform := Table.perform_of_attempt hdone
  have hperform' := Table.perform_of_attempt hdone'
  have ht' : w'.network.table? m = some (t.extend (moreAt n more m)) := by
    rw [h.network, table?_extend, ht, Option.map_some]
  have hedit := h.tight.changes (.edit ht e)
  have hedit' := h.tight'.changes (.edit ht' e)
  rw [hperform] at hedit
  rw [hperform'] at hedit'
  refine ⟨?_, hedit, hedit', ?_⟩
  · show w'.network.setContent m _ = (w.network.setContent m _).extend n more
    rw [h.network, ← setContent_extend, halongside]
    rfl
  · have halike := (Table.turns_perform (h.tight.kinded.regular.tables m t ht) e).alike
    rw [hperform] at halike
    have hframe : (w.network.setContent m (.stored done.1)).frame = w.network.frame :=
      frame_setContent h.tight.kinded.regular.orderly.ordered (content?_of_table? ht) rfl halike.columnIds
    exact hframe.trans h.frame

/-- The same is done in both worlds for all elements of a list. -/
theorem foldl {α : Type} {f f' : World ω → α → World ω} {xs : List α}
    (hstep : ∀ w w' x, x ∈ xs → InStep n more base w w' → InStep n more base (f w x) (f' w' x)) :
    InStep n more base (xs.foldl f w) (xs.foldl f' w') := by
  induction xs generalizing w w' with
  | nil => exact h
  | cons x xs ih =>
    exact ih (hstep w w' x List.mem_cons_self h) fun w w' x hx => hstep w w' x (List.mem_cons_of_mem _ hx)

end World.InStep

/-- What was held last is let go. -/
theorem World.InStep.release (hsteady : base.Steady) (h : InStep n more (base.hold K) w w') :
    InStep n more base (w.modifyNetwork (·.release K)) (w'.modifyNetwork (·.release K)) := by
  obtain ⟨hnodes, hheld⟩ := Prod.mk.inj h.frame
  have hframe : ({ w.network with held := base.held } : Network).frame = base.frame := congrArg (·, base.held) hnodes
  have hheld' : w'.network.held = K :: base.held := by
    rw [h.network]
    exact hheld
  have hleft := Steady.release_eq hheld (hsteady.of_frame hframe)
  have hright : w'.network.release K = ({ w.network with held := base.held } : Network).extend n more := by
    have hsame : ({ w'.network with held := base.held } : Network) =
        ({ w.network with held := base.held } : Network).extend n more := by
      rw [h.network]
      rfl
    rw [← hsame]
    exact Steady.release_eq hheld' (hsame ▸ (hsteady.of_frame hframe).extend n more)
  refine ⟨?_, h.tight.changes (.quietly (.release .refl)), h.tight'.changes (.quietly (.release .refl)), ?_⟩
  · show w'.network.release K = (w.network.release K).extend n more
    rw [hleft, hright]
  · show (w.network.release K).frame = base.frame
    rw [hleft, hframe]

/-! ## A joined table responds -/

/-- Announcements keep worlds in step, also if in the second one an update names new columns besides, or an update that
names nothing else is announced there alone. -/
structure Dispatch.InStep (n : Nat) (more : List ComputedColumn) (d : Dispatch ω) : Prop where
  same : ∀ {base : Network} {w w' : World ω} (m : Nat) (s : Signal), base.Steady → w.InStep n more base w' →
    (d.announce w m s).InStep n more base (d.announce w' m s)
  wider : ∀ {base : Network} {w w' : World ω} {m : Nat} (row : Nat) (columns : List String) {extra : List String},
    extra ⊆ (moreAt n more m).map (·.id) → base.Steady → w.InStep n more base w' →
    (d.announce w m (.event (.updated row columns))).InStep n more base
      (d.announce w' m (.event (.updated row (columns ++ extra))))
  extra : ∀ {base : Network} {w w' : World ω} {m : Nat} (row : Nat) {columns : List String},
    columns ⊆ (moreAt n more m).map (·.id) → base.Steady → w.InStep n more base w' →
    w.InStep n more base (d.announce w' m (.event (.updated row columns)))

namespace Dispatch.InStep

variable (hd : d.InStep n more) (hsteady : base.Steady) (h : w.InStep n more base w')

include hd hsteady h

theorem announces {ss ss' : List Signal} (hss : Announces ((moreAt n more m).map (·.id)) ss ss') :
    (ss.foldl (fun w s => d.announce w m s) w).InStep n more base (ss'.foldl (fun w s => d.announce w m s) w') := by
  induction hss generalizing w w' with
  | nil => exact h
  | same s _ ih => exact ih (hd.same m s hsteady h)
  | wider row columns hextra _ ih => exact ih (hd.wider row columns hextra hsteady h)
  | extra row hcolumns _ ih => exact ih (hd.extra row hcolumns hsteady h)

theorem announceAll {es es' : List Event}
    (hes : Announces ((moreAt n more m).map (·.id)) (es.map .event) (es'.map .event)) :
    (World.announceAll d w m es).InStep n more base (World.announceAll d w' m es') := by
  have hall := hd.announces hsteady h hes
  rwa [List.foldl_map, List.foldl_map] at hall

theorem announceUpdate (K row : Nat) (columns : List String) :
    (World.announceUpdate d w K row columns).InStep n more base (World.announceUpdate d w' K row columns) := by
  rw [World.announceUpdate, World.announceUpdate, h.joined?]
  rcases w.network.joined? K with - | j
  · exact h
  · exact hd.announceAll hsteady h (j.announces_updateEvents _ row columns)

theorem publish (K : Nat) (changes : List JoinChange) :
    (World.publish d w K changes).InStep n more base (World.publish d w' K changes) := by
  rw [World.publish, World.publish, h.joined?]
  rcases w.network.joined? K with - | j
  · exact h
  · refine h.foldl fun w w' change _ h => ?_
    cases change with
    | added row =>
      refine hd.announceAll hsteady h (.same _ ?_)
      rw [JoinedTable.columnIds_extend]
      exact .wider row j.columnIds (List.reverse_subset.2 (List.Subset.refl _)) .nil
    | updated row side => exact hd.announceUpdate hsteady h K row (j.sideIds side)
    | deleted row => exact hd.announceAll hsteady h (.refl _)

theorem commitLinks (hj : w.network.joined? K = some j) (result : JoinEngine × List JoinChange) :
    (World.commitLinks d w K j result).InStep n more base
      (World.commitLinks d w' K (j.extend (moreAt n more K)) result) :=
  hd.publish hsteady (h.link hj result.1) K result.2

theorem relink (hj : w.network.joined? K = some j) (side : Side) (row : Nat) :
    (World.relink d w K j side row).1.InStep n more base
        (World.relink d w' K (j.extend (moreAt n more K)) side row).1 ∧
      (World.relink d w' K (j.extend (moreAt n more K)) side row).2 = (World.relink d w K j side row).2 := by
  rw [World.relink, World.relink, h.keyOf hj]
  rcases w.keyOf j side row with - | key
  · exact ⟨h, rfl⟩
  · exact ⟨hd.commitLinks hsteady h hj (j.engine.link side row key), rfl⟩

theorem forward (K : Nat) (side : Side) (row : Nat) (columns : List String) (announced : List Nat) :
    (World.forward d w K side row columns announced).InStep n more base
      (World.forward d w' K side row columns announced) := by
  rw [World.forward, World.forward, h.joined?]
  rcases w.network.joined? K with - | j
  · exact h
  · exact h.foldl fun w w' row _ h => hd.announceUpdate hsteady h K row columns

theorem onSourceEvent (hj : w.network.joined? K = some j) (side : Side) (e : Event) :
    (World.onSourceEvent d w K j side e).InStep n more base
      (World.onSourceEvent d w' K (j.extend (moreAt n more K)) side e) := by
  rw [World.onSourceEvent, World.onSourceEvent]
  cases e.action with
  | add => exact (hd.relink hsteady h hj side e.row).1
  | delete => exact hd.commitLinks hsteady h hj (j.engine.unlink side e.row)
  | update =>
    have hkey : (j.extend (moreAt n more K)).key side = j.key side := rfl
    have hplain : (j.extend (moreAt n more K)).plainColumns side e.columns = j.plainColumns side e.columns := rfl
    have hlinked :
        (if e.touches (j.key side) then World.relink d w K j side e.row else (w, [])).1.InStep n more base
            (if e.touches (j.key side) then World.relink d w' K (j.extend (moreAt n more K)) side e.row
              else (w', [])).1 ∧
          (if e.touches (j.key side) then World.relink d w' K (j.extend (moreAt n more K)) side e.row
              else (w', [])).2 =
            (if e.touches (j.key side) then World.relink d w K j side e.row else (w, [])).2 := by
      split_ifs
      · exact hd.relink hsteady h hj side e.row
      · exact ⟨h, rfl⟩
    rw [hkey, hplain]
    generalize (if e.touches (j.key side) then World.relink d w K j side e.row else (w, [])) = linked at hlinked ⊢
    generalize (if e.touches (j.key side) then World.relink d w' K (j.extend (moreAt n more K)) side e.row
      else (w', [])) = linked' at hlinked ⊢
    obtain ⟨hlinked, hannounced⟩ := hlinked
    dsimp only
    rw [hannounced]
    split_ifs
    · exact hlinked
    · exact hd.forward hsteady hlinked K side e.row _ _

end Dispatch.InStep

/-! ## Listeners -/

namespace Outside.Passive

variable (ho : o.Passive)

include ho

/-- A listener that is no joined table leaves the network alone. -/
theorem network_respond {l : Listener} (hl : ∀ K s, l ≠ .join K s) (s : Signal) (w : World ω) :
    (respond o d s w l).network = w.network :=
  respond_cases (motive := fun w' => w'.network = w.network) rfl (fun K side _ _ hjoin _ _ => absurd hjoin (hl K side))
    (fun id e _ _ => (ho d w).1 id e) fun id _ row _ => (ho d w).2 id row

/-- A listener hears the same in both worlds. -/
theorem respond_same (hd : d.InStep n more) (hsteady : base.Steady) (h : w.InStep n more base w') (s : Signal)
    (l : Listener) : (respond o d s w l).InStep n more base (respond o d s w' l) := by
  rcases l with ⟨K, side⟩ | id | ⟨id, column⟩
  · cases s with
    | cell column row => exact h
    | event e =>
      rcases hj : w.network.joined? K with - | j
      · have hj' : w'.network.joined? K = none := by rw [h.joined?, hj, Option.map_none]
        simpa only [respond, hj, hj'] using h
      · simp only [respond, hj, h.joined?_eq hj]
        exact (hd.onSourceEvent (hsteady.hold K) (h.hold K) hj side e).release hsteady
  · exact h.of_network (ho.network_respond (fun _ _ => Listener.noConfusion) s w)
      (ho.network_respond (fun _ _ => Listener.noConfusion) s w')
  · exact h.of_network (ho.network_respond (fun _ _ => Listener.noConfusion) s w)
      (ho.network_respond (fun _ _ => Listener.noConfusion) s w')

omit ho in
/-- A joined table listens to its sources only. -/
theorem source_eq {net : Network} {i : Nat} (h : net.Tight) (hi : (i, .join K side) ∈ net.entries m)
    (hj : net.joined? K = some j) : j.source side = m := by
  have hsource := (h.kinded.regular.orderly.wired.joins m K side).1 ⟨i, hi⟩
  rw [sourceOf?_of_joined? hj] at hsource
  exact Option.some.inj hsource

/-- A listener takes an update that names new columns besides like one that does not. -/
theorem respond_wider {i : Nat} {l : Listener} (hd : d.InStep n more) (hsteady : base.Steady)
    (h : w.InStep n more base w') (hl : (i, l) ∈ w.network.entries m)
    (hextra : extra ⊆ (moreAt n more m).map (·.id)) :
    (respond o d (.event (.updated row columns)) w l).InStep n more base
      (respond o d (.event (.updated row (columns ++ extra))) w' l) := by
  rcases l with ⟨K, side⟩ | id | ⟨id, column⟩
  · rcases hj : w.network.joined? K with - | j
    · have hj' : w'.network.joined? K = none := by rw [h.joined?, hj, Option.map_none]
      simpa only [respond, hj, hj'] using h
    · have hside := h.not_mem_sideIds hj (source_eq h.tight hl hj ▸ hextra)
      have hkey : (j.extend (moreAt n more K)).key side ∈ (j.extend (moreAt n more K)).sideIds side :=
        h.tight.keys K j hj side
      simp only [respond, hj, h.joined?_eq hj, onSourceEvent_append hkey hside]
      exact (hd.onSourceEvent (hsteady.hold K) (h.hold K) hj side (.updated row columns)).release hsteady
  · exact h.of_network (ho.network_respond (fun _ _ => Listener.noConfusion) _ w)
      (ho.network_respond (fun _ _ => Listener.noConfusion) _ w')
  · exact h.of_network (ho.network_respond (fun _ _ => Listener.noConfusion) _ w)
      (ho.network_respond (fun _ _ => Listener.noConfusion) _ w')

/-- An update that names new columns only is nothing to a listener. -/
theorem respond_extra {i : Nat} {l : Listener} (hsteady : base.Steady) (h : w.InStep n more base w')
    (hl : (i, l) ∈ w.network.entries m) (hcolumns : columns ⊆ (moreAt n more m).map (·.id)) :
    w.InStep n more base (respond o d (.event (.updated row columns)) w' l) := by
  rcases l with ⟨K, side⟩ | id | ⟨id, column⟩
  · rcases hj : w.network.joined? K with - | j
    · have hj' : w'.network.joined? K = none := by rw [h.joined?, hj, Option.map_none]
      simpa only [respond, hj'] using h
    · have hside := h.not_mem_sideIds hj (source_eq h.tight hl hj ▸ hcolumns)
      have hkey : (j.extend (moreAt n more K)).key side ∈ (j.extend (moreAt n more K)).sideIds side :=
        h.tight.keys K j hj side
      have hnothing (w : World ω) :
          World.onSourceEvent d w K (j.extend (moreAt n more K)) side (.updated row columns) = w := by
        rw [← List.nil_append columns, onSourceEvent_append hkey hside, onSourceEvent_updated_nil]
      simp only [respond, h.joined?_eq hj, World.holding, hnothing]
      -- what is held is let go at once
      refine h.of_network rfl (Steady.release_hold ?_ K)
      rw [h.network]
      exact (hsteady.of_frame h.frame).extend n more
  · exact h.of_network rfl (ho.network_respond (fun _ _ => Listener.noConfusion) _ w')
  · exact h.of_network rfl (ho.network_respond (fun _ _ => Listener.noConfusion) _ w')

/-! ## Announcements -/

omit ho in
/-- A signal is delivered in both worlds, to the same listeners. -/
theorem deliver {s s' : Signal} (h : w.InStep n more base w') (hstream : s'.stream = s.stream)
    (hrespond : ∀ {w w' : World ω} (x : Nat × Listener), x ∈ (w.network.subject m s.stream).entries →
      w.InStep n more base w' → (respond o d s w x.2).InStep n more base (respond o d s' w' x.2)) :
    (Subject.deliver (fun w => w.network.subject m s.stream) (fun w x => respond o d s w x.2) w).InStep n more base
      (Subject.deliver (fun w => w.network.subject m s'.stream) (fun w x => respond o d s' w x.2) w') := by
  have hsubject {w w' : World ω} (h : w.InStep n more base w') :
      w'.network.subject m s.stream = w.network.subject m s.stream := by rw [h.network, subject_extend]
  rw [Subject.deliver, Subject.deliver, hstream, hsubject h]
  refine h.foldl fun w₁ w₁' x hx h₁ => ?_
  -- who listened at the start listens still
  have hlistens : w₁.network.subject m s.stream = w.network.subject m s.stream :=
    subject_congr (h₁.frame.trans h.frame.symm)
  rw [hsubject h₁]
  split_ifs
  · exact hrespond x (hlistens ▸ hx) h₁
  · exact h₁

/-- Announcements of any depth keep worlds in step. -/
theorem inStep (n : Nat) (more : List ComputedColumn) (depth : Nat) :
    (dispatch o depth).InStep (ω := ω) n more := by
  induction depth with
  | zero => exact ⟨fun _ _ _ h => h, fun _ _ _ _ _ h => h, fun _ _ _ _ h => h⟩
  | succ depth ih =>
    refine ⟨fun m s hsteady h => ?_, fun {_ _ _ m} row columns {extra} hextra hsteady h => ?_,
      fun {_ w w' m} row {columns} hcolumns hsteady h => ?_⟩
    · exact deliver h rfl fun x _ h => ho.respond_same ih hsteady h s x.2
    · exact deliver h rfl fun x hx h => ho.respond_wider ih hsteady h hx hextra
    · have hsubject : w'.network.subject m .events = w.network.subject m .events := by rw [h.network, subject_extend]
      refine List.foldlRecOn (motive := fun w' => w.InStep n more _ w') (w'.network.subject m .events).entries _ h
        fun w₁' h x hx => ?_
      rw [hsubject] at hx
      split_ifs
      · exact ho.respond_extra hsteady h hx hcolumns
      · exact h

end Outside.Passive

end LiveTables
