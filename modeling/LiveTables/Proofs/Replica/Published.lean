import LiveTables.Proofs.Publisher.Sinks
import LiveTables.Proofs.Replica.Applied
import LiveTables.Proofs.Replica.Piped

/-!
# Replicas at the sinks of a publisher

A sink that is attached late is told the last values that the publisher keeps, and from then on what all sinks
are told. On the way to its table nothing is lost by that: what changes make of the image of a table is what they
make of nothing, with the defaults of the table where there is no value (`Image.map_applyAll`). So replicas
behind an early and behind a late sink agree (`Session.sinks_agree`).
-/

namespace LiveTables

variable {m : FieldMap} {base base' t t' : Table} {i : Image} {c : Change} {changes : List Change}

/-! ### Values over defaults -/

/-- The cells of a row of a table to which some values were written: those that are stored, with the defaults where
there is no value. -/
def Table.overlay (t : Table) (cells : Cells) : Cells := fun column =>
  (t.spec? column).bind fun spec => (cells column).or (some spec.default)

theorem Table.overlay_none (t : Table) : t.overlay (fun _ => none) = t.defaults := by
  funext column
  rw [overlay, defaults]
  cases t.spec? column <;> rfl

/-- A value that is stored is written over what was there. -/
theorem Table.overlay_update {cells : Cells} {column : String} {value : Value} (h : t.storedKind? column ≠ none) :
    t.overlay (Function.update cells column (some value)) =
      Function.update (t.overlay cells) column (some value) := by
  funext column'
  rw [overlay, Function.update_apply, Function.update_apply]
  split_ifs with heq
  · subst heq
    have hspec : t.spec? column' ≠ none := by
      intro hnone
      apply h
      simpa [storedKind?, spec?] using hnone
    obtain ⟨spec, hspec⟩ := Option.ne_none_iff_exists'.1 hspec
    rw [hspec]
    rfl
  · rfl

/-- Another one is left out. -/
theorem Table.overlay_update_of_none {cells : Cells} {column : String} {value? : Option Value}
    (h : t.storedKind? column = none) : t.overlay (Function.update cells column value?) = t.overlay cells := by
  funext column'
  rw [overlay, overlay, Function.update_apply]
  split_ifs with heq
  · subst heq
    have hspec : t.spec? column' = none := by simpa [storedKind?, spec?] using h
    rw [hspec]
    rfl
  · rfl

namespace Image

/-- The image of the same rows with other cells. -/
def map (i : Image) (f : Cells → Cells) : Image := fun row => (i row).map f

/-- A change that lands at a table. -/
theorem map_apply_of_lands (h : c.lands m t.storedKind? = true) :
    (i.apply (fun _ => none) c).map t.overlay = (i.map t.overlay).apply t.defaults c := by
  have heffect (cells? : Option Cells) :
      (c.effect (fun _ => none) cells?).map t.overlay = c.effect t.defaults (cells?.map t.overlay) := by
    cases c with
    | add row => cases cells? <;> simp [Change.effect, t.overlay_none]
    | delete row => rfl
    | update row column value =>
      have hkind : t.storedKind? column ≠ none := by
        simp only [Change.lands, Bool.and_eq_true, Option.isSome_iff_ne_none] at h
        exact h.2
      cases cells? <;> simp [Change.effect, Table.overlay_update hkind]
  funext row
  rw [map, apply, apply, Function.update_apply, Function.update_apply]
  split_ifs
  · exact heffect _
  · rfl

/-- A mapped change that does not land there. -/
theorem map_apply_of_not_lands (hpicked : c.isPicked m.maps = true) (h : c.lands m t.storedKind? = false) :
    (i.apply (fun _ => none) c).map t.overlay = i.map t.overlay := by
  cases c with
  | add | delete => cases h
  | update row column value =>
    have hmaps : (m.field? column).isSome = true := hpicked
    have hkind : t.storedKind? column = none := by simpa [Change.lands, hmaps] using h
    funext row'
    rw [map, apply, Function.update_apply]
    split_ifs with heq
    · rw [Change.effect, Option.map_map, map, show row' = row from heq]
      congr 1
      funext cells
      exact Table.overlay_update_of_none hkind
    · rfl

/-- What the mapped ones of some changes make of nothing is, with the defaults of a table, what those make of its
image that land there. -/
theorem map_applyAll (m : FieldMap) (t : Table) (i : Image) (changes : List Change) :
    (i.applyAll (fun _ => none) (changes.filter (Change.isPicked m.maps))).map t.overlay =
      (i.map t.overlay).applyAll t.defaults (changes.filter (Change.lands m t.storedKind?)) := by
  induction changes generalizing i with
  | nil => rfl
  | cons c changes ih =>
    by_cases hlands : c.lands m t.storedKind? = true
    · have hpicked : c.isPicked m.maps = true := by
        cases c with
        | add | delete => rfl
        | update row column value => exact (Bool.and_eq_true_iff.1 hlands).1
      rw [List.filter_cons_of_pos hpicked, List.filter_cons_of_pos hlands, applyAll_cons, applyAll_cons, ih,
        map_apply_of_lands hlands]
    · rw [List.filter_cons_of_neg hlands, List.filter_cons]
      split_ifs with hpicked
      · rw [applyAll_cons, ih, map_apply_of_not_lands hpicked (Bool.eq_false_iff.2 hlands)]
      · exact ih i

end Image

/-! ### Receivers -/

namespace Replica

/-- Bytes are decoded to records, which are applied without an error to a new replica on a table. -/
def Receives (m : FieldMap) (base : Table) (bytes : List UInt8) (r : Replica) (t : Table) : Prop :=
  ∃ records signals, ∃ done : List Applied, Record.ofBytes bytes = .ok records ∧
    Applier.applyAll .alone (base, []) { fields := m } records =
      ((t, signals), { replica := r, fields := m }, done.map .ok)

/-- Two replicas have the same remote rows, and their local rows hold the same. -/
structure Agrees (r : Replica) (t : Table) (r' : Replica) (t' : Table) : Prop where
  rows : (r.rows.map (·.1)).Perm (r'.rows.map (·.1))
  live : (∀ e ∈ r.rows, e.2 ∈ t.rows) ∧ ∀ e ∈ r'.rows, e.2 ∈ t'.rows
  cells : ∀ e ∈ r.rows, ∀ e' ∈ r'.rows, e.1 = e'.1 → ∀ c ∈ t.columnIds, t.get c e.2 = t'.get c e'.2

/-- Replicas of tables with the same columns agree if they mirror the same image. -/
theorem Mirrors.agrees {r r' : Replica} (h : Mirrors base i r t) (h' : Mirrors base' i r' t')
    (halike : base.Alike base') : r.Agrees t r' t' where
  rows := (List.perm_ext_iff_of_nodup h.remotes h'.remotes).2 fun remote => h.mem_remotes.trans h'.mem_remotes.symm
  live := ⟨h.live, h'.live⟩
  cells := by
    intro e he e' he' heq c hc
    have hlocal : r.localRow? e.1 = some e.2 := (lookup_eq_some_iff_mem h.remotes).2 he
    have hlocal' : r'.localRow? e.1 = some e'.2 := heq ▸ (lookup_eq_some_iff_mem h'.remotes).2 he'
    have hcells := Option.some.inj ((h.image_of_some hlocal).symm.trans (h'.image_of_some hlocal'))
    have halike' : t.Alike t' := h.alike.symm.trans (halike.trans h'.alike)
    exact h.formed.get_eq_of_alike halike' (h.live e he) (h'.live e' he') (congrFun hcells) hc

end Replica

/-! ### Sinks -/

theorem flatMap_changes_ofChanges (batches : List (List Change)) :
    (batches.flatMap RowChange.ofChanges).flatMap RowChange.changes = batches.flatten := by
  rw [List.flatMap_assoc]
  simp only [RowChange.flatMap_ofChanges]
  exact List.flatMap_id'

theorem fits_ofChanges {batches : List (List Change)} (h : ∀ c ∈ batches.flatten, c.Fits) :
    ∀ call ∈ batches.flatMap RowChange.ofChanges, call.Fits := by
  intro call hcall
  obtain ⟨batch, hbatch, hcall⟩ := List.mem_flatMap.1 hcall
  exact RowChange.fits_ofChanges (fun c hc => h c (List.mem_flatten.2 ⟨batch, hbatch, hc⟩)) call hcall

/-- What the calls of batches make of the image of a table. -/
theorem image_of_calls (m : FieldMap) (t : Table) (changes : List Change) :
    Image.applyAll t.defaults (fun _ => none) (changes.filter (Change.lands m t.storedKind?)) =
      (Image.applyAll (fun _ => none) (fun _ => none) (changes.filter (Change.isPicked m.maps))).map t.overlay :=
  (Image.map_applyAll m t (fun _ => none) changes).symm

namespace Publisher

/-- What a late sink is told of some batches, and then of others, makes the same image as what was published. -/
theorem Tracks.image_append {p : Publisher} {before after : List Change} (h : p.Tracks before)
    (hm : p.encoder.fields = m) :
    Image.applyAll (fun _ => none) (fun _ => none)
        ((p.calls.flatMap RowChange.changes ++ after).filter (Change.isPicked m.maps)) =
      Image.applyAll (fun _ => none) (fun _ => none) ((before ++ after).filter (Change.isPicked m.maps)) := by
  subst hm
  have hall : (p.calls.flatMap RowChange.changes).filter (Change.isPicked p.encoder.fields.maps) =
      p.calls.flatMap RowChange.changes := List.filter_eq_self.2 fun c hc => (h.mem_calls hc).2
  rw [List.filter_append, List.filter_append, Image.applyAll_append, Image.applyAll_append, hall, h.image_calls,
    h.image]

end Publisher

namespace Session

/-- A publisher takes batches which add rows only while they are not there. One sink is attached before all of
them, another one after some of them. The bytes that each has received are applied, without an error, to a new
replica of a table of its own; the two tables have the same columns, and the values are of the kinds of those
that are mapped and stored. Then the replicas agree, and the early one shows what the published changes that are
mapped and land there make of nothing. -/
theorem sinks_agree {w : Desk} {n : Nat} (hm : m.Built) (hw : w.outside.publishers.items[n]? = some (.ofFields m))
    (hbase : base.Reachable) (hbase' : base'.Reachable) (halike : base.Alike base')
    (before after : List (List Change)) (hnew : AddsNew [] (before ++ after).flatten)
    (hfits : ∀ c ∈ (before ++ after).flatten, c.Fits)
    (hagrees : ∀ c ∈ (before ++ after).flatten, c.Agrees m base.storedKind?) :
    let early := w.outside.sinks.items.size
    let w₁ := before.foldl (publish · n ·) (attachSink w n {}).1
    let late := w₁.outside.sinks.items.size
    let w₂ := after.foldl (publish · n ·) (attachSink w₁ n {}).1
    ∃ bytes bytes' r r' t t', Received w₂ early bytes ∧ Received w₂ late bytes' ∧
      Replica.Receives m base bytes r t ∧ Replica.Receives m base' bytes' r' t' ∧ r.Agrees t r' t' ∧
      Replica.Mirrors base (Image.applyAll base.defaults (fun _ => none)
        ((before ++ after).flatten.filter (Change.lands m base.storedKind?))) r t := by
  intro early w₁ late w₂
  obtain ⟨hearly, hlate⟩ := received_of_attachSink hw before after
  set p := before.flatten.foldl Publisher.record (.ofFields m)
  have hfields : p.encoder.fields = m := by rw [Publisher.encoder_foldl_record, Publisher.ofFields]
  have hsplit : (before ++ after).flatten = before.flatten ++ after.flatten := List.flatten_append
  have htracks : p.Tracks before.flatten := by
    rw [hsplit] at hnew
    exact (Publisher.tracks_empty rfl).foldl_record (by simp [Publisher.image, Publisher.ofFields]) hnew.of_append
  -- the late sink is told nothing that was not published
  have hchanges : (p.calls ++ after.flatMap RowChange.ofChanges).flatMap RowChange.changes =
      p.calls.flatMap RowChange.changes ++ after.flatten := by
    rw [List.flatMap_append, flatMap_changes_ofChanges]
  have hpublished : ∀ c ∈ p.calls.flatMap RowChange.changes ++ after.flatten, c ∈ (before ++ after).flatten := by
    rw [hsplit]
    intro c hc
    rcases List.mem_append.1 hc with hc | hc
    · exact List.mem_append_left _ (htracks.mem_calls hc).1
    · exact List.mem_append_right _ hc
  have hfitsLate : ∀ call ∈ p.calls ++ after.flatMap RowChange.ofChanges, call.Fits := by
    rw [hsplit, List.forall_mem_append] at hfits
    exact List.forall_mem_append.2 ⟨htracks.fits_calls hfits.1, fits_ofChanges hfits.2⟩
  -- both replicas mirror what was published
  obtain ⟨records, t, signals, r, done, hdecode, happly, hmirrors, -⟩ :=
    Replica.exists_applied hbase.wellFormed hm (fits_ofChanges hfits)
      (by rwa [flatMap_changes_ofChanges]) []
  obtain ⟨records', t', signals', r', done', hdecode', happly', hmirrors', -⟩ :=
    Replica.exists_applied hbase'.wellFormed hm hfitsLate
      (by rw [hchanges, halike.storedKind?]; exact fun c hc => hagrees c (hpublished c hc)) []
  rw [flatMap_changes_ofChanges] at hmirrors
  refine ⟨_, _, r, r', t, t', hearly, hlate, ⟨records, signals, done, hdecode, happly⟩,
    ⟨records', signals', done', hdecode', happly'⟩, ?_, hmirrors⟩
  have hoverlay : base'.overlay = base.overlay := by
    unfold Table.overlay
    rw [halike.spec?]
  rw [image_of_calls, hsplit] at hmirrors
  rw [image_of_calls, hchanges, htracks.image_append hfields, hoverlay] at hmirrors'
  exact hmirrors.agrees hmirrors' halike

/-- Row 7 is deleted and added again before the late sink is attached, and row 8 is never added. Both replicas have
row 7 at last, with the value that was written after that. -/
theorem sinks_agree_readded :
    let m : FieldMap := ⟨[("a", 1)], [(1, "a")]⟩
    let w : Desk := { network := {}, outside := { publishers := { items := #[.ofFields m] } } }
    let before : List (List Change) := [[.add 7, .update 7 "a" (.int32 3), .update 8 "a" (.int32 1)],
      [.delete 7, .add 7, .update 7 "q" (.byte 1)]]
    let after : List (List Change) := [[.add 9, .update 9 "a" (.int32 5)], [.update 7 "a" (.int32 4), .delete 9]]
    (m.Built ∧ AddsNew [] (before ++ after).flatten ∧ (∀ c ∈ (before ++ after).flatten, c.Fits) ∧
      ∀ c ∈ (before ++ after).flatten, c.Agrees m Doubled.target.storedKind?) ∧
      let early := w.outside.sinks.items.size
      let w₁ := before.foldl (publish · 0 ·) (attachSink w 0 {}).1
      let late := w₁.outside.sinks.items.size
      let w₂ := after.foldl (publish · 0 ·) (attachSink w₁ 0 {}).1
      ∃ bytes bytes' r r' t t', Received w₂ early bytes ∧ Received w₂ late bytes' ∧
        Replica.Receives m Doubled.target bytes r t ∧
        Replica.Receives m (.ofSchema Doubled.targetSchema) bytes' r' t' ∧ r.Agrees t r' t' ∧
        bytes' = [11, 248, 255, 3, 7, 12, 11, 248, 255, 3, 9, 12, 19, 248, 255, 3, 9, 8, 10, 20,
          19, 248, 255, 3, 7, 8, 8, 20, 27, 248, 255, 3, 9, 28] ∧
        (r.image t 7).map (fun cells => (cells "p", cells "a")) = some (some (.int32 0), some (.int32 4)) ∧
        r.image t 8 = none ∧ r.image t 9 = none := by
  intro m w before after
  have hm : m.Built := .insert .empty (show FieldMap.insert {} "a" 1 = .ok m by decide)
  have hnew : AddsNew [] (before ++ after).flatten := by decide
  have hfits : ∀ c ∈ (before ++ after).flatten, c.Fits := by decide
  have hagrees : ∀ c ∈ (before ++ after).flatten, c.Agrees m Doubled.target.storedKind? := by decide
  have halike : Doubled.target.Alike (.ofSchema Doubled.targetSchema) := Table.Alike.symm Table.alike_addRow
  have hw : w.outside.publishers.items[0]? = some (.ofFields m) := rfl
  refine ⟨⟨hm, hnew, hfits, hagrees⟩, ?_⟩
  obtain ⟨bytes, bytes', r, r', t, t', hearly, hlate, hreceives, hreceives', hsame, hmirrors⟩ :=
    sinks_agree hm hw Doubled.reachable_target (.ofSchema _) halike before after hnew hfits hagrees
  refine ⟨bytes, bytes', r, r', t, t', hearly, hlate, hreceives, hreceives', hsame, hlate.eq (by decide +kernel), ?_⟩
  rw [hmirrors.image]
  decide +kernel

end Session

end LiveTables
