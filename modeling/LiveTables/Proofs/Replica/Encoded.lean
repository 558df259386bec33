import LiveTables.Proofs.Replica.Alone
import LiveTables.Proofs.Replica.Applied

/-!
# A batch and its bytes

A batch of changes reaches a replica in one of two ways: it is applied change by change, or it is encoded, and
the records are applied that are decoded from the bytes. The second way goes by calls, each with the changes of
one row that follow each other, and reads each value by the kind of the local column.

Where the columns that are updated are mapped and stored, and the values are of their kinds, the record of a
call does what its changes do (`Replica.Mirrors.apply_record`), and so both ways end in the same replica, the
same table and the same signals (`Replica.Reachable.applyAll_batch`).
-/

namespace LiveTables.Replica

variable {m : FieldMap} {base t : Table} {i : Image} {r r' r'' : Replica} {remote row : Nat} {count count' : Nat}

/-- Changes applied in two parts, both without an error. -/
theorem applyBatch_append {σ : Type} {host : TableHost σ} {s s' s'' : σ} {xs ys : List Change}
    (hxs : r.applyBatch host s xs = (s', r', .ok count)) (hys : r'.applyBatch host s' ys = (s'', r'', .ok count')) :
    ∃ count, r.applyBatch host s (xs ++ ys) = (s'', r'', .ok count) := by
  induction xs generalizing r s count with
  | nil =>
    obtain ⟨rfl, hrest⟩ := Prod.mk.inj hxs
    obtain ⟨rfl, -⟩ := Prod.mk.inj hrest
    exact ⟨count', hys⟩
  | cons c xs ih =>
    rw [applyBatch] at hxs
    rw [List.cons_append, applyBatch]
    rcases happly : r.applyChange host s c with ⟨s₁, r₁, e | hit⟩
    · simp [happly] at hxs
    · rcases hrest : r₁.applyBatch host s₁ xs with ⟨s₂, r₂, e | n⟩
      · simp [happly, hrest, Except.map] at hxs
      · simp only [happly, hrest, Prod.mk.injEq] at hxs
        obtain ⟨rfl, rfl, -⟩ := hxs
        obtain ⟨n', hn'⟩ := ih hrest
        exact ⟨if hit then n' + 1 else n', by simp only [hn']; rfl⟩

/-- Updates of a row that is not known change nothing. -/
theorem applyBatch_updates_of_none {σ : Type} {host : TableHost σ} {s : σ} (values : List (String × Value))
    (hrow : r.localRow? remote = none) :
    r.applyBatch host s (RowChange.update remote values).changes = (s, r, .ok 0) := by
  induction values with
  | nil => rfl
  | cons x values ih =>
    have hchanges : (RowChange.update remote (x :: values)).changes =
      .update remote x.1 x.2 :: (RowChange.update remote values).changes := rfl
    rw [hchanges, applyBatch]
    simp only [applyChange, update, hrow, ih]
    rfl

/-- A call without a record has no changes, if all that it updates is mapped. -/
theorem changes_eq_nil {call : RowChange} (hmapped : ∀ c ∈ call.changes, c.isPicked m.maps = true)
    (hrecord : call.record? m = none) : call.changes = [] := by
  have hall : call.changes.filter (Change.lands m fun _ => some .boolean) = call.changes := by
    refine List.filter_eq_self.2 fun c hc => ?_
    have hpicked := hmapped c hc
    cases c with
    | add | delete => rfl
    | update row column value => simpa [Change.lands, Change.isPicked, FieldMap.maps] using hpicked
  rw [← hall]
  exact filter_lands_of_record?_eq_none hrecord

namespace Mirrors

variable (h : Mirrors base i r t) (hm : m.Built)

include h hm

/-- The fields of an update of a known row are written as its changes are applied. -/
theorem writeFields_eq {values : List (String × Value)} {s' : Table × List Signal} (signals : List Signal)
    (hrow : r.localRow? remote = some row)
    (hall : ∀ c ∈ (RowChange.update remote values).changes, c.isPicked m.maps = true ∧ c.Suits base.storedKind?)
    (hbatch : r.applyBatch .alone (t, signals) (RowChange.update remote values).changes = (s', r', .ok count)) :
    r' = r ∧ ∃ applied skipped, Applier.writeFields .alone { replica := r, fields := m } remote (t, signals)
      (Encoder.payloads m values) = (s', applied, skipped) := by
  induction values generalizing i t signals count with
  | nil =>
    obtain ⟨rfl, hrest⟩ := Prod.mk.inj hbatch
    obtain ⟨rfl, -⟩ := Prod.mk.inj hrest
    exact ⟨rfl, 0, 0, rfl⟩
  | cons x values ih =>
    obtain ⟨column, value⟩ := x
    have hchanges : (RowChange.update remote ((column, value) :: values)).changes =
      .update remote column value :: (RowChange.update remote values).changes := rfl
    rw [hchanges] at hall hbatch
    obtain ⟨⟨hmapped, hkind⟩, hrest⟩ := List.forall_mem_cons.1 hall
    obtain ⟨field, hfield⟩ : ∃ field, m.field? column = some field := Option.isSome_iff_exists.1 hmapped
    have hkind' : t.storedKind? column = some value.kind := h.alike.storedKind? ▸ hkind
    have hpayloads : Encoder.payloads m ((column, value) :: values) =
        (field, value.payload) :: Encoder.payloads m values := by
      simp [Encoder.payloads, hfield]
    -- the same write is the first step of both
    have hread := read?_payload (r := r) hm hfield hkind'
    obtain ⟨written, hset⟩ := Table.setValue_ok h.formed (h.mem_rows hrow) hkind'
    have hupdate : r.update .alone (t, signals) remote column value =
        ((t.write column row value, signals ++ written), .ok true) := by
      simp only [update, hrow, TableHost.alone, hset]
    have hmirrors := h.write hrow hkind
    rw [Replica.applyBatch] at hbatch
    simp only [Replica.applyChange, hupdate] at hbatch
    rcases hlater : r.applyBatch .alone (t.write column row value, signals ++ written)
      (RowChange.update remote values).changes with ⟨s₁, r₁, e | n⟩
    · simp [hlater, Except.map] at hbatch
    · simp only [hlater, Prod.mk.injEq] at hbatch
      obtain ⟨rfl, rfl, -⟩ := hbatch
      obtain ⟨rfl, applied, skipped, hwrite⟩ := ih hmirrors (signals ++ written) hrest hlater
      refine ⟨rfl, applied + 1, skipped, ?_⟩
      rw [hpayloads, Applier.writeFields]
      simp only [Applier.writeField, TableHost.alone, hread]
      simp only [TableHost.alone] at hupdate hwrite
      simp only [hupdate, hwrite]
      rfl

/-- The record of a call does what the changes of the call do. -/
theorem apply_record {call : RowChange} {record : Record} {s' : Table × List Signal} (signals : List Signal)
    (hall : ∀ c ∈ call.changes, c.isPicked m.maps = true ∧ c.Suits base.storedKind?)
    (hrecord : call.record? m = some record)
    (hbatch : r.applyBatch .alone (t, signals) call.changes = (s', r', .ok count)) :
    ∃ done, Applier.apply .alone (t, signals) { replica := r, fields := m } record =
      (s', { replica := r', fields := m }, .ok done) := by
  cases call with
  | add remote =>
    obtain rfl := Option.some.inj hrecord
    rcases hadd : r.add .alone (t, signals) remote with ⟨s₁, r₁, row⟩
    simp only [RowChange.changes, Replica.applyBatch, Replica.applyChange, hadd, Prod.mk.injEq] at hbatch
    obtain ⟨rfl, rfl, -⟩ := hbatch
    exact ⟨{ localRow? := some row, skipped := 0 }, by simp only [Applier.apply, hadd]; rfl⟩
  | delete remote =>
    obtain rfl := Option.some.inj hrecord
    rcases hdelete : r.delete .alone (t, signals) remote with ⟨s₁, r₁, e | hit⟩
    · simp [RowChange.changes, Replica.applyBatch, Replica.applyChange, hdelete] at hbatch
    · simp only [RowChange.changes, Replica.applyBatch, Replica.applyChange, hdelete, Prod.mk.injEq] at hbatch
      obtain ⟨rfl, rfl, -⟩ := hbatch
      exact ⟨{ localRow? := r.localRow? remote }, by simp only [Applier.apply, hdelete]; rfl⟩
  | update remote values =>
    simp only [RowChange.record?] at hrecord
    split_ifs at hrecord
    obtain rfl := Option.some.inj hrecord
    rcases hrow : r.localRow? remote with - | row
    · rw [applyBatch_updates_of_none values hrow] at hbatch
      obtain ⟨rfl, hrest⟩ := Prod.mk.inj hbatch
      obtain ⟨rfl, -⟩ := Prod.mk.inj hrest
      exact ⟨{ skipped := 0 + (Encoder.payloads m values).length }, by simp only [Applier.apply, hrow]⟩
    · obtain ⟨rfl, applied, skipped, hwrite⟩ := h.writeFields_eq hm signals hrow hall hbatch
      exact ⟨{ localRow? := some row, applied, skipped := 0 + skipped },
        by simp only [Applier.apply, hrow, hwrite]⟩

/-- The records of calls do what the changes of the calls do. -/
theorem applyAll_records {calls : List RowChange} (signals : List Signal)
    (hall : ∀ c ∈ calls.flatMap RowChange.changes, c.isPicked m.maps = true ∧ c.Suits base.storedKind?) :
    ∃ t' signals' r' count, ∃ done : List Applied,
      r.applyBatch .alone (t, signals) (calls.flatMap RowChange.changes) = ((t', signals'), r', .ok count) ∧
        Applier.applyAll .alone (t, signals) { replica := r, fields := m } (calls.filterMap (·.record? m)) =
          ((t', signals'), { replica := r', fields := m }, done.map .ok) := by
  induction calls generalizing i r t signals with
  | nil => exact ⟨t, signals, r, 0, [], rfl, rfl⟩
  | cons call calls ih =>
    rw [List.flatMap_cons] at hall ⊢
    obtain ⟨hfirst, hrest⟩ := List.forall_mem_append.1 hall
    rcases hrecord : call.record? m with - | record
    · rw [changes_eq_nil (fun c hc => (hfirst c hc).1) hrecord, List.nil_append,
        List.filterMap_cons_none hrecord]
      exact ih h signals hrest
    · obtain ⟨t₁, signals₁, r₁, count₁, hbatch, h₁⟩ := h.applyBatch signals fun c hc => (hfirst c hc).2
      obtain ⟨first, happly⟩ := h.apply_record hm signals hfirst hrecord hbatch
      obtain ⟨t', signals', r', count', done, hlater, hdone⟩ := ih h₁ signals₁ hrest
      obtain ⟨count, hcount⟩ := applyBatch_append hbatch hlater
      refine ⟨t', signals', r', count, first :: done, hcount, ?_⟩
      rw [List.filterMap_cons_some hrecord, Applier.applyAll, happly]
      simp only [hdone]
      rfl

end Mirrors

/-- A batch is encoded, and the records that are decoded from its bytes are applied where the replica stands.
This ends in the same replica, the same table and the same signals as the batch itself, both without an error. -/
theorem Reachable.applyAll_batch (h : Reachable r t) (hm : m.Built) (signals : List Signal)
    {changes : List Change} (hfits : ∀ c ∈ changes, c.Fits)
    (hsuits : ∀ c ∈ changes, c.isPicked m.maps = true ∧ c.Suits t.storedKind?) :
    ∃ records t' signals' r' count, ∃ done : List Applied,
      Record.ofBytes (Encoder.batch { fields := m } changes).take.2 = .ok records ∧
        r.applyBatch .alone (t, signals) changes = ((t', signals'), r', .ok count) ∧
        Applier.applyAll .alone (t, signals) { replica := r, fields := m } records =
          ((t', signals'), { replica := r', fields := m }, done.map .ok) := by
  have hflat := RowChange.flatMap_ofChanges changes
  have hall : ∀ c ∈ (RowChange.ofChanges changes).flatMap RowChange.changes,
      c.isPicked m.maps = true ∧ c.Suits t.storedKind? := by rwa [hflat]
  obtain ⟨t', signals', r', count, done, hbatch, hdone⟩ := h.mirrors.applyAll_records hm signals hall
  rw [hflat] at hbatch
  exact ⟨_, t', signals', r', count, done, Encoder.ofBytes_pending hm (RowChange.fits_ofChanges hfits), hbatch,
    hdone⟩

/-- A run of updates is broken by those of an unknown row, and rows are added and deleted in between. -/
theorem Reachable.applyAll_batch_interleaved :
    let m : FieldMap := ⟨[("a", 1), ("b", 3)], [(1, "a"), (3, "b")]⟩
    let changes : List Change :=
      [.update 7 "a" (.int32 2), .update 5 "a" (.int32 3), .update 7 "b" (.string "x"), .update 7 "a" (.int32 4),
        .add 5, .add 7, .update 5 "b" (.string "y"), .delete 7, .delete 4, .update 7 "a" (.int32 5)]
    (m.Built ∧ (∀ c ∈ changes, c.Fits) ∧
        ∀ c ∈ changes, c.isPicked m.maps = true ∧ c.Suits Paired.state.2.storedKind?) ∧
      ∃ records t' signals' r' count, ∃ done : List Applied,
        Record.ofBytes (Encoder.batch { fields := m } changes).take.2 = .ok records ∧
          Paired.state.1.applyBatch .alone (Paired.state.2, []) changes = ((t', signals'), r', .ok count) ∧
          Applier.applyAll .alone (Paired.state.2, []) { replica := Paired.state.1, fields := m } records =
            ((t', signals'), { replica := r', fields := m }, done.map .ok) := by
  intro m changes
  have hb : FieldMap.insert {} "b" 3 = .ok ⟨[("b", 3)], [(3, "b")]⟩ := by decide
  have ha : FieldMap.insert ⟨[("b", 3)], [(3, "b")]⟩ "a" 1 = .ok m := by decide
  have hm : m.Built := .insert (.insert .empty hb) ha
  have hfits : ∀ c ∈ changes, c.Fits := by decide
  have hsuits : ∀ c ∈ changes, c.isPicked m.maps = true ∧ c.Suits Paired.state.2.storedKind? := by decide
  exact ⟨⟨hm, hfits, hsuits⟩, Paired.reachable.applyAll_batch hm [] hfits hsuits⟩

end LiveTables.Replica
