import LiveTables.Proofs.Delta.RoundTrip
import LiveTables.Proofs.Replica.Mirror
import LiveTables.Replica.Applier

/-!
# Records applied to a replica

The record that a call of an encoder writes, applied at the other end with the same field map, is the changes
of the call applied one by one, as far as they land: as far as the column is mapped, and stored in the local
table (`Replica.Mirrors.applyCalls`). The values must be of the kinds of the local columns (`Change.Agrees`).
Nothing is skipped in a record if all that is mapped lands and the row is known (`RowChange.Clean`).
-/

namespace LiveTables

/-- The value of an update of a mapped column is of the kind of the column, where there is one. -/
def Change.Agrees (m : FieldMap) (kindOf : String → Option Kind) : Change → Prop
  | .update _ column value => (m.field? column).isSome → ∀ k ∈ kindOf column, value.kind = k
  | .add _ | .delete _ => True

instance (m : FieldMap) (kindOf : String → Option Kind) : DecidablePred (Change.Agrees m kindOf)
  | .update _ column value =>
    inferInstanceAs (Decidable ((m.field? column).isSome → ∀ k ∈ kindOf column, value.kind = k))
  | .add _ | .delete _ => isTrue trivial

/-- Whether a change has an effect at the other end: what it updates is mapped and stored there. -/
def Change.lands (m : FieldMap) (kindOf : String → Option Kind) : Change → Bool
  | .update _ column _ => (m.field? column).isSome && (kindOf column).isSome
  | _ => true

/-- The row of an update is known, and its mapped columns are stored with the kinds of the values. -/
def RowChange.Clean (m : FieldMap) (kindOf : String → Option Kind) (i : Image) : RowChange → Prop
  | .update row values => i row ≠ none ∧
    ∀ x ∈ values, (m.field? x.1).isSome → kindOf x.1 = some x.2.kind
  | _ => True

namespace Replica

variable {m : FieldMap} {base t t' : Table} {i : Image} {r r' : Replica} {remote row field : Nat}
  {column : String} {value : Value} {kindOf : String → Option Kind}

/-- Updates of a row that is not known have no effect. -/
theorem Mirrors.applyAll_updates {values : List (String × Value)} (h : Mirrors base i r t)
    (hrow : r.localRow? remote = none) :
    i.applyAll base.defaults ((RowChange.update remote values).changes.filter (Change.lands m base.storedKind?)) =
      i := by
  have hall : ∀ c ∈ (RowChange.update remote values).changes.filter (Change.lands m base.storedKind?),
      c.row = remote ∧ ∀ remote, c ≠ .add remote := by
    intro c hc
    obtain ⟨x, -, rfl⟩ := List.mem_map.1 (List.mem_filter.1 hc).1
    exact ⟨rfl, by simp⟩
  generalize (RowChange.update remote values).changes.filter (Change.lands m base.storedKind?) = changes at hall
  induction changes with
  | nil => rfl
  | cons c changes ih =>
    obtain ⟨⟨hc, hadd⟩, hrest⟩ := List.forall_mem_cons.1 hall
    rw [Image.applyAll_cons, h.apply_of_none (hc.symm ▸ hrow) hadd]
    exact ih hrest

/-- The field of a stored column is read as the value that was written, if that is of its kind. -/
theorem read?_payload (hm : m.Built) (hfield : m.field? column = some field)
    (hkind : t.storedKind? column = some value.kind) :
    Applier.read? { replica := r, fields := m } t (field, value.payload) = some (column, value) := by
  have hcolumn : t.columnKind column = .ok value.kind := Table.columnKind_eq_ok_iff.2 (.inl hkind)
  simp only [Applier.read?, hm.column?_of_field? hfield, hcolumn, Except.toOption, Option.bind_eq_bind,
    Option.bind_some, value.toValue?_payload]
  rfl

section Fields

variable (hm : m.Built) (h : Mirrors base i r t)

include hm h

/-- A field of a column that is stored is written. -/
theorem writeField_stored (signals : List Signal) (hrow : r.localRow? remote = some row)
    (hfield : m.field? column = some field) (hkind : base.storedKind? column = some value.kind) :
    ∃ signals', Applier.writeField .alone { replica := r, fields := m } remote (t, signals)
        (field, value.payload) = ((t.write column row value, signals'), true) ∧
      Mirrors base (i.apply base.defaults (.update remote column value)) r (t.write column row value) := by
  have hkind' : t.storedKind? column = some value.kind := h.alike.storedKind? ▸ hkind
  have hread := read?_payload (r := r) hm hfield hkind'
  obtain ⟨written, hset⟩ := Table.setValue_ok h.formed (h.mem_rows hrow) hkind'
  refine ⟨signals ++ written, ?_, h.write hrow hkind⟩
  simp only [Applier.writeField, TableHost.alone, hread, update, hrow, hset]

/-- A field of a column that is not stored is left out. -/
theorem writeField_other (signals : List Signal) (hrow : r.localRow? remote = some row)
    (hfield : m.field? column = some field) (hkind : base.storedKind? column = none) :
    Applier.writeField .alone { replica := r, fields := m } remote (t, signals) (field, value.payload) =
      ((t, signals), false) := by
  have hread : ∀ w, Applier.read? { replica := r, fields := m } t (field, value.payload) = some w →
      w.1 = column := by
    intro w hw
    simp only [Applier.read?, hm.column?_of_field? hfield, Option.bind_eq_bind, Option.bind_some,
      Option.bind_eq_some_iff] at hw
    obtain ⟨k, -, v, -, hw⟩ := hw
    rw [← Option.some.inj hw]
  have hset : ∀ w, ∃ t' e, t.setValue column row w = (t', .error e) := by
    intro w
    rcases hset : t.setValue column row w with ⟨t', e | signals'⟩
    · exact ⟨t', e, rfl⟩
    · have hstored := (Table.setValue_eq_ok h.formed hset).2.2.1
      rw [h.alike.storedKind?, hkind] at hstored
      cases hstored
  rcases hw : Applier.read? { replica := r, fields := m } t (field, value.payload) with - | ⟨c, w⟩
  · simp only [Applier.writeField, TableHost.alone, hw]
  · obtain rfl := hread _ hw
    obtain ⟨t', e, he⟩ := hset w
    simp only [Applier.writeField, TableHost.alone, hw, update, hrow, he]

/-- The fields of an update are written as far as they land. -/
theorem writeFields {values : List (String × Value)} (signals : List Signal)
    (hrow : r.localRow? remote = some row)
    (hagrees : ∀ x ∈ values, (Change.update remote x.1 x.2).Agrees m base.storedKind?) :
    ∃ t' signals' applied skipped,
      Applier.writeFields .alone { replica := r, fields := m } remote (t, signals) (Encoder.payloads m values) =
          ((t', signals'), applied, skipped) ∧
        Mirrors base (i.applyAll base.defaults
          ((RowChange.update remote values).changes.filter (Change.lands m base.storedKind?))) r t' ∧
        ((∀ x ∈ values, (m.field? x.1).isSome → base.storedKind? x.1 = some x.2.kind) → skipped = 0) := by
  induction values generalizing i t signals with
  | nil => exact ⟨t, signals, 0, 0, rfl, h, fun _ => rfl⟩
  | cons x values ih =>
    obtain ⟨column, value⟩ := x
    obtain ⟨hx, hrest⟩ := List.forall_mem_cons.1 hagrees
    have hchanges : (RowChange.update remote ((column, value) :: values)).changes =
      .update remote column value :: (RowChange.update remote values).changes := rfl
    rw [hchanges]
    rcases hfield : m.field? column with - | field
    · -- the column is not mapped, and is not written
      have hpayloads : Encoder.payloads m ((column, value) :: values) = Encoder.payloads m values := by
        simp [Encoder.payloads, hfield]
      have hlands : Change.lands m base.storedKind? (.update remote column value) = false := by
        simp [Change.lands, hfield]
      obtain ⟨t', signals', applied, skipped, hwrite, hmirrors, hclean⟩ := ih h signals hrest
      rw [hpayloads, List.filter_cons_of_neg (by simp [hlands])]
      exact ⟨t', signals', applied, skipped, hwrite, hmirrors,
        fun hall => hclean fun x hx => hall x (List.mem_cons_of_mem _ hx)⟩
    have hpayloads : Encoder.payloads m ((column, value) :: values) =
        (field, value.payload) :: Encoder.payloads m values := by
      simp [Encoder.payloads, hfield]
    rw [hpayloads, Applier.writeFields]
    rcases hkind : base.storedKind? column with - | k
    · -- the column is not stored, and the field is skipped
      have hlands : Change.lands m base.storedKind? (.update remote column value) = false := by
        simp [Change.lands, hkind]
      obtain ⟨t', signals', applied, skipped, hwrite, hmirrors, -⟩ := ih h signals hrest
      rw [writeField_other hm h signals hrow hfield hkind, List.filter_cons_of_neg (by simp [hlands])]
      refine ⟨t', signals', applied, skipped + 1, ?_, hmirrors, fun hall => ?_⟩
      · simp only [hwrite]
        rfl
      · have hnone := hall (column, value) List.mem_cons_self (by simp [hfield])
        rw [hkind] at hnone
        cases hnone
    · -- the column is stored with the kind of the value
      obtain rfl : value.kind = k := hx (by simp [hfield]) k hkind
      have hlands : Change.lands m base.storedKind? (.update remote column value) = true := by
        simp [Change.lands, hfield, hkind]
      obtain ⟨signals₁, hfirst, h₁⟩ := writeField_stored hm h signals hrow hfield hkind
      obtain ⟨t', signals', applied, skipped, hwrite, hmirrors, hclean⟩ := ih h₁ signals₁ hrest
      rw [hfirst, List.filter_cons_of_pos hlands]
      refine ⟨t', signals', applied + 1, skipped, ?_, hmirrors, fun hall => ?_⟩
      · simp only [hwrite]
        rfl
      · exact hclean fun x hx => hall x (List.mem_cons_of_mem _ hx)

/-- The record of a call is applied like the changes of the call. -/
theorem applyCall {call : RowChange} {record : Record} (signals : List Signal)
    (hagrees : ∀ c ∈ call.changes, c.Agrees m base.storedKind?) (hrecord : call.record? m = some record) :
    ∃ t' signals' r' done,
      Applier.apply .alone (t, signals) { replica := r, fields := m } record =
          ((t', signals'), { replica := r', fields := m }, .ok done) ∧
        Mirrors base
          (i.applyAll base.defaults (call.changes.filter (Change.lands m base.storedKind?))) r' t' ∧
        (call.Clean m base.storedKind? i → done.skipped = 0) := by
  cases call with
  | add remote =>
    obtain rfl := Option.some.inj hrecord
    obtain ⟨t', signals', r', hit, happly, hmirrors⟩ := h.applyChange (c := .add remote) signals trivial
    rcases hadd : r.add .alone (t, signals) remote with ⟨s', r₁, row⟩
    simp only [Replica.applyChange, hadd] at happly
    obtain ⟨rfl, hrest⟩ := Prod.mk.inj happly
    obtain ⟨rfl, -⟩ := Prod.mk.inj hrest
    exact ⟨t', signals', r₁, { localRow? := some row, skipped := 0 }, by simp only [Applier.apply, hadd]; rfl,
      hmirrors, fun _ => rfl⟩
  | delete remote =>
    obtain rfl := Option.some.inj hrecord
    obtain ⟨t', signals', r', hit, happly, hmirrors⟩ := h.applyChange (c := .delete remote) signals trivial
    simp only [Replica.applyChange] at happly
    exact ⟨t', signals', r', { localRow? := r.localRow? remote }, by simp only [Applier.apply, happly]; rfl,
      hmirrors, fun _ => rfl⟩
  | update remote values =>
    simp only [RowChange.record?] at hrecord
    split_ifs at hrecord
    obtain rfl := Option.some.inj hrecord
    rcases hrow : r.localRow? remote with - | row
    · refine ⟨t, signals, r, { skipped := (Encoder.payloads m values).length }, ?_, ?_, fun hclean => ?_⟩
      · simp only [Applier.apply, hrow, Nat.zero_add]
      · rwa [h.applyAll_updates hrow]
      · exact absurd (h.image_of_none hrow) hclean.1
    · have hagrees' : ∀ x ∈ values, (Change.update remote x.1 x.2).Agrees m base.storedKind? :=
        fun x hx => hagrees _ (List.mem_map_of_mem hx)
      obtain ⟨t', signals', applied, skipped, hwrite, hmirrors, hskip⟩ := writeFields hm h signals hrow hagrees'
      refine ⟨t', signals', r, { localRow? := some row, applied, skipped }, ?_, hmirrors, fun hclean => ?_⟩
      · simp only [Applier.apply, hrow, hwrite, Nat.zero_add]
      · exact hskip hclean.2

end Fields

/-- Calls that are clean one after the other. -/
def CleanFrom (m : FieldMap) (base : Table) : Image → List RowChange → Prop
  | _, [] => True
  | i, call :: calls => call.Clean m base.storedKind? i ∧
    CleanFrom m base (i.applyAll base.defaults (call.changes.filter (Change.lands m base.storedKind?))) calls

theorem cleanFrom_append {xs ys : List RowChange} : CleanFrom m base i (xs ++ ys) ↔
    CleanFrom m base i xs ∧ CleanFrom m base
      (i.applyAll base.defaults ((xs.flatMap RowChange.changes).filter (Change.lands m base.storedKind?))) ys := by
  induction xs generalizing i with
  | nil => exact ⟨fun h => ⟨trivial, h⟩, And.right⟩
  | cons x xs ih =>
    rw [List.cons_append, CleanFrom, CleanFrom, ih, and_assoc, List.flatMap_cons, List.filter_append,
      Image.applyAll_append]

/-- Groups of calls, each of them clean where something holds that it keeps. -/
theorem cleanFrom_flatMap {α : Type} {calls : α → List RowChange} {P : Image → Prop} {xs : List α} (hi : P i)
    (hkeep : ∀ x ∈ xs, ∀ i, P i → CleanFrom m base i (calls x) ∧ P (i.applyAll base.defaults
      (((calls x).flatMap RowChange.changes).filter (Change.lands m base.storedKind?)))) :
    CleanFrom m base i (xs.flatMap calls) := by
  induction xs generalizing i with
  | nil => trivial
  | cons x xs ih =>
    obtain ⟨hclean, hnext⟩ := hkeep x List.mem_cons_self i hi
    rw [List.flatMap_cons, cleanFrom_append]
    exact ⟨hclean, ih hnext fun y hy => hkeep y (List.mem_cons_of_mem _ hy)⟩

theorem filter_lands_of_record?_eq_none {call : RowChange} (hrecord : call.record? m = none) :
    call.changes.filter (Change.lands m kindOf) = [] := by
  cases call with
  | add | delete => cases hrecord
  | update remote values =>
    simp only [RowChange.record?, ite_eq_left_iff, reduceCtorEq, imp_false, not_not, List.isEmpty_iff] at hrecord
    rw [List.filter_eq_nil_iff]
    intro c hc hlands
    obtain ⟨x, hx, rfl⟩ := List.mem_map.1 hc
    simp only [Change.lands, Bool.and_eq_true, Option.isSome_iff_exists] at hlands
    obtain ⟨⟨field, hfield⟩, -⟩ := hlands
    have hmem : (field, x.2.payload) ∈ Encoder.payloads m values := Encoder.mem_payloads.2 ⟨x, hx, hfield, rfl⟩
    rw [hrecord] at hmem
    cases hmem

/-- The records of calls are applied like the changes of the calls. -/
theorem Mirrors.applyCalls {calls : List RowChange} (h : Mirrors base i r t) (hm : m.Built)
    (signals : List Signal) (hagrees : ∀ c ∈ calls.flatMap RowChange.changes, c.Agrees m base.storedKind?) :
    ∃ t' signals' r', ∃ done : List Applied,
      Applier.applyAll .alone (t, signals) { replica := r, fields := m } (calls.filterMap (·.record? m)) =
          ((t', signals'), { replica := r', fields := m }, done.map .ok) ∧
        Mirrors base (i.applyAll base.defaults
          ((calls.flatMap RowChange.changes).filter (Change.lands m base.storedKind?))) r' t' ∧
        (CleanFrom m base i calls → ∀ x ∈ done, x.skipped = 0) := by
  induction calls generalizing i r t signals with
  | nil => exact ⟨t, signals, r, [], rfl, h, fun _ => by simp⟩
  | cons call calls ih =>
    rw [List.flatMap_cons, List.forall_mem_append] at hagrees
    rw [List.flatMap_cons, List.filter_append, Image.applyAll_append]
    rcases hrecord : call.record? m with - | record
    · obtain ⟨t', signals', r', done, happly, hmirrors, hclean⟩ := ih h signals hagrees.2
      rw [List.filterMap_cons_none hrecord, filter_lands_of_record?_eq_none hrecord]
      refine ⟨t', signals', r', done, happly, hmirrors, fun hall => hclean ?_⟩
      rw [CleanFrom, filter_lands_of_record?_eq_none hrecord] at hall
      exact hall.2
    · obtain ⟨t₁, signals₁, r₁, first, hfirst, h₁, hskip⟩ := applyCall hm h signals hagrees.1 hrecord
      obtain ⟨t', signals', r', done, happly, hmirrors, hclean⟩ := ih h₁ signals₁ hagrees.2
      rw [List.filterMap_cons_some hrecord, Applier.applyAll, hfirst]
      refine ⟨t', signals', r', first :: done, ?_, hmirrors, fun hall => ?_⟩
      · simp only [happly]
        rfl
      · exact List.forall_mem_cons.2 ⟨hskip hall.1, hclean hall.2⟩

/-- What calls write is decoded and applied to a new replica. -/
theorem exists_applied {calls : List RowChange} (hbase : base.WellFormed) (hm : m.Built)
    (hfits : ∀ c ∈ calls, c.Fits) (hagrees : ∀ c ∈ calls.flatMap RowChange.changes, c.Agrees m base.storedKind?)
    (signals : List Signal) :
    ∃ records t' signals' r', ∃ done : List Applied,
      Record.ofBytes (calls.foldl Encoder.rowChange { fields := m }).pending = .ok records ∧
        Applier.applyAll .alone (base, signals) { fields := m } records =
          ((t', signals'), { replica := r', fields := m }, done.map .ok) ∧
        Mirrors base (Image.applyAll base.defaults (fun _ => none)
          ((calls.flatMap RowChange.changes).filter (Change.lands m base.storedKind?))) r' t' ∧
        (CleanFrom m base (fun _ => none) calls → ∀ x ∈ done, x.skipped = 0) := by
  obtain ⟨t', signals', r', done, happly, hmirrors, hclean⟩ :=
    (mirrors_empty hbase).applyCalls hm signals hagrees
  exact ⟨_, t', signals', r', done, Encoder.ofBytes_pending hm hfits, happly, hmirrors, hclean⟩

end Replica

end LiveTables
