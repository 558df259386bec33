import LiveTables.Delta.Encoder
import LiveTables.Proofs.Delta.Chunks
import LiveTables.Proofs.Delta.FieldMap
import LiveTables.Proofs.Wire.Values

/-!
# What is encoded is decoded

The bytes of a record are read back as the record, whatever follows (`takes_readEntry`), so the bytes of
several are decoded to all of them (`Record.ofBytes_flatMap`). An encoder writes the bytes of one record for
each call, or none (`Encoder.foldl_rowChange`). Together: what the calls on a new encoder leave behind is
decoded to their records (`ofBytes_foldl_rowChange`).
-/

namespace LiveTables

open Wire

/-- A record that can be written: its row fits into 64 bits, and it has only fields that may be given to
columns, with payloads that fit. -/
structure Record.Writable (r : Record) : Prop where
  row : r.row < 2 ^ 64
  fields : ∀ f ∈ r.fields, FieldMap.isAssignable f.1 = true ∧ f.2.Fits
  skipped : r.skipped = 0

/-! ### Fields -/

section Fields

variable {group fuel : Nat} {body : RecordBody} {xs : List UInt8}

/-- A field of the body of a record that is not its end, and what the rest makes of it. -/
theorem takes_readBody_cons {tag : Nat × WireType} {bytes ys : List UInt8} {body' final : RecordBody}
    (htag : Takes readTag xs tag) (hfield : Takes (readField group body tag) bytes (body', false))
    (hrest : Takes (readBody group fuel body') ys final) :
    Takes (readBody group (fuel + 1) body) (xs ++ bytes ++ ys) final := by
  rw [readBody_succ]
  exact (htag.bind hfield).bind hrest

/-- The end of the body of a record. -/
theorem takes_readBody_end (hstop : IsTag xs (group, .endGroup)) :
    Takes (readBody group (fuel + 1) body) xs body := by
  have hfield : Takes (readField group body (group, .endGroup)) [] (body, true) := by
    rw [readField, if_pos rfl]
    exact takes_pure _
  rw [readBody_succ]
  exact (hstop.takes.map hfield).map (takes_pure _)

/-- The row of a record. -/
theorem takes_readField_row {row : Nat} (hrow : row < 2 ^ 64) :
    Takes (readField group body (rowField, .varint)) (varint row) ({ body with row? := some row }, false) := by
  rw [readField, if_neg (not_not.2 rfl), if_pos rfl]
  · exact (takes_readVarint hrow).map_pure fun row => ({ body with row? := some row }, false)
  all_goals exact fun h => WireType.noConfusion h

/-- The payload of a column. -/
theorem takes_readField_payload {number : Nat} {p : Payload} (hnumber : number ≠ rowField) (hfits : p.Fits) :
    Takes (readField group body (number, p.wireType)) p.toBytes
      ({ body with fields := body.fields ++ [(number, p)] }, false) := by
  have hread := (takes_readPayload hfits).map_pure fun p =>
    (({ body with fields := body.fields ++ [(number, p)] } : RecordBody), false)
  cases p with
  | _ => rwa [Payload.wireType, readField, if_pos hnumber] <;> exact fun h => WireType.noConfusion h

/-- A field of a column, and what the rest makes of it. -/
theorem takes_readBody_field {number : Nat} {p : Payload} {ys : List UInt8} {final : RecordBody}
    (hassignable : FieldMap.isAssignable number = true) (hfits : p.Fits)
    (hrest : Takes (readBody group fuel { body with fields := body.fields ++ [(number, p)] }) ys final) :
    Takes (readBody group (fuel + 1) body) (field number p ++ ys) final := by
  simp only [FieldMap.isAssignable, Bool.and_eq_true, decide_eq_true_eq] at hassignable
  obtain ⟨⟨hzero, hrow⟩, hmax⟩ := hassignable
  have htag := takes_readTag (Nat.pos_of_ne_zero hzero) hmax p.wireType
  exact takes_readBody_cons htag (takes_readField_payload hrow hfits) hrest

/-- The fields of columns, up to the end of the record. -/
theorem takes_readBody_fields {fields : List (Nat × Payload)} (hpos : 0 < group) (hmax : group ≤ maxField)
    (hfields : ∀ f ∈ fields, FieldMap.isAssignable f.1 = true ∧ f.2.Fits) (hfuel : fields.length < fuel) :
    Takes (readBody group fuel body)
      (fields.flatMap (fun (number, payload) => field number payload) ++ tag group .endGroup)
      { body with fields := body.fields ++ fields } := by
  induction fields generalizing fuel body with
  | nil =>
    obtain ⟨fuel, rfl⟩ : ∃ n, fuel = n + 1 := ⟨fuel - 1, by omega⟩
    rw [List.append_nil]
    exact takes_readBody_end (isTag_tag hpos hmax .endGroup)
  | cons f fields ih =>
    obtain ⟨fuel, rfl⟩ : ∃ n, fuel = n + 1 := ⟨fuel - 1, by omega⟩
    obtain ⟨hfirst, hrest⟩ := List.forall_mem_cons.1 hfields
    have hmore := @ih fuel { body with fields := body.fields ++ [f] } hrest (Nat.lt_of_succ_lt_succ hfuel)
    simpa using takes_readBody_field hfirst.1 hfirst.2 hmore

end Fields

/-! ### Records -/

theorem Action.ofGroup?_group (a : Action) : ofGroup? a.group = some a := by cases a <;> rfl

theorem Action.group_pos (a : Action) : 0 < a.group := by cases a <;> decide

theorem Action.group_le_maxField (a : Action) : a.group ≤ maxField := by cases a <;> decide

theorem length_field_pos (number : Nat) (p : Payload) : 0 < (field number p).length := by
  have htag : 0 < (tag number p.wireType).length := List.length_pos_iff.2 (varint_ne_nil _)
  rw [field, List.length_append]
  omega

theorem length_le_flatMap_field (fields : List (Nat × Payload)) :
    fields.length ≤ (fields.flatMap fun (number, payload) => field number payload).length := by
  induction fields with
  | nil => exact Nat.le_refl 0
  | cons f fields ih =>
    have hfield := length_field_pos f.1 f.2
    simp only [List.flatMap_cons, List.length_append, List.length_cons] at ih ⊢
    omega

/-- The inside of a record is read with as much fuel as there are bytes. -/
theorem takes_readBody {r : Record} {fuel : Nat} (h : r.Writable) (hfuel : r.fields.length + 1 < fuel) :
    Takes (readBody r.action.group fuel {})
      (tag rowField .varint ++ varint r.row ++
        (r.fields.flatMap (fun (number, payload) => field number payload) ++ tag r.action.group .endGroup))
      { row? := some r.row, fields := r.fields } := by
  obtain ⟨fuel, rfl⟩ : ∃ n, fuel = n + 1 := ⟨fuel - 1, by omega⟩
  refine takes_readBody_cons (takes_readTag (by decide) (by decide) .varint) (takes_readField_row h.row) ?_
  exact takes_readBody_fields r.action.group_pos r.action.group_le_maxField h.fields (by omega)

/-- A group of an operation is read as its inside is, with as much fuel as there are bytes. -/
theorem takes_readEntry_group {action : Action} {start inside : List UInt8} {record? : Option Record}
    (hstart : IsTag start (action.group, .startGroup))
    (hinside : ∀ fuel, inside.length < fuel → ∃ body, Takes (readBody action.group fuel {}) inside body ∧
      body.row?.map (fun row => ⟨action, row, body.fields, body.skipped⟩) = record?) :
    Takes readEntry (start ++ inside) record? := by
  intro rest
  obtain ⟨body, hbody, rfl⟩ := hinside ((inside ++ rest).length + 1) (by rw [List.length_append]; omega)
  rw [List.append_assoc, readEntry, run_bind, hstart.takes]
  simp only [Action.ofGroup?_group]
  show ((readBody action.group ((inside ++ rest).length + 1) {}) >>= _) (inside ++ rest) = _
  rw [run_bind, hbody]
  rfl

/-- A record is read from its bytes. -/
theorem takes_readEntry {r : Record} (h : r.Writable) : Takes readEntry r.toBytes (some r) := by
  obtain ⟨action, row, fields, skipped⟩ := r
  obtain rfl : skipped = 0 := h.skipped
  simp only [Record.toBytes, List.append_assoc]
  refine takes_readEntry_group (isTag_tag action.group_pos action.group_le_maxField .startGroup) fun fuel hfuel => ?_
  -- Every field takes a byte at least, so the bytes of the inside are fuel enough.
  have henough : fields.length + 1 < fuel := by
    have hfields := length_le_flatMap_field fields
    have hrow : 0 < (varint row).length := List.length_pos_iff.2 (varint_ne_nil _)
    simp only [List.length_append] at hfields hfuel
    omega
  have hbody := takes_readBody h henough
  rw [List.append_assoc] at hbody
  exact ⟨_, hbody, rfl⟩

namespace Record

/-- The bytes of records are decoded to the records, and nothing is left over. -/
theorem drain_flatMap {records : List Record} (h : ∀ r ∈ records, r.Writable) (dropped : Nat) :
    Decoder.drain { buffer := records.flatMap toBytes, dropped } = ({ dropped }, records, none) := by
  induction records with
  | nil => exact Decoder.drain_of_truncated Decoder.readEntry_nil
  | cons r records ih =>
    have hread := takes_readEntry (h r List.mem_cons_self) (records.flatMap toBytes)
    have hrest := ih fun r hr => h r (List.mem_cons_of_mem _ hr)
    rw [Decoder.drain_of_record hread, hrest]

theorem ofBytes_flatMap {records : List Record} (h : ∀ r ∈ records, r.Writable) :
    ofBytes (records.flatMap toBytes) = .ok records := by
  simp only [ofBytes, Decoder.feed, List.nil_append, drain_flatMap h]
  rfl

end Record

/-! ### Calls -/

/-- The record of a call of an encoder. An update without mapped columns has none. -/
def RowChange.record? (m : FieldMap) : RowChange → Option Record
  | .add row => some { action := .add, row }
  | .update row values =>
    let fields := Encoder.payloads m values
    if fields.isEmpty then none else some { action := .update, row, fields }
  | .delete row => some { action := .delete, row }

/-- The row of a call fits into 64 bits, and so do the lengths of its texts. -/
def RowChange.Fits : RowChange → Prop
  | .add row => row < 2 ^ 64
  | .update row values => row < 2 ^ 64 ∧ ∀ x ∈ values, x.2.Fits
  | .delete row => row < 2 ^ 64

instance : DecidablePred RowChange.Fits
  | .add row => inferInstanceAs (Decidable (row < 2 ^ 64))
  | .update row values => inferInstanceAs (Decidable (row < 2 ^ 64 ∧ ∀ x ∈ values, x.2.Fits))
  | .delete row => inferInstanceAs (Decidable (row < 2 ^ 64))

/-- The row of a change fits into 64 bits, and so does the length of its text. -/
def Change.Fits : Change → Prop
  | .update row _ value => row < 2 ^ 64 ∧ value.Fits
  | .add row | .delete row => row < 2 ^ 64

instance : DecidablePred Change.Fits
  | .update row _ value => inferInstanceAs (Decidable (row < 2 ^ 64 ∧ value.Fits))
  | .add row | .delete row => inferInstanceAs (Decidable (row < 2 ^ 64))

/-- Updates that are joined fit if each of them does. -/
theorem RowChange.fits_ofChanges {list : List Change} (h : ∀ c ∈ list, c.Fits) :
    ∀ call ∈ ofChanges list, call.Fits := by
  induction list with
  | nil => simp [ofChanges]
  | cons c list ih =>
    obtain ⟨hc, hrest⟩ := List.forall_mem_cons.1 h
    cases c with
    | add row | delete row => exact List.forall_mem_cons.2 ⟨hc, ih hrest⟩
    | update row column value =>
      have hsingle : (RowChange.update row [(column, value)]).Fits := ⟨hc.1, by simpa using hc.2⟩
      rw [ofChanges]
      split
      · next row' values later hlater =>
        rw [hlater] at ih
        obtain ⟨hfirst, hlater⟩ := List.forall_mem_cons.1 (ih hrest)
        split_ifs
        · exact List.forall_mem_cons.2 ⟨⟨hc.1, List.forall_mem_cons.2 ⟨hc.2, hfirst.2⟩⟩, hlater⟩
        · exact List.forall_mem_cons.2 ⟨hsingle, List.forall_mem_cons.2 ⟨hfirst, hlater⟩⟩
      · exact List.forall_mem_cons.2 ⟨hsingle, ih hrest⟩

variable {m : FieldMap}

theorem Encoder.mem_payloads {values : List (String × Value)} {f : Nat × Payload} :
    f ∈ payloads m values ↔ ∃ x ∈ values, m.field? x.1 = some f.1 ∧ x.2.payload = f.2 := by
  simp only [payloads, List.mem_filterMap, Option.map_eq_some_iff]
  refine exists_congr fun x => and_congr_right fun _ => ?_
  constructor
  · rintro ⟨number, hnumber, rfl⟩
    exact ⟨hnumber, rfl⟩
  · rintro ⟨hnumber, hpayload⟩
    exact ⟨f.1, hnumber, Prod.ext rfl hpayload⟩

/-- The record of a call can be written. -/
theorem RowChange.Fits.writable {c : RowChange} {r : Record} (h : c.Fits) (hm : m.Built)
    (hr : c.record? m = some r) : r.Writable := by
  cases c with
  | add row | delete row =>
    obtain rfl := Option.some.inj hr
    exact ⟨h, by simp, rfl⟩
  | update row values =>
    simp only [record?] at hr
    split_ifs at hr
    obtain rfl := Option.some.inj hr
    refine ⟨h.1, fun f hf => ?_, rfl⟩
    obtain ⟨x, hx, hfield, hpayload⟩ := Encoder.mem_payloads.1 hf
    exact ⟨hm.isAssignable_of_field? hfield, hpayload ▸ (h.2 x hx).payload⟩

namespace Encoder

/-- A call writes its record, if it has one. -/
theorem rowChange_eq (e : Encoder) (c : RowChange) :
    e.rowChange c = { e with pending := e.pending ++ ((c.record? e.fields).toList.flatMap Record.toBytes) } := by
  cases c with
  | add row | delete row => simp [rowChange, add, delete, write, RowChange.record?]
  | update row values =>
    simp only [rowChange, update, RowChange.record?]
    split_ifs
    · simp
    · simp [write]

@[simp] theorem fields_rowChange (e : Encoder) (c : RowChange) : (e.rowChange c).fields = e.fields := by
  rw [rowChange_eq]

/-- Calls write their records one after the other. -/
theorem foldl_rowChange (e : Encoder) (calls : List RowChange) :
    calls.foldl rowChange e =
      { e with pending := e.pending ++ (calls.filterMap (·.record? e.fields)).flatMap Record.toBytes } := by
  induction calls generalizing e with
  | nil => simp
  | cons c calls ih =>
    rw [List.foldl_cons, ih, rowChange_eq, List.filterMap_cons]
    cases c.record? e.fields with
    | none => simp
    | some r => simp

@[simp] theorem fields_foldl_rowChange (e : Encoder) (calls : List RowChange) :
    (calls.foldl rowChange e).fields = e.fields := by
  rw [foldl_rowChange]

/-- What calls write at the end of what others wrote. -/
theorem pending_append (m : FieldMap) (xs ys : List RowChange) :
    ((xs ++ ys).foldl rowChange { fields := m }).pending =
      (xs.foldl rowChange { fields := m }).pending ++ (ys.foldl rowChange { fields := m }).pending := by
  simp only [foldl_rowChange, List.filterMap_append, List.flatMap_append, List.nil_append]

/-- When the bytes of calls are taken, nothing is left. -/
theorem take_foldl_rowChange (m : FieldMap) (calls : List RowChange) :
    (calls.foldl rowChange { fields := m }).take =
      ({ fields := m }, (calls.foldl rowChange { fields := m }).pending) := by
  rw [take, foldl_rowChange]

/-- The bytes of calls that fit are decoded to their records. -/
theorem ofBytes_pending {calls : List RowChange} (hm : m.Built) (hfits : ∀ c ∈ calls, c.Fits) :
    Record.ofBytes (calls.foldl rowChange { fields := m }).pending = .ok (calls.filterMap (·.record? m)) := by
  rw [foldl_rowChange, List.nil_append]
  refine Record.ofBytes_flatMap fun r hr => ?_
  obtain ⟨c, hc, hcr⟩ := List.mem_filterMap.1 hr
  exact (hfits c hc).writable hm hcr

end Encoder

/-- What calls write that fit is decoded to their records, in order, and an update without mapped columns
writes nothing. -/
theorem ofBytes_foldl_rowChange (hm : m.Built) (calls : List RowChange) (hfits : ∀ c ∈ calls, c.Fits) :
    Record.ofBytes (calls.foldl Encoder.rowChange { fields := m }).take.2 =
        .ok (calls.filterMap (·.record? m)) ∧
      ∀ (e : Encoder) row values, e.fields = m → (∀ x ∈ values, m.field? x.1 = none) →
        e.update row values = (e, 0) := by
  refine ⟨Encoder.ofBytes_pending hm hfits, fun e row values he hnone => ?_⟩
  have hempty : Encoder.payloads e.fields values = [] := by
    rw [List.eq_nil_iff_forall_not_mem]
    intro f hf
    obtain ⟨x, hx, hfield, -⟩ := Encoder.mem_payloads.1 hf
    rw [he, hnone x hx] at hfield
    cases hfield
  simp [Encoder.update, hempty]

theorem ofBytes_foldl_rowChange_mixed :
    let m : FieldMap := ⟨[("a", 1), ("b", 3)], [(1, "a"), (3, "b")]⟩
    let calls : List RowChange :=
      [.add 18446744073709551615, .update 7 [("b", .boolean true), ("c", .byte 1), ("b", .byte 2), ("a", .char 'x')],
        .update 7 [("c", .byte 1)], .delete 7]
    (m.Built ∧ ∀ c ∈ calls, c.Fits) ∧
      Record.ofBytes (calls.foldl Encoder.rowChange { fields := m }).take.2 =
        .ok [{ action := .add, row := 18446744073709551615 },
          { action := .update, row := 7, fields := [(3, .varint 1), (3, .varint 2), (1, .varint 120)] },
          { action := .delete, row := 7 }] := by
  intro m calls
  have hb : FieldMap.insert {} "b" 3 = .ok ⟨[("b", 3)], [(3, "b")]⟩ := by decide
  have ha : FieldMap.insert ⟨[("b", 3)], [(3, "b")]⟩ "a" 1 = .ok m := by decide
  have hm : m.Built := .insert (.insert .empty hb) ha
  have hfits : ∀ c ∈ calls, c.Fits := by decide
  exact ⟨⟨hm, hfits⟩, (ofBytes_foldl_rowChange hm calls hfits).1⟩

end LiveTables
