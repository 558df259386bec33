import LiveTables.Proofs.Delta.Foreign
import LiveTables.Proofs.Replica.Interrupted

/-!
# Streams with foreign fields

Whatever an encoder is called for, it adds records in whole (`Encoder.Adds`), also where it comes upon a cell that
cannot be read. So what all its calls write is a stream of records (`Encoder.exists_written`). Such a stream may pass
senders that write more than this encoder does: a decoder reads the same records from it, and counts what it stepped
over (`Encoder.foreign_skipped`).
-/

namespace LiveTables

namespace Encoder

variable {m : FieldMap} {e e' e'' : Encoder} {view : TableView} {row : Nat} {columns : List String}

/-- A call of an encoder, with the table that it reads as it is then. -/
inductive Call where
  | change (c : RowChange)
  | batch (changes : List Change)
  | event (view : TableView) (e : Event)
  | replay (view : TableView)
  | take

/-- The row fits into 64 bits, and so do the lengths of the texts that can be read in the columns. -/
def FitsIn (view : TableView) (row : Nat) (columns : List String) : Prop :=
  row < 2 ^ 64 ∧ ∀ c ∈ columns, ∀ v ∈ (view.get c row).toOption, v.Fits

instance : Decidable (FitsIn view row columns) :=
  inferInstanceAs (Decidable (row < 2 ^ 64 ∧ ∀ c ∈ columns, ∀ v ∈ (view.get c row).toOption, v.Fits))

/-- The columns that are read when an event is written. -/
def columnsOf (view : TableView) (e : Event) : List String :=
  match e.action with
  | .add => view.columnIds
  | .update => e.columns
  | .delete => []

/-- All that a call may write fits into 64 bits. -/
def Call.Fits : Call → Prop
  | change c => c.Fits
  | batch changes => ∀ c ∈ changes, c.Fits
  | event view e => FitsIn view e.row (columnsOf view e)
  | replay view => ∀ row ∈ view.rows, FitsIn view row view.columnIds
  | take => True

instance : DecidablePred Call.Fits
  | .change c => inferInstanceAs (Decidable c.Fits)
  | .batch changes => inferInstanceAs (Decidable (∀ c ∈ changes, c.Fits))
  | .event view e => inferInstanceAs (Decidable (FitsIn view e.row (columnsOf view e)))
  | .replay view => inferInstanceAs (Decidable (∀ row ∈ view.rows, FitsIn view row view.columnIds))
  | .take => inferInstanceAs (Decidable True)

/-- The encoder after a call, and all bytes that were taken from it. -/
def perform : Encoder × List UInt8 → Call → Encoder × List UInt8
  | (e, sent), .change c => (e.rowChange c, sent)
  | (e, sent), .batch changes => (e.batch changes, sent)
  | (e, sent), .event view event => ((e.event view event).1, sent)
  | (e, sent), .replay view => ((e.replay view).1, sent)
  | (e, sent), .take => (e.take.1, sent ++ e.take.2)

/-- The bytes that calls write on a new encoder: those that were taken, and those that can still be taken. -/
def written (m : FieldMap) (calls : List Call) : List UInt8 :=
  let (e, sent) := calls.foldl perform ({ fields := m }, [])
  sent ++ e.take.2

/-! ### Records in whole -/

/-- An encoder adds records to its bytes. -/
def Adds (e e' : Encoder) : Prop :=
  ∃ records : List Record, (∀ r ∈ records, r.Writable) ∧
    e' = { e with pending := e.pending ++ records.flatMap Record.toBytes }

theorem Adds.refl (e : Encoder) : Adds e e := ⟨[], by simp, by simp⟩

theorem Adds.trans (h : Adds e e') (h' : Adds e' e'') : Adds e e'' := by
  obtain ⟨xs, hxs, rfl⟩ := h
  obtain ⟨ys, hys, rfl⟩ := h'
  exact ⟨xs ++ ys, List.forall_mem_append.2 ⟨hxs, hys⟩, by simp⟩

theorem Adds.fields (h : Adds e e') : e'.fields = e.fields := by
  obtain ⟨records, -, rfl⟩ := h
  rfl

theorem adds_foldl_rowChange (hm : e.fields.Built) {calls : List RowChange} (hfits : ∀ c ∈ calls, c.Fits) :
    Adds e (calls.foldl rowChange e) := by
  refine ⟨calls.filterMap (·.record? e.fields), fun r hr => ?_, foldl_rowChange e calls⟩
  obtain ⟨c, hc, hrecord⟩ := List.mem_filterMap.1 hr
  exact (hfits c hc).writable hm hrecord

/-- Values that are read are written in a record, and where they cannot be read nothing is. -/
theorem adds_updateFrom (hm : e.fields.Built) (hfits : FitsIn view row columns) :
    Adds e (e.updateFrom view row columns).1 := by
  rcases updateFrom_cases e view row columns with ⟨-, heq⟩ | ⟨error, -, heq⟩
  · have hvalues : ∀ c ∈ [RowChange.update row (view.values row columns)], c.Fits := by
      refine List.forall_mem_singleton.2 ⟨hfits.1, fun x hx => ?_⟩
      obtain ⟨hc, hget⟩ := TableView.mem_values hx
      exact hfits.2 x.1 hc x.2 (by simp [hget, Except.toOption])
    rw [heq]
    exact adds_foldl_rowChange hm hvalues
  · rw [heq]
    exact .refl e

/-- An added row is written with all that can be read. -/
theorem adds_row (hm : e.fields.Built) (hfits : FitsIn view row columns) :
    Adds e ((e.add row).updateFrom view row columns).1 :=
  (adds_foldl_rowChange hm (List.forall_mem_singleton.2 hfits.1 : ∀ c ∈ [RowChange.add row], c.Fits)).trans
    (adds_updateFrom hm hfits)

theorem adds_rows (hm : e.fields.Built) {rows : List Nat} (hfits : ∀ row ∈ rows, FitsIn view row view.columnIds) :
    Adds e (e.rows view rows).1 := by
  induction rows generalizing e with
  | nil => exact .refl e
  | cons row rows ih =>
    obtain ⟨hrow, hrest⟩ := List.forall_mem_cons.1 hfits
    have hfirst : Adds e ((e.add row).updateFrom view row view.columnIds).1 := adds_row hm hrow
    rw [Encoder.rows]
    rcases hread : (e.add row).updateFrom view row view.columnIds with ⟨e₁, error | ⟨⟩⟩
    · rwa [hread] at hfirst
    · rw [hread] at hfirst
      exact hfirst.trans (ih (hfirst.fields ▸ hm) hrest)

theorem adds_event (hm : e.fields.Built) {event : Event} (hfits : (Call.event view event).Fits) :
    Adds e (e.event view event).1 := by
  obtain ⟨action, row, columns⟩ := event
  cases action with
  | add => exact adds_row hm hfits
  | update => exact adds_updateFrom hm hfits
  | delete =>
    exact adds_foldl_rowChange hm (List.forall_mem_singleton.2 hfits.1 : ∀ c ∈ [RowChange.delete row], c.Fits)

/-- A call adds records to the bytes that are taken and pending. -/
theorem exists_perform (hm : e.fields.Built) (sent : List UInt8) {call : Call} (hfits : call.Fits) :
    ∃ records : List Record, (∀ r ∈ records, r.Writable) ∧ (perform (e, sent) call).1.fields = e.fields ∧
      (perform (e, sent) call).2 ++ (perform (e, sent) call).1.pending =
        sent ++ e.pending ++ records.flatMap Record.toBytes := by
  have hadds {e' : Encoder} (h : Adds e e') : ∃ records : List Record, (∀ r ∈ records, r.Writable) ∧
      e'.fields = e.fields ∧ sent ++ e'.pending = sent ++ e.pending ++ records.flatMap Record.toBytes := by
    obtain ⟨records, hwritable, rfl⟩ := h
    exact ⟨records, hwritable, rfl, (List.append_assoc ..).symm⟩
  cases call with
  | change c => exact hadds (adds_foldl_rowChange hm (List.forall_mem_singleton.2 hfits : ∀ x ∈ [c], x.Fits))
  | batch changes => exact hadds (adds_foldl_rowChange hm (RowChange.fits_ofChanges hfits))
  | event view event => exact hadds (adds_event hm hfits)
  | replay view => exact hadds (adds_rows hm hfits)
  | take => exact ⟨[], by simp, rfl, by simp [perform, take]⟩

/-- What calls write are records. -/
theorem exists_written (hm : m.Built) {calls : List Call} (hfits : ∀ call ∈ calls, call.Fits) :
    ∃ records : List Record, (∀ r ∈ records, r.Writable) ∧ written m calls = records.flatMap Record.toBytes := by
  have hrun : ∀ (e : Encoder) (sent : List UInt8), e.fields.Built → ∃ records : List Record,
      (∀ r ∈ records, r.Writable) ∧ (calls.foldl perform (e, sent)).2 ++ (calls.foldl perform (e, sent)).1.pending =
        sent ++ e.pending ++ records.flatMap Record.toBytes := by
    induction calls with
    | nil => exact fun e sent _ => ⟨[], by simp, by simp⟩
    | cons call calls ih =>
      intro e sent hm
      obtain ⟨hfirst, hrest⟩ := List.forall_mem_cons.1 hfits
      obtain ⟨xs, hxs, hfields, hcall⟩ := exists_perform hm sent hfirst
      obtain ⟨ys, hys, hcalls⟩ := ih hrest _ (perform (e, sent) call).2 (hfields ▸ hm)
      refine ⟨xs ++ ys, List.forall_mem_append.2 ⟨hxs, hys⟩, ?_⟩
      rw [List.foldl_cons, hcalls, hcall, List.flatMap_append, List.append_assoc _ (xs.flatMap _)]
  obtain ⟨records, hwritable, hbytes⟩ := hrun { fields := m } [] hm
  exact ⟨records, hwritable, by simpa [written, take] using hbytes⟩

/-- What calls of an encoder write may come with foreign entries between its records and foreign fields inside them,
however deep these are nested and whatever numbers they have. The bytes, in any chunks, are decoded to the records
that were written, in order and with the same fields, without an error and to the end. The foreign entries are
counted by the decoder, and by each record the foreign fields inside it. -/
theorem foreign_skipped (hm : m.Built) (calls : List Call) (hfits : ∀ call ∈ calls, call.Fits) :
    ∃ records : List Record, Record.ofBytes (written m calls) = .ok records ∧
      ∀ (skips : List Nat) (dropped : Nat) (chunks : List (List UInt8)),
        Infused (written m calls) skips dropped chunks.flatten →
          records.length = skips.length ∧
          Decoder.drainEach {} chunks =
            ({ dropped }, records.zipWith (fun r count => { r with skipped := count }) skips, none) := by
  obtain ⟨records, hwritable, hwritten⟩ := exists_written hm hfits
  have hown : Record.ofBytes (written m calls) = .ok records := hwritten ▸ Record.ofBytes_flatMap hwritable
  refine ⟨records, hown, fun skips dropped chunks hinfused => ?_⟩
  obtain ⟨same, hsame, hlength, hdrain⟩ := hinfused.drainEach_eq
  obtain rfl := Except.ok.inj (hown.symm.trans hsame)
  exact ⟨hlength, hdrain⟩

end Encoder

/-! A newer sender, which adds what this decoder does not know. -/

namespace Newer

open Encoder Wire

def fields : FieldMap := ⟨[("a", 4)], [(4, "a")]⟩

/-- A row is added and its bytes are taken; then a value of it is written. -/
def calls : List Encoder.Call := [.change (.add 7), .take, .change (.update 7 [("a", .int32 (-2))])]

/-- A group with the number and the inside. -/
def group (number : Nat) (inside : List UInt8) : List UInt8 :=
  tag number .startGroup ++ (inside ++ tag number .endGroup)

theorem fields_group {number : Nat} {tags : List (Nat × WireType)} {inside : List UInt8} (hpos : 0 < number)
    (hmax : number ≤ maxField) (h : Fields tags inside) : Fields [(number, .startGroup)] (group number inside) := by
  have hall := Fields.group (isTag_tag hpos hmax .startGroup) h (isTag_tag hpos hmax .endGroup) .nil
  rwa [List.append_nil] at hall

/-- A row, as an addition has it, in a group with the number of an addition, twice. -/
def nested : List UInt8 := group 1 (group 1 (field rowField (.varint 9)))

/-- Before the records stands a field with the number of an addition, and behind them a deletion whose row is in a
group. The addition holds groups like additions; the update holds a row of another form and a group with the number of
the row. -/
def stream : List UInt8 :=
  field 1 (.varint 5) ++
    ((tag 1 .startGroup ++ (nested ++ (tag rowField .varint ++ varint 7 ++ [])) ++ tag 1 .endGroup) ++
      ((tag 2 .startGroup ++ (tag rowField .varint ++ varint 7 ++ (field rowField (.fixed32 7) ++
        (field 4 (.varint 3) ++ (group rowField nested ++ [])))) ++ tag 2 .endGroup) ++
          ((tag 3 .startGroup ++ (group 50 (field rowField (.varint 7)) ++ tag 3 .endGroup)) ++ [])))

theorem fields_row (n : UInt64) : Fields [(rowField, .varint)] (field rowField (.varint n)) :=
  @fields_field rowField (.varint n) (by decide) (by decide) trivial

theorem fields_nested : Fields [(1, .startGroup)] nested :=
  fields_group (by decide) (by decide) (fields_group (by decide) (by decide) (fields_row 9))

theorem infused : Infused (written fields calls) [1, 2] 2 stream := by
  have hwritten : written fields calls = Record.toBytes { action := .add, row := 7 } ++
      (Record.toBytes { action := .update, row := 7, fields := [(4, .varint 3)] } ++ []) := by
    decide +kernel
  have hfirst : IsForeignEntry (field 1 (.varint 5)) :=
    .field (fields_field (by decide) (by decide) trivial) fun h => WireType.noConfusion h
  have hlast : IsForeignEntry (tag 3 .startGroup ++ (group 50 (field rowField (.varint 7)) ++ tag 3 .endGroup)) :=
    .nameless .delete (isTag_tag (by decide) (by decide) _) (fields_group (by decide) (by decide) (fields_row 7))
      (by decide) (isTag_tag (by decide) (by decide) _)
  have hnested : IsForeignField nested := ⟨_, .inl rfl, fields_nested⟩
  have hfixed : IsForeignField (field rowField (.fixed32 7)) :=
    ⟨_, .inr ⟨rfl, fun h => WireType.noConfusion h⟩, fields_field (by decide) (by decide) trivial⟩
  have hgroup : IsForeignField (group rowField nested) :=
    ⟨_, .inl rfl, fields_group (by decide) (by decide) fields_nested⟩
  have hadd : Record.Holds { action := .add, row := 7 } 1 _ := .intro (.foreign hnested (.own _ .nil))
  have hupdate : Record.Holds { action := .update, row := 7, fields := [(4, .varint 3)] } 2 _ :=
    .intro (.own _ (.foreign hfixed (.own _ (.foreign hgroup .nil))))
  have hall := Infused.entry hfirst (.record ⟨by decide, by simp, rfl⟩ hadd
    (.record ⟨by decide, List.forall_mem_singleton.2 ⟨rfl, trivial⟩, rfl⟩ hupdate (.entry hlast .nil)))
  rw [hwritten]
  exact hall

/-- Byte by byte the stream is decoded to the two records, with what is foreign counted. -/
theorem foreign_skipped_newer :
    (fields.Built ∧ (∀ call ∈ calls, call.Fits) ∧ Infused (written fields calls) [1, 2] 2 stream) ∧
      Decoder.drainEach {} (stream.map ([·])) =
        ({ dropped := 2 }, [⟨.add, 7, [], 1⟩, ⟨.update, 7, [(4, .varint 3)], 2⟩], none) := by
  have hm : fields.Built := .insert .empty (by decide : FieldMap.insert {} "a" 4 = .ok fields)
  have hfits : ∀ call ∈ calls, call.Fits := by decide
  have hown : Record.ofBytes (written fields calls) = .ok [⟨.add, 7, [], 0⟩, ⟨.update, 7, [(4, .varint 3)], 0⟩] := by
    decide +kernel
  have hchunks : Infused (written fields calls) [1, 2] 2 (stream.map ([·])).flatten := by
    rw [← List.flatMap_def, List.flatMap_singleton']
    exact infused
  obtain ⟨records, hrecords, hall⟩ := foreign_skipped hm calls hfits
  obtain rfl := Except.ok.inj (hown.symm.trans hrecords)
  exact ⟨⟨hm, hfits, infused⟩, (hall [1, 2] 2 _ hchunks).2⟩

end Newer

end LiveTables
