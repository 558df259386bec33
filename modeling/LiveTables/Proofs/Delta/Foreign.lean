import LiveTables.Proofs.Delta.RoundTrip
import LiveTables.Proofs.Wire.Fields

/-!
# Foreign fields in a stream

A sender may know more than a receiver does. Between the records of a stream it may write fields, groups and records
without a row (`IsForeignEntry`), and inside a record groups and fields of another form in the place of the row
(`IsForeignField`). `Infused own skips dropped bytes` says that `bytes` are the records of `own` with `dropped`
foreign entries between them and with as many foreign fields inside each record as `skips` lists.

A decoder steps over all of that and counts it (`Infused.drain_eq`): a foreign field ends where its own group ends, so
neither a group with the number of the record nor a field with the number of the row inside it is taken for one of
the record.
-/

namespace LiveTables

open Wire

/-! ### Inside a record -/

/-- The tag of a field inside a record that is no value of a column and not its row: that of a group, or one with the
number of the row and another form. -/
def IsForeignTag (tag : Nat × WireType) : Prop := tag.2 = .startGroup ∨ tag.1 = rowField ∧ tag.2 ≠ .varint

/-- A complete field with such a tag. -/
def IsForeignField (bytes : List UInt8) : Prop := ∃ tag, IsForeignTag tag ∧ Fields [tag] bytes

/-- Pieces one after the other, with `count` foreign fields before, between and after them. -/
inductive Laced : List (List UInt8) → Nat → List UInt8 → Prop
  | nil : Laced [] 0 []
  | own (piece : List UInt8) {pieces : List (List UInt8)} {count : Nat} {bytes : List UInt8}
    (h : Laced pieces count bytes) : Laced (piece :: pieces) count (piece ++ bytes)
  | foreign {pieces : List (List UInt8)} {count : Nat} {xs bytes : List UInt8} (hforeign : IsForeignField xs)
    (h : Laced pieces count bytes) : Laced pieces (count + 1) (xs ++ bytes)

/-- The bytes of a record with `count` foreign fields inside it. -/
inductive Record.Holds (r : Record) (count : Nat) : List UInt8 → Prop
  | intro {inside : List UInt8}
    (h : Laced ((tag rowField .varint ++ varint r.row) :: r.fields.map fun (number, p) => field number p) count inside) :
    Holds r count (tag r.action.group .startGroup ++ inside ++ tag r.action.group .endGroup)

section Inside

variable {group fuel count : Nat} {body : RecordBody} {bytes stop : List UInt8} {t : Nat × WireType}
  {tags : List (Nat × WireType)}

/-- A foreign field is counted. -/
theorem takes_foreign (h : Fields [t] bytes) (hforeign : IsForeignTag t) :
    ∃ xs ys, bytes = xs ++ ys ∧ IsTag xs t ∧ ∀ group body,
      Takes (readField group body t) ys ({ body with skipped := body.skipped + 1 }, false) := by
  obtain ⟨number, type⟩ := t
  obtain ⟨xs, ys, rfl, htag, hskip⟩ := h.takes_skip
  refine ⟨xs, ys, rfl, htag, fun group body => ?_⟩
  have hcount := hskip.map_pure fun _ => (({ body with skipped := body.skipped + 1 } : RecordBody), false)
  rcases hforeign with heq | ⟨hnumber, htype⟩
  · obtain rfl : type = .startGroup := heq
    exact hcount
  · obtain rfl : number = rowField := hnumber
    cases type with
    | varint => exact absurd rfl htype
    | startGroup => exact hcount
    | endGroup => rcases h.single with ⟨_, _, _, hpayload, _⟩ | ⟨_, _, _, _, htype, _⟩ <;> contradiction
    | _ =>
      rw [readField, if_neg (not_not.2 rfl), if_neg (by simp)]
      · exact hcount
      all_goals exact fun h => WireType.noConfusion h

/-- A record that begins with a foreign field is read on behind it. -/
theorem takes_readBody_foreign {xs : List UInt8} {final : RecordBody} (hforeign : IsForeignField xs)
    (hfuel : (xs ++ bytes).length < fuel)
    (hmore : ∀ k, bytes.length < k →
      Takes (readBody group k { body with skipped := body.skipped + 1 }) (bytes ++ stop) final) :
    Takes (readBody group fuel body) (xs ++ bytes ++ stop) final := by
  obtain ⟨t, hforeign, hfirst⟩ := hforeign
  obtain ⟨xs, ys, rfl, htag, hfield⟩ := takes_foreign hfirst hforeign
  have hlength := htag.length_pos
  obtain ⟨fuel, rfl⟩ : ∃ k, fuel = k + 1 := Nat.exists_eq_add_one.2 (Nat.zero_lt_of_lt hfuel)
  simp only [List.length_append] at hfuel
  have hall := takes_readBody_cons htag.takes (hfield group body) (hmore fuel (by omega))
  simpa using hall

/-- A field that is not the row leaves the row as it is. -/
theorem takes_not_row (h : Fields [t] bytes) (hrow : t ≠ (rowField, .varint)) :
    ∃ xs ys, bytes = xs ++ ys ∧ IsTag xs t ∧ ∀ group body, ∃ body', body'.row? = body.row? ∧
      Takes (readField group body t) ys (body', false) := by
  by_cases hforeign : IsForeignTag t
  · obtain ⟨xs, ys, rfl, htag, hfield⟩ := takes_foreign h hforeign
    exact ⟨xs, ys, rfl, htag, fun group body => ⟨{ body with skipped := body.skipped + 1 }, rfl, hfield group body⟩⟩
  · obtain ⟨number, type⟩ := t
    rw [IsForeignTag, not_or, not_and_not_right] at hforeign
    obtain ⟨htype, hnumber⟩ := hforeign
    replace hnumber : number ≠ rowField := by
      rintro rfl
      exact hrow (congrArg _ (hnumber rfl))
    rcases h.single with ⟨xs, ys, htag, hpayload, rfl⟩ | ⟨_, _, _, _, hgroup, _⟩
    · refine ⟨xs, ys, rfl, htag, fun group body => ?_⟩
      obtain ⟨p, hp⟩ := hpayload.takes
      have hread := hp.map_pure fun p => (({ body with fields := body.fields ++ [(number, p)] } : RecordBody), false)
      refine ⟨{ body with fields := body.fields ++ [(number, p)] }, rfl, ?_⟩
      cases hpayload with
      | _ => rwa [readField, if_pos hnumber] <;> exact fun h => WireType.noConfusion h
    · exact absurd hgroup htype

/-- The fields of columns, with foreign ones among them, up to the end of the record. -/
theorem Laced.takes_fields {fields : List (Nat × Payload)}
    (h : Laced (fields.map fun (number, p) => field number p) count bytes) (hstop : IsTag stop (group, .endGroup))
    (hfields : ∀ f ∈ fields, FieldMap.isAssignable f.1 = true ∧ f.2.Fits) (hfuel : bytes.length < fuel) :
    Takes (readBody group fuel body) (bytes ++ stop)
      { body with fields := body.fields ++ fields, skipped := body.skipped + count } := by
  generalize hpieces : (fields.map fun (number, p) => field number p) = pieces at h
  induction h generalizing fuel body fields with
  | nil =>
    obtain ⟨fuel, rfl⟩ := Nat.exists_eq_add_one.2 hfuel
    obtain rfl := List.map_eq_nil_iff.1 hpieces
    simpa using @takes_readBody_end group fuel body stop hstop
  | @own piece pieces count bytes h ih =>
    obtain ⟨⟨number, p⟩, fields, rfl, rfl, hrest⟩ := List.map_eq_cons_iff.1 hpieces
    have hlength := length_field_pos number p
    obtain ⟨fuel, rfl⟩ : ∃ k, fuel = k + 1 := Nat.exists_eq_add_one.2 (Nat.zero_lt_of_lt hfuel)
    simp only [List.length_append] at hfuel
    obtain ⟨hfirst, hfields⟩ := List.forall_mem_cons.1 hfields
    have hmore := @ih fuel { body with fields := body.fields ++ [(number, p)] } fields hfields (by omega) hrest
    have hall := takes_readBody_field hfirst.1 hfirst.2 hmore
    simpa using hall
  | @foreign pieces count xs bytes hforeign h ih =>
    refine takes_readBody_foreign hforeign hfuel fun k hk => ?_
    have hmore := @ih k { body with skipped := body.skipped + 1 } fields hfields hk hpieces
    simpa [Nat.add_assoc, Nat.add_comm 1] using hmore

/-- The row and the fields of columns, with foreign fields among them, up to the end of the record. -/
theorem Laced.takes_body {row : Nat} {fields : List (Nat × Payload)}
    (h : Laced ((tag rowField .varint ++ varint row) :: fields.map fun (number, p) => field number p) count bytes)
    (hstop : IsTag stop (group, .endGroup)) (hrow : row < 2 ^ 64)
    (hfields : ∀ f ∈ fields, FieldMap.isAssignable f.1 = true ∧ f.2.Fits) (hfuel : bytes.length < fuel) :
    Takes (readBody group fuel body) (bytes ++ stop)
      { row? := some row, fields := body.fields ++ fields, skipped := body.skipped + count } := by
  generalize hpieces : (_ :: _) = pieces at h
  induction h generalizing fuel body with
  | nil => cases hpieces
  | @own piece pieces count bytes h ih =>
    obtain ⟨rfl, rfl⟩ := List.cons_eq_cons.1 hpieces
    have hlength : 0 < (varint row).length := List.length_pos_iff.2 (varint_ne_nil _)
    obtain ⟨fuel, rfl⟩ : ∃ k, fuel = k + 1 := Nat.exists_eq_add_one.2 (Nat.zero_lt_of_lt hfuel)
    simp only [List.length_append] at hfuel
    have hmore := @Laced.takes_fields group fuel count { body with row? := some row } bytes stop fields h hstop hfields
      (by omega)
    have hall := takes_readBody_cons (takes_readTag (by decide) (by decide) .varint) (takes_readField_row hrow) hmore
    simpa using hall
  | @foreign pieces count xs bytes hforeign h ih =>
    refine takes_readBody_foreign hforeign hfuel fun k hk => ?_
    have hmore := @ih k { body with skipped := body.skipped + 1 } hk hpieces
    simpa [Nat.add_assoc, Nat.add_comm 1] using hmore

/-- Fields without a row, up to the end of a record. -/
theorem takes_readBody_nameless (h : Fields tags bytes) (hrow : (rowField, .varint) ∉ tags)
    (hstop : IsTag stop (group, .endGroup)) (hnone : body.row? = none) (hfuel : bytes.length < fuel) :
    ∃ final, final.row? = none ∧ Takes (readBody group fuel body) (bytes ++ stop) final := by
  induction tags generalizing fuel body bytes with
  | nil =>
    cases h
    obtain ⟨fuel, rfl⟩ := Nat.exists_eq_add_one.2 hfuel
    exact ⟨body, hnone, takes_readBody_end hstop⟩
  | cons t tags ih =>
    obtain ⟨hfirst, hrest⟩ := List.ne_and_not_mem_of_not_mem_cons hrow
    obtain ⟨_, rest, rfl, hfield, hmore⟩ := h.uncons
    obtain ⟨xs, ys, rfl, htag, hread⟩ := takes_not_row hfield hfirst.symm
    obtain ⟨body', hkept, hread⟩ := hread group body
    have hlength := htag.length_pos
    obtain ⟨fuel, rfl⟩ : ∃ k, fuel = k + 1 := Nat.exists_eq_add_one.2 (Nat.zero_lt_of_lt hfuel)
    simp only [List.length_append] at hfuel
    obtain ⟨final, hfinal, hall⟩ := @ih fuel body' rest hmore hrest (hkept.trans hnone) (by omega)
    refine ⟨final, hfinal, ?_⟩
    rw [List.append_assoc]
    exact takes_readBody_cons htag.takes hread hall

end Inside

/-! ### Between records -/

/-- An entry of a stream that is not a record: a field or a group that is not one of an operation, or a group of an
operation without a row. -/
inductive IsForeignEntry : List UInt8 → Prop
  | field {number : Nat} {type : WireType} {bytes : List UInt8} (h : Fields [(number, type)] bytes)
    (hother : type = .startGroup → Action.ofGroup? number = none) : IsForeignEntry bytes
  | nameless (action : Action) {start inside stop : List UInt8} {tags : List (Nat × WireType)}
    (hstart : IsTag start (action.group, .startGroup)) (hinside : Fields tags inside)
    (hrow : (rowField, .varint) ∉ tags) (hstop : IsTag stop (action.group, .endGroup)) :
    IsForeignEntry (start ++ (inside ++ stop))

/-- Records, with `dropped` foreign entries between them and as many foreign fields inside each as `skips` lists. -/
inductive Infused : List UInt8 → List Nat → Nat → List UInt8 → Prop
  | nil : Infused [] [] 0 []
  | record {r : Record} {count dropped : Nat} {skips : List Nat} {own xs bytes : List UInt8} (hr : r.Writable)
    (hholds : r.Holds count xs) (h : Infused own skips dropped bytes) :
    Infused (r.toBytes ++ own) (count :: skips) dropped (xs ++ bytes)
  | entry {dropped : Nat} {skips : List Nat} {own xs bytes : List UInt8} (hforeign : IsForeignEntry xs)
    (h : Infused own skips dropped bytes) : Infused own skips (dropped + 1) (xs ++ bytes)

/-- A record is read, and the foreign fields inside it are counted. -/
theorem Record.Holds.takes {r : Record} {count : Nat} {bytes : List UInt8} (h : r.Holds count bytes) (hr : r.Writable) :
    Takes readEntry bytes (some { r with skipped := count }) := by
  obtain ⟨hinside⟩ := h
  have hstart := isTag_tag r.action.group_pos r.action.group_le_maxField .startGroup
  have hstop := isTag_tag r.action.group_pos r.action.group_le_maxField .endGroup
  rw [List.append_assoc]
  refine takes_readEntry_group hstart fun fuel hfuel => ?_
  rw [List.length_append] at hfuel
  exact ⟨_, hinside.takes_body hstop hr.row hr.fields (by omega), by simp⟩

/-- A foreign entry is dropped. -/
theorem IsForeignEntry.takes {bytes : List UInt8} (h : IsForeignEntry bytes) : Takes readEntry bytes none := by
  cases h with
  | @field number type _ h hother =>
    obtain ⟨xs, ys, rfl, htag, hskip⟩ := h.takes_skip
    refine htag.takes.bind ?_
    dsimp only
    split
    · next action hgroup => rw [hother rfl] at hgroup; cases hgroup
    · rcases h.single with ⟨_, _, _, hpayload, _⟩ | ⟨_, _, _, _, htype, _⟩ <;> contradiction
    · exact hskip.map (takes_pure none)
  | @nameless action start inside stop tags hstart hinside hrow hstop =>
    refine takes_readEntry_group hstart fun fuel hfuel => ?_
    rw [List.length_append] at hfuel
    obtain ⟨final, hnone, hread⟩ :=
      @takes_readBody_nameless action.group fuel {} inside stop tags hinside hrow hstop rfl (by omega)
    exact ⟨final, hread, by rw [hnone]; rfl⟩

namespace Infused

variable {own bytes : List UInt8} {skips : List Nat} {dropped : Nat}

/-- The records that are left when all that is foreign is taken away. -/
theorem exists_records (h : Infused own skips dropped bytes) :
    ∃ records : List Record, (∀ r ∈ records, r.Writable) ∧ own = records.flatMap Record.toBytes ∧
      records.length = skips.length ∧ ∀ before, Decoder.drain { buffer := bytes, dropped := before } =
        ({ dropped := before + dropped }, records.zipWith (fun r count => { r with skipped := count }) skips, none) := by
  induction h with
  | nil => exact ⟨[], by simp, rfl, rfl, fun before => Decoder.drain_of_truncated Decoder.readEntry_nil⟩
  | @record r count dropped skips own xs bytes hr hholds h ih =>
    obtain ⟨records, hwritable, rfl, hlength, hdrain⟩ := ih
    refine ⟨r :: records, List.forall_mem_cons.2 ⟨hr, hwritable⟩, rfl, congrArg _ hlength, fun before => ?_⟩
    rw [Decoder.drain_of_record (hholds.takes hr bytes), hdrain]
    rfl
  | @entry dropped skips own xs bytes hforeign h ih =>
    obtain ⟨records, hwritable, rfl, hlength, hdrain⟩ := ih
    refine ⟨records, hwritable, rfl, hlength, fun before => ?_⟩
    rw [Decoder.drain_of_dropped (hforeign.takes bytes), hdrain, Nat.add_assoc, Nat.add_comm 1]

/-- A stream with foreign entries and fields, in chunks, is decoded to its records alone, and all that is foreign is
counted. -/
theorem drainEach_eq {chunks : List (List UInt8)} (h : Infused own skips dropped chunks.flatten) :
    ∃ records : List Record, Record.ofBytes own = .ok records ∧ records.length = skips.length ∧
      Decoder.drainEach {} chunks =
        ({ dropped }, records.zipWith (fun r count => { r with skipped := count }) skips, none) := by
  obtain ⟨records, hwritable, rfl, hlength, hdrain⟩ := h.exists_records
  have hfresh : Decoder.drain {} = ({}, [], none) := rfl
  have hflat := Decoder.drain_feed_flatten hfresh chunks
  rw [Option.none_or] at hflat
  refine ⟨records, Record.ofBytes_flatMap hwritable, hlength, hflat.symm.trans ?_⟩
  rw [Decoder.feed, List.nil_append, hdrain, Nat.zero_add]

end Infused

end LiveTables
