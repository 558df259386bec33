import LiveTables.Proofs.Wire.RoundTrip

/-!
# Complete fields

What fields a reader may meet, apart from any reader. Behind its tag a field has the bytes that its form asks for
(`IsPayload`), and a group holds complete fields up to an end marker of its own number. `Fields tags bytes` says that
the bytes are complete fields one after the other, with `tags` as their tags; the fields inside their groups are not
listed.

A field is stepped over with exactly its bytes, whatever follows (`Fields.takes_skip`): a group up to its own end,
however deep the groups inside it are and whatever numbers they have.
-/

namespace LiveTables.Wire

/-- The bytes behind a tag of the form. Behind the tags of groups there are none of this kind. -/
inductive IsPayload : WireType → List UInt8 → Prop
  | varint {xs : List UInt8} {n : Nat} (h : IsNumber xs n) : IsPayload .varint xs
  | fixed64 {xs : List UInt8} (h : xs.length = 8) : IsPayload .fixed64 xs
  | fixed32 {xs : List UInt8} (h : xs.length = 4) : IsPayload .fixed32 xs
  | bytes {xs ys : List UInt8} (h : IsNumber xs ys.length) : IsPayload .bytes (xs ++ ys)

/-- Complete fields one after the other, with their tags. -/
inductive Fields : List (Nat × WireType) → List UInt8 → Prop
  | nil : Fields [] []
  | plain {xs ys zs : List UInt8} {tag : Nat × WireType} {tags : List (Nat × WireType)} (htag : IsTag xs tag)
    (hpayload : IsPayload tag.2 ys) (hrest : Fields tags zs) : Fields (tag :: tags) (xs ++ ys ++ zs)
  | group {xs ys stop zs : List UInt8} {number : Nat} {inner tags : List (Nat × WireType)}
    (hstart : IsTag xs (number, .startGroup)) (hinner : Fields inner ys) (hstop : IsTag stop (number, .endGroup))
    (hrest : Fields tags zs) : Fields ((number, .startGroup) :: tags) (xs ++ (ys ++ stop) ++ zs)

variable {xs ys bytes : List UInt8} {type : WireType} {tag : Nat × WireType} {tags : List (Nat × WireType)}

theorem IsPayload.takes (h : IsPayload type xs) : ∃ p, Takes (readPayload type) xs p := by
  cases h with
  | varint h => exact ⟨_, h.takes.map_pure fun n => Payload.varint (UInt64.ofNat n)⟩
  | fixed64 h =>
    have hbytes := takes_readBytes xs
    rw [h] at hbytes
    exact ⟨_, hbytes.map_pure fun bs => Payload.fixed64 (UInt64.ofNat (ofLittleEndian bs))⟩
  | fixed32 h =>
    have hbytes := takes_readBytes xs
    rw [h] at hbytes
    exact ⟨_, hbytes.map_pure fun bs => Payload.fixed32 (UInt32.ofNat (ofLittleEndian bs))⟩
  | bytes h => exact ⟨_, h.takes.bind ((takes_readBytes _).map_pure Payload.bytes)⟩

theorem isPayload_toBytes {p : Payload} (h : p.Fits) : IsPayload p.wireType p.toBytes := by
  cases p with
  | varint n => exact .varint (isNumber_varint n.toNat_lt)
  | fixed64 n => exact .fixed64 (length_littleEndian 8 n.toNat)
  | fixed32 n => exact .fixed32 (length_littleEndian 4 n.toNat)
  | bytes bs => exact .bytes (isNumber_varint h)

/-- A field that is written is complete. -/
theorem fields_field {number : Nat} {p : Payload} (hpos : 0 < number) (hmax : number ≤ maxField) (hfits : p.Fits) :
    Fields [(number, p.wireType)] (field number p) := by
  have hall := Fields.plain (isTag_tag hpos hmax p.wireType) (isPayload_toBytes hfits) .nil
  rwa [List.append_nil] at hall

/-- The first field, and those after it. -/
theorem Fields.uncons (h : Fields (tag :: tags) bytes) :
    ∃ first rest, bytes = first ++ rest ∧ Fields [tag] first ∧ Fields tags rest := by
  cases h with
  | @plain xs ys zs _ _ htag hpayload hrest =>
    have hfirst := Fields.plain htag hpayload .nil
    rw [List.append_nil] at hfirst
    exact ⟨xs ++ ys, zs, rfl, hfirst, hrest⟩
  | @group xs ys stop zs number inner _ hstart hinner hstop hrest =>
    have hfirst := Fields.group hstart hinner hstop .nil
    rw [List.append_nil] at hfirst
    exact ⟨xs ++ (ys ++ stop), zs, rfl, hfirst, hrest⟩

/-- One field is a tag with its payload, or a group. -/
theorem Fields.single (h : Fields [tag] bytes) :
    (∃ xs ys, IsTag xs tag ∧ IsPayload tag.2 ys ∧ bytes = xs ++ ys) ∨
      ∃ xs ys stop inner, tag.2 = .startGroup ∧ IsTag xs tag ∧ Fields inner ys ∧
        IsTag stop (tag.1, .endGroup) ∧ bytes = xs ++ (ys ++ stop) := by
  cases h with
  | plain htag hpayload hrest =>
    cases hrest
    exact .inl ⟨_, _, htag, hpayload, List.append_nil _⟩
  | group hstart hinner hstop hrest =>
    cases hrest
    exact .inr ⟨_, _, _, _, rfl, hstart, hinner, hstop, List.append_nil _⟩

/-! ### Stepping over fields -/

/-- A group is stepped over with its end marker, if there is more fuel than bytes before that. -/
theorem Fields.takes_skipGroup {fuel field : Nat} (h : Fields tags xs) (hstop : IsTag ys (field, .endGroup))
    (hfuel : xs.length < fuel) : Takes (skipGroup fuel field) (xs ++ ys) () := by
  induction h generalizing fuel field ys with
  | nil =>
    obtain ⟨fuel, rfl⟩ := Nat.exists_eq_add_one.2 hfuel
    refine hstop.takes.map ?_
    dsimp only
    rw [if_neg (by simp)]
    exact takes_pure _
  | @plain xs payload zs tag tags htag hpayload hrest ih =>
    obtain ⟨fuel, rfl⟩ : ∃ k, fuel = k + 1 := Nat.exists_eq_add_one.2 (Nat.zero_lt_of_lt hfuel)
    have hpos := htag.length_pos
    simp only [List.length_append] at hfuel
    obtain ⟨p, hp⟩ := hpayload.takes
    have hmore := hp.bind (f := fun _ => skipGroup fuel field) (ih hstop (by omega))
    obtain ⟨number, type⟩ := tag
    rw [List.append_assoc, List.append_assoc]
    refine htag.takes.bind ?_
    cases hpayload <;> exact hmore
  | @group xs inside stop zs number inner tags hstart hinner hinnerStop hrest ihInner ihRest =>
    obtain ⟨fuel, rfl⟩ : ∃ k, fuel = k + 1 := Nat.exists_eq_add_one.2 (Nat.zero_lt_of_lt hfuel)
    have hpos := hstart.length_pos
    simp only [List.length_append] at hfuel
    rw [List.append_assoc, List.append_assoc]
    refine hstart.takes.bind ?_
    exact (ihInner hinnerStop (by omega)).bind (ihRest hstop (by omega))

/-- A field is stepped over behind its tag. -/
theorem Fields.takes_skip (h : Fields [tag] bytes) :
    ∃ xs ys, bytes = xs ++ ys ∧ IsTag xs tag ∧ Takes (skip tag.1 tag.2) ys () := by
  obtain ⟨number, type⟩ := tag
  rcases h.single with ⟨xs, ys, htag, hpayload, rfl⟩ | ⟨xs, ys, stop, inner, rfl, htag, hinner, hstop, rfl⟩
  · refine ⟨xs, ys, rfl, htag, ?_⟩
    obtain ⟨p, hp⟩ := hpayload.takes
    cases hpayload <;> exact hp.map (takes_pure ())
  · refine ⟨xs, ys ++ stop, rfl, htag, fun rest => ?_⟩
    -- the fuel is taken from all that follows
    refine hinner.takes_skipGroup hstop ?_ rest
    simp only [List.length_append]
    omega

end LiveTables.Wire
