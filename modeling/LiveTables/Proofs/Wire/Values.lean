import LiveTables.Proofs.Wire.RoundTrip

/-!
# Values on the wire

The payload of a value, read as a value of the same kind, is the value (`Value.toValue?_payload`). It fits
into a field as long as a text in it has a length of 64 bits (`Value.Fits.payload`).
-/

namespace LiveTables

open Wire

namespace Wire

/-- The number of a payload of an integer of 64 bits unfolds to the integer. -/
theorem signed_eq {i : Int} (hlo : -2 ^ 63 ≤ i) (hhi : i < 2 ^ 63) :
    ∃ n : UInt64, signed i = .varint n ∧ unzigzag n.toNat = i := by
  have hlt : zigzag i < 2 ^ 64 := by
    unfold zigzag
    split <;> omega
  refine ⟨UInt64.ofNat (zigzag i), rfl, ?_⟩
  rw [UInt64.toNat_ofNat', Nat.mod_eq_of_lt hlt, unzigzag_zigzag]

theorem mantissaOfNat_emod {m : Int} (hlo : -2 ^ 127 ≤ m) (hhi : m < 2 ^ 127) :
    mantissaOfNat (m % 2 ^ 128).toNat = m := by
  unfold mantissaOfNat
  split <;> omega

theorem ofInt?_mantissa (m : Mantissa) : Mantissa.ofInt? m.val = some m := dif_pos m.property

theorem decimalOfBytes?_decimalBytes (d : Decimal) : decimalOfBytes? (decimalBytes d) = some d := by
  have hlen : (littleEndian 16 (d.mantissa.val % 2 ^ 128).toNat).length = 16 := length_littleEndian 16 _
  have hnat : (d.mantissa.val % 2 ^ 128).toNat < 256 ^ 16 := by omega
  have hmantissa : mantissaOfNat (d.mantissa.val % 2 ^ 128).toNat = d.mantissa.val :=
    mantissaOfNat_emod d.mantissa.property.1 d.mantissa.property.2
  have hscale : (UInt8.ofNat d.scale).toNat = d.scale := by
    rw [UInt8.toNat_ofNat']
    have hle := d.scale_le
    omega
  have hdecimal : Decimal.ofMantissa d.mantissa d.scale = .ok d := dif_pos d.scale_le
  simp only [decimalOfBytes?, decimalBytes]
  rw [List.drop_left' hlen, List.take_left' hlen, ofLittleEndian_littleEndian hnat, hmantissa,
    ofInt?_mantissa]
  simp only [hscale, Option.bind_eq_bind, Option.bind_some, hdecimal]
  rfl

theorem stringOfBytes?_toUTF8 (s : String) : stringOfBytes? s.toUTF8.data.toList = some s := by
  show String.fromUTF8? s.toUTF8 = some s
  exact dif_pos s.isValidUTF8

theorem guidOfBytes?_guidBytes (bits : BitVec 128) : guidOfBytes? (guidBytes bits) = some bits := by
  have hlen : (guidBytes bits).length = 16 := by rw [guidBytes, List.length_reverse, length_littleEndian]
  have hnat : bits.toNat < 256 ^ 16 := bits.isLt
  rw [guidOfBytes?, if_pos hlen, guidBytes, List.reverse_reverse, ofLittleEndian_littleEndian hnat,
    BitVec.ofNat_toNat, BitVec.setWidth_eq]

end Wire

open Payload

/-- What is read as a value of its own kind is the value. -/
theorem Value.toValue?_payload (v : Value) : v.payload.toValue? v.kind = some v := by
  cases v with
  | boolean b => cases b <;> rfl
  | byte n =>
    show (if n.toUInt64.toNat < 2 ^ 8 then some (Value.byte n.toUInt64.toUInt8) else none) = _
    rw [UInt8.toNat_toUInt64, if_pos n.toNat_lt, UInt8.toUInt8_toUInt64]
  | char c =>
    have hback : c.val.toUInt64.toUInt32 = c.val := UInt32.toUInt32_toUInt64 c.val
    have hlt : c.val.toUInt64.toNat < 2 ^ 32 := by
      rw [UInt32.toNat_toUInt64]
      exact c.val.toNat_lt
    have hvalid : c.val.toUInt64.toNat < 2 ^ 32 ∧ c.val.toUInt64.toUInt32.isValidChar :=
      ⟨hlt, hback.symm ▸ c.valid⟩
    have hread : (Value.char c).payload.toValue? .char = some (.char ⟨c.val.toUInt64.toUInt32, hvalid.2⟩) :=
      dif_pos hvalid
    rw [kind, hread]
    simp only [hback]
  | int16 n =>
    obtain ⟨hlo, hhi⟩ : -2 ^ 15 ≤ n.toInt ∧ n.toInt < 2 ^ 15 := ⟨n.le_toInt, n.toInt_lt⟩
    obtain ⟨m, hm, hn⟩ := signed_eq (i := n.toInt) (by omega) (by omega)
    simp only [payload, kind, hm, toValue?, hn]
    rw [if_pos ⟨hlo, hhi⟩, Int16.ofInt_toInt]
  | int32 n =>
    obtain ⟨hlo, hhi⟩ : -2 ^ 31 ≤ n.toInt ∧ n.toInt < 2 ^ 31 := ⟨n.le_toInt, n.toInt_lt⟩
    obtain ⟨m, hm, hn⟩ := signed_eq (i := n.toInt) (by omega) (by omega)
    simp only [payload, kind, hm, toValue?, hn]
    rw [if_pos ⟨hlo, hhi⟩, Int32.ofInt_toInt]
  | int64 n | timestamp n | duration n =>
    obtain ⟨m, hm, hn⟩ := signed_eq n.le_toInt n.toInt_lt
    simp only [payload, kind, hm, toValue?, hn, Int64.ofInt_toInt]
  | float32 bits | float64 bits => rfl
  | decimal d =>
    show (decimalOfBytes? (decimalBytes d)).map decimal = _
    rw [decimalOfBytes?_decimalBytes, Option.map_some]
  | string s =>
    show (stringOfBytes? s.toUTF8.data.toList).map string = _
    rw [stringOfBytes?_toUTF8, Option.map_some]
  | guid bits =>
    show (guidOfBytes? (guidBytes bits)).map guid = _
    rw [guidOfBytes?_guidBytes, Option.map_some]

/-- The length of a text fits into a number of 64 bits. -/
def Value.Fits (v : Value) : Prop := ∀ s ∈ v.string?, s.utf8ByteSize < 2 ^ 64

instance (v : Value) : Decidable v.Fits := inferInstanceAs (Decidable (∀ s ∈ v.string?, _))

theorem Value.Fits.payload {v : Value} (h : v.Fits) : v.payload.Fits := by
  cases v with
  | decimal d =>
    show (decimalBytes d).length < 2 ^ 64
    rw [decimalBytes, List.length_append, length_littleEndian, List.length_singleton]
    decide
  | guid bits =>
    show (guidBytes bits).length < 2 ^ 64
    rw [guidBytes, List.length_reverse, length_littleEndian]
    decide
  | string s => exact h s rfl
  | _ => trivial

end LiveTables
