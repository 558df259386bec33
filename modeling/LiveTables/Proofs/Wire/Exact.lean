import LiveTables.Proofs.Wire.Values

/-!
# Payloads and values, one to one

A payload is read as a value of a kind only if it is the payload of that value: whatever no value of the kind is
written as is refused. With the way back, a kind pairs its values with their payloads
(`Payload.toValue?_eq_some_iff`).

On the wire a payload stands behind a tag. Tags that are read carry field numbers in range, and payloads that are
read have lengths of 64 bits (`readTag_range`, `readPayload_fits`), so a value is read back from its field just
where both are given (`value_exact`).
-/

namespace LiveTables.Wire

variable {xs rest bs : List UInt8}

/-! ## Numbers -/

theorem ofLittleEndian_lt (bs : List UInt8) : ofLittleEndian bs < 256 ^ bs.length := by
  induction bs with
  | nil => exact Nat.one_pos
  | cons b bs ih =>
    have hb : b.toNat < 256 := b.toNat_lt
    rw [ofLittleEndian, List.length_cons, Nat.pow_succ]
    omega

theorem littleEndian_ofLittleEndian (bs : List UInt8) : littleEndian bs.length (ofLittleEndian bs) = bs := by
  induction bs with
  | nil => rfl
  | cons b bs ih =>
    have hb : b.toNat < 256 := b.toNat_lt
    have hlow : UInt8.ofNat (b.toNat + 256 * ofLittleEndian bs) = b := by
      apply UInt8.toNat.inj
      rw [UInt8.toNat_ofNat']
      omega
    have hhigh : (b.toNat + 256 * ofLittleEndian bs) / 256 = ofLittleEndian bs := by omega
    rw [List.length_cons, ofLittleEndian, littleEndian, hlow, hhigh, ih]

/-- A number of 64 bits unfolds to an integer of 64 bits. -/
theorem unzigzag_bounds (n : UInt64) : -2 ^ 63 ≤ unzigzag n.toNat ∧ unzigzag n.toNat < 2 ^ 63 := by
  have hn := n.toNat_lt
  unfold unzigzag
  split <;> omega

theorem signed_unzigzag (n : UInt64) : signed (unzigzag n.toNat) = .varint n := by
  rw [signed, zigzag_unzigzag, UInt64.ofNat_toNat]

theorem emod_mantissaOfNat {n : Nat} (h : n < 2 ^ 128) : (mantissaOfNat n % 2 ^ 128).toNat = n := by
  unfold mantissaOfNat
  split <;> omega

/-! ## Bytes -/

theorem eq_decimalBytes {d : Decimal} (h : decimalOfBytes? bs = some d) : bs = decimalBytes d := by
  rw [decimalOfBytes?] at h
  split at h
  · rename_i scale hscale
    rw [Option.bind_eq_bind, Option.bind_eq_some_iff] at h
    obtain ⟨m, hm, hd⟩ := h
    -- the one byte behind the mantissa shows that the mantissa has all its bytes
    have hlength : (bs.take 16).length = 16 := by
      have hdrop := congrArg List.length hscale
      rw [List.length_drop, List.length_singleton] at hdrop
      rw [List.length_take]
      omega
    have hlt : ofLittleEndian (bs.take 16) < 2 ^ 128 := by
      have hlt := ofLittleEndian_lt (bs.take 16)
      rwa [hlength] at hlt
    have hmantissa : m.val = mantissaOfNat (ofLittleEndian (bs.take 16)) := by
      rw [Mantissa.ofInt?] at hm
      split at hm
      · exact (congrArg Subtype.val (Option.some.inj hm)).symm
      · cases hm
    rw [Decimal.ofMantissa] at hd
    split at hd
    · obtain rfl := Option.some.inj hd
      have hback := littleEndian_ofLittleEndian (bs.take 16)
      rw [hlength] at hback
      rw [decimalBytes, hmantissa, emod_mantissaOfNat hlt, hback, UInt8.ofNat_toNat, ← hscale, List.take_append_drop]
    · cases hd
  · cases h

theorem eq_utf8 {s : String} (h : stringOfBytes? bs = some s) : bs = s.toUTF8.data.toList := by
  rw [stringOfBytes?, String.fromUTF8?] at h
  split at h
  · obtain rfl := Option.some.inj h
    rfl
  · cases h

theorem eq_guidBytes {bits : BitVec 128} (h : guidOfBytes? bs = some bits) : bs = guidBytes bits := by
  rw [guidOfBytes?] at h
  split at h
  · rename_i hlength
    obtain rfl := Option.some.inj h
    have hlt : ofLittleEndian bs.reverse < 2 ^ 128 := by
      have hlt := ofLittleEndian_lt bs.reverse
      rwa [List.length_reverse, hlength] at hlt
    have hback := littleEndian_ofLittleEndian bs.reverse
    rw [List.length_reverse, hlength] at hback
    rw [guidBytes, BitVec.toNat_ofNat, Nat.mod_eq_of_lt hlt, hback, List.reverse_reverse]
  · cases h

end Wire

open Wire Payload

namespace Wire.Payload

variable {k : Kind} {p : Payload} {v : Value}

/-- A number that is read as a value is the number of that value. -/
theorem eq_payload_of_varint {n : UInt64} (h : (varint n).toValue? k = some v) :
    v.kind = k ∧ varint n = v.payload := by
  cases k with
  | boolean =>
    simp only [toValue?] at h
    split at h
    · rename_i hzero
      obtain rfl := Option.some.inj h
      exact ⟨rfl, congrArg varint hzero⟩
    · split at h
      · rename_i hone
        obtain rfl := Option.some.inj h
        exact ⟨rfl, congrArg varint hone⟩
      · cases h
  | byte =>
    simp only [toValue?] at h
    split at h
    · rename_i hlt
      obtain rfl := Option.some.inj h
      have hback : n.toUInt8.toUInt64 = n := by
        apply UInt64.toNat_inj.1
        rw [UInt8.toNat_toUInt64, UInt64.toNat_toUInt8, Nat.mod_eq_of_lt hlt]
      exact ⟨rfl, congrArg varint hback.symm⟩
    · cases h
  | char =>
    simp only [toValue?] at h
    split at h
    · rename_i hvalid
      obtain rfl := Option.some.inj h
      have hback : n.toUInt32.toUInt64 = n := by
        apply UInt64.toNat_inj.1
        rw [UInt32.toNat_toUInt64, UInt64.toNat_toUInt32, Nat.mod_eq_of_lt hvalid.1]
      exact ⟨rfl, congrArg varint hback.symm⟩
    · cases h
  | int16 =>
    simp only [toValue?] at h
    split at h
    · rename_i hbounds
      obtain rfl := Option.some.inj h
      refine ⟨rfl, ?_⟩
      rw [Value.payload, Int16.toInt_ofInt_of_le hbounds.1 hbounds.2, signed_unzigzag]
    · cases h
  | int32 =>
    simp only [toValue?] at h
    split at h
    · rename_i hbounds
      obtain rfl := Option.some.inj h
      refine ⟨rfl, ?_⟩
      rw [Value.payload, Int32.toInt_ofInt_of_le hbounds.1 hbounds.2, signed_unzigzag]
    · cases h
  | int64 | timestamp | duration =>
    obtain ⟨hlo, hhi⟩ := unzigzag_bounds n
    obtain rfl := Option.some.inj h
    refine ⟨rfl, ?_⟩
    rw [Value.payload, Int64.toInt_ofInt_of_le hlo hhi, signed_unzigzag]
  | _ => cases h

/-- Bytes that are read as a value are the bytes of that value. -/
theorem eq_payload_of_bytes {bs : List UInt8} (h : (bytes bs).toValue? k = some v) :
    v.kind = k ∧ bytes bs = v.payload := by
  cases k with
  | decimal =>
    obtain ⟨d, hd, rfl⟩ := Option.map_eq_some_iff.1 h
    exact ⟨rfl, congrArg bytes (eq_decimalBytes hd)⟩
  | string =>
    obtain ⟨s, hs, rfl⟩ := Option.map_eq_some_iff.1 h
    exact ⟨rfl, congrArg bytes (eq_utf8 hs)⟩
  | guid =>
    obtain ⟨bits, hbits, rfl⟩ := Option.map_eq_some_iff.1 h
    exact ⟨rfl, congrArg bytes (eq_guidBytes hbits)⟩
  | _ => cases h

/-- The values of a kind and the payloads that are read as one correspond one to one. -/
theorem toValue?_eq_some_iff : p.toValue? k = some v ↔ v.kind = k ∧ p = v.payload := by
  constructor
  · intro h
    cases p with
    | varint n => exact eq_payload_of_varint h
    | bytes bs => exact eq_payload_of_bytes h
    | fixed64 n =>
      cases k with
      | float64 =>
        obtain rfl := Option.some.inj h
        exact ⟨rfl, rfl⟩
      | _ => cases h
    | fixed32 n =>
      cases k with
      | float32 =>
        obtain rfl := Option.some.inj h
        exact ⟨rfl, rfl⟩
      | _ => cases h
  · rintro ⟨rfl, rfl⟩
    exact v.toValue?_payload

end Wire.Payload

/-! ## What is read from the wire -/

namespace Wire

variable {α : Type} {a : α} {xs rest bs : List UInt8} {number n places : Nat} {type : WireType} {p : Payload}

/-- What is read behind a check has passed it. -/
theorem of_run_check {c : Prop} [Decidable c] {e : WireError} {r : PUnit → Reading α}
    (h : (if c then throw e >>= r else r ⟨⟩) xs = .ok a rest) : ¬ c ∧ r ⟨⟩ xs = .ok a rest := by
  split at h
  · cases h
  · rename_i hc
    exact ⟨hc, h⟩

/-- A number that is read fits into the groups that there is room for, the last of which has one bit. -/
theorem readVarintFrom_lt (h : readVarintFrom (places + 1) xs = .ok n rest) : n < 2 * 128 ^ places := by
  induction places generalizing xs n with
  | zero =>
    obtain ⟨b, mid, -, h⟩ := of_run_bind h
    obtain ⟨hlast, h⟩ := of_run_check h
    have hbit : b.toNat ≤ 1 := Nat.le_of_not_lt fun hb => hlast ⟨rfl, hb⟩
    rw [if_pos (by omega)] at h
    cases h
    omega
  | succ places ih =>
    obtain ⟨b, mid, -, h⟩ := of_run_bind h
    obtain ⟨-, h⟩ := of_run_check h
    rw [Nat.pow_succ]
    split at h
    · cases h
      have hpos : 0 < 128 ^ places := Nat.pow_pos (by decide)
      omega
    · obtain ⟨m, mid', hm, h⟩ := of_run_bind h
      cases h
      have hb := b.toNat_lt
      have hrest := ih hm
      omega

theorem readVarint_lt (h : readVarint xs = .ok n rest) : n < 2 ^ 64 := readVarintFrom_lt h

/-- A tag that is read has a field number in range. -/
theorem readTag_range (h : readTag xs = .ok (number, type) rest) : 0 < number ∧ number ≤ maxField := by
  obtain ⟨n, mid, -, h⟩ := of_run_bind h
  cases htype : WireType.ofCode? (n % 8) with
  | none =>
    rw [htype] at h
    cases h
  | some type' =>
    rw [htype] at h
    obtain ⟨hrange, h⟩ := of_run_check h
    cases h
    omega

theorem length_of_readBytes {len : Nat} (h : readBytes len xs = .ok bs rest) : bs.length = len := by
  rcases Nat.lt_or_ge xs.length len with hlt | hle
  · rw [readBytes_of_lt hlt] at h
    cases h
  · rw [readBytes_of_le hle] at h
    cases h
    exact List.length_take_of_le hle

/-- A payload that is read has a length of 64 bits. -/
theorem readPayload_fits (h : readPayload type xs = .ok p rest) : p.Fits := by
  cases type with
  | bytes =>
    obtain ⟨len, mid, hlen, h⟩ := of_run_bind h
    obtain ⟨bs, mid', hbs, h⟩ := of_run_bind h
    cases h
    show bs.length < 2 ^ 64
    rw [length_of_readBytes hbs]
    exact readVarint_lt hlen
  | varint | fixed64 | fixed32 =>
    obtain ⟨a, mid, -, h⟩ := of_run_bind h
    cases h
    trivial
  | startGroup | endGroup => cases h

/-- Reads a tag and the payload behind it. -/
def readWhole : Reading (Nat × Payload) := do
  let (number, type) ← readTag
  return (number, ← readPayload type)

/-- A field is read back, whatever follows it, just where its number is in range and its length is of 64 bits. -/
theorem takes_readWhole :
    Takes readWhole (field number p) (number, p) ↔ (0 < number ∧ number ≤ maxField) ∧ p.Fits := by
  constructor
  · intro h
    obtain ⟨⟨number', type⟩, mid, htag, h⟩ := of_run_bind (h [])
    obtain ⟨p', mid', hp, h⟩ := of_run_bind h
    cases h
    exact ⟨readTag_range htag, readPayload_fits hp⟩
  · rintro ⟨⟨hpos, hmax⟩, hfits⟩
    exact (takes_readTag hpos hmax p.wireType).bind ((takes_readPayload hfits).map_pure (Prod.mk number))

end Wire

theorem Value.fits_payload {v : Value} : v.payload.Fits ↔ v.Fits := by
  refine ⟨fun h => ?_, Value.Fits.payload⟩
  rintro s hs
  cases v with
  | string t =>
    obtain rfl := Option.some.inj hs
    exact h
  | _ => cases hs

/-- A payload is read as a value of a kind just where it is the payload of that value and the value is of the kind.
Behind the tag of a field, the payload is read back with the number of the field, and what follows is left alone,
just where the number is in range and a text has a length of 64 bits. -/
theorem value_exact (k : Kind) (p : Payload) (v : Value) (number : Nat) :
    (p.toValue? k = some v ↔ v.kind = k ∧ p = v.payload) ∧
      ((∀ rest, readWhole (field number v.payload ++ rest) = .ok (number, v.payload) rest) ↔
        (0 < number ∧ number ≤ maxField) ∧ v.Fits) := by
  refine ⟨toValue?_eq_some_iff, ?_⟩
  rw [← Value.fits_payload]
  exact takes_readWhole

end LiveTables
