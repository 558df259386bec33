import LiveTables.Proofs.Wire.Exact

/-!
# Integers of different kinds at the two ends

An integer is written as a number of its own, the kind of the sender says which (`Value.payload_of_integer?`):
a byte as it is, the others folded. The receiver reads the number by its own kind, and so by its own way of
writing, not the sender's.

Between bytes, and between the other kinds of whatever width, both ways are the same, and what is read is the integer
that was sent, as long as it is one of the receiver's kind. Between a byte and one of the others they agree
on zero only. The integer is then lost, or another one is read in its place, unless it is none of a byte's and what
is written for it is none either (`integer_kept_iff`).
-/

namespace LiveTables

open Wire

variable {k : Kind} {i j : Int} {v w : Value}

/-! ## Integers of a kind -/

/-- The integer that a value of an integer kind stands for. -/
def Value.integer? (v : Value) : Option Int := v.int64?.map Int64.toInt

/-- The integers that a kind has. -/
def Kind.Has : Kind → Int → Prop
  | byte, i => 0 ≤ i ∧ i < 2 ^ 8
  | int16, i => -2 ^ 15 ≤ i ∧ i < 2 ^ 15
  | int32, i => -2 ^ 31 ≤ i ∧ i < 2 ^ 31
  | int64, i => -2 ^ 63 ≤ i ∧ i < 2 ^ 63
  | _, _ => False

/-- The number that an integer of the kind is written as. -/
def Kind.code (k : Kind) (i : Int) : Nat := if k = byte then i.toNat else zigzag i

namespace Value

theorem integer?_byte (n : UInt8) : (byte n).integer? = some (n.toNat : Int) := by
  have hn := n.toNat_lt
  rw [integer?, int64?, Option.map_some, Int64.toInt_ofInt_of_le (by omega) (by omega)]

theorem integer?_int16 (n : Int16) : (int16 n).integer? = some n.toInt := by
  rw [integer?, int64?, Option.map_some, Int16.toInt_toInt64]

theorem integer?_int32 (n : Int32) : (int32 n).integer? = some n.toInt := by
  rw [integer?, int64?, Option.map_some, Int32.toInt_toInt64]

theorem integer?_int64 (n : Int64) : (int64 n).integer? = some n.toInt := rfl

/-- A kind has the integers of its values. -/
theorem has_of_integer? (h : v.integer? = some i) : v.kind.Has i := by
  cases v with
  | byte n =>
    rw [integer?_byte] at h
    obtain rfl := Option.some.inj h
    exact ⟨Int.natCast_nonneg _, Int.ofNat_lt.2 n.toNat_lt⟩
  | int16 n =>
    rw [integer?_int16] at h
    obtain rfl := Option.some.inj h
    exact ⟨n.le_toInt, n.toInt_lt⟩
  | int32 n =>
    rw [integer?_int32] at h
    obtain rfl := Option.some.inj h
    exact ⟨n.le_toInt, n.toInt_lt⟩
  | int64 n =>
    obtain rfl := Option.some.inj h
    exact ⟨n.le_toInt, n.toInt_lt⟩
  | _ => cases h

/-- An integer that a kind has is that of one of its values. -/
theorem exists_of_has (h : k.Has i) : ∃ v : Value, v.kind = k ∧ v.integer? = some i := by
  cases k with
  | byte =>
    obtain ⟨hlo, hhi⟩ := h
    refine ⟨.byte (UInt8.ofNat i.toNat), rfl, ?_⟩
    rw [integer?_byte, UInt8.toNat_ofNat', Nat.mod_eq_of_lt (by omega), Int.toNat_of_nonneg hlo]
  | int16 => exact ⟨.int16 (Int16.ofInt i), rfl, by rw [integer?_int16, Int16.toInt_ofInt_of_le h.1 h.2]⟩
  | int32 => exact ⟨.int32 (Int32.ofInt i), rfl, by rw [integer?_int32, Int32.toInt_ofInt_of_le h.1 h.2]⟩
  | int64 => exact ⟨.int64 (Int64.ofInt i), rfl, by rw [integer?_int64, Int64.toInt_ofInt_of_le h.1 h.2]⟩
  | _ => exact h.elim

/-- The payload of an integer is the number that its kind writes it as. -/
theorem payload_of_integer? (h : v.integer? = some i) : v.payload = .varint (UInt64.ofNat (v.kind.code i)) := by
  cases v with
  | byte n =>
    rw [integer?_byte] at h
    obtain rfl := Option.some.inj h
    have hsame : n.toUInt64 = UInt64.ofNat n.toNat := by
      apply UInt64.toNat_inj.1
      rw [UInt8.toNat_toUInt64, UInt64.toNat_ofNat', Nat.mod_eq_of_lt (Nat.lt_trans n.toNat_lt (by decide))]
    exact congrArg Payload.varint hsame
  | int16 n =>
    rw [integer?_int16] at h
    obtain rfl := Option.some.inj h
    rfl
  | int32 n =>
    rw [integer?_int32] at h
    obtain rfl := Option.some.inj h
    rfl
  | int64 n =>
    obtain rfl := Option.some.inj h
    rfl
  | _ => cases h

end Value

/-! ## What is read for what is written -/

namespace Kind

@[simp] theorem code_byte (i : Int) : byte.code i = i.toNat := if_pos rfl

theorem code_of_ne_byte (hk : k ≠ byte) (i : Int) : k.code i = zigzag i := if_neg hk

/-- An integer is written as a number of 64 bits. -/
theorem code_lt (h : k.Has i) : k.code i < 2 ^ 64 := by
  unfold code zigzag
  cases k with
  | byte | int16 | int32 | int64 =>
    simp only [Has] at h
    split
    · omega
    · split <;> omega
  | _ => exact h.elim

/-- A byte is an integer of every kind. -/
theorem has_of_byte (hk : k.isInteger) (h : byte.Has i) : k.Has i := by
  simp only [Has] at h
  cases k with
  | byte | int16 | int32 | int64 =>
    simp only [Has]
    omega
  | _ => cases hk

/-- Between bytes, and between the other kinds, an integer is written as the number of no other. -/
theorem code_injective {k k' : Kind} (hk : k = byte ↔ k' = byte) (hi : k.Has i) (hj : k'.Has j) :
    k.code i = k'.code j ↔ j = i := by
  by_cases hb : k = byte
  · obtain rfl := hb
    obtain rfl := hk.1 rfl
    simp only [Has] at hi hj
    simp only [code_byte]
    omega
  · rw [code_of_ne_byte hb, code_of_ne_byte (mt hk.2 hb)]
    refine ⟨fun h => ?_, fun h => by rw [h]⟩
    rw [← unzigzag_zigzag i, h, unzigzag_zigzag]

/-- For a byte, a kind that folds its integers writes the number of another, unless it is zero. -/
theorem byte_code_iff (hk : k.isInteger) (hb : k ≠ byte) (hi : byte.Has i) :
    (∀ j, k.Has j → (byte.code i = k.code j ↔ j = i)) ↔ i = 0 := by
  simp only [code_byte, code_of_ne_byte hb, zigzag]
  constructor
  · intro h
    have hsame := (h i (has_of_byte hk hi)).2 rfl
    simp only [Has] at hi
    split at hsame <;> omega
  · rintro rfl j -
    split <;> omega

/-- A kind that folds its integers writes the number of a byte for some, and of that same byte for zero only. -/
theorem code_byte_iff (hb : k ≠ byte) :
    (∀ j, byte.Has j → (k.code i = byte.code j ↔ j = i)) ↔ i = 0 ∨ i < -2 ^ 7 ∨ 2 ^ 8 ≤ i := by
  simp only [code_byte, code_of_ne_byte hb, zigzag, Has]
  constructor
  · intro h
    -- a byte that differs from the integer it is written as, or that is read for it
    refine Decidable.byContradiction fun hout => ?_
    by_cases hpos : 0 ≤ i
    · have hsent := (h i (by omega)).2 rfl
      rw [if_pos hpos] at hsent
      omega
    · have hread := (h (-2 * i - 1) (by omega)).1
      rw [if_neg hpos] at hread
      omega
  · intro h j hj
    split <;> omega

end Kind

namespace Value

/-- Two integers have one payload just where their kinds write them as one number. -/
theorem payload_eq_iff (hv : v.integer? = some i) (hw : w.integer? = some j) :
    v.payload = w.payload ↔ v.kind.code i = w.kind.code j := by
  rw [payload_of_integer? hv, payload_of_integer? hw, Payload.varint.injEq]
  constructor
  · intro h
    have hnat := congrArg UInt64.toNat h
    rwa [UInt64.toNat_ofNat', UInt64.toNat_ofNat', Nat.mod_eq_of_lt (Kind.code_lt (has_of_integer? hv)),
      Nat.mod_eq_of_lt (Kind.code_lt (has_of_integer? hw))] at hnat
  · intro h
    rw [h]

/-- What a receiver makes of an integer: the value of its own kind that it would write as the same number. -/
theorem toValue?_of_integer? (hv : v.integer? = some i) (hk : k.isInteger) :
    v.payload.toValue? k = some w ↔ w.kind = k ∧ ∃ j, w.integer? = some j ∧ v.kind.code i = k.code j := by
  rw [Payload.toValue?_eq_some_iff]
  refine and_congr_right fun hkind => ?_
  obtain rfl := hkind
  obtain ⟨j, hj⟩ : ∃ j, w.integer? = some j := by
    cases w with
    | byte | int16 | int32 | int64 => exact ⟨_, rfl⟩
    | _ => cases hk
  rw [payload_eq_iff hv hj, hj]
  simp only [Option.some.injEq, exists_eq_left']

end Value

/-- An integer of any kind is read as the same integer of another, if that has it, and as nothing otherwise, just where
both or neither of the kinds are bytes, or the integer is zero, or it is sent to a byte from outside the range of a
signed and of an unsigned byte. -/
theorem integer_kept_iff (hv : v.integer? = some i) (hk : k.isInteger) :
    (∀ w : Value, v.payload.toValue? k = some w ↔ w.kind = k ∧ w.integer? = some i) ↔
      (v.kind = .byte ↔ k = .byte) ∨ i = 0 ∨ (k = .byte ∧ (i < -2 ^ 7 ∨ 2 ^ 8 ≤ i)) := by
  -- the kinds agree on an integer if they write no other as the number of it
  have hcodes : (∀ w : Value, v.payload.toValue? k = some w ↔ w.kind = k ∧ w.integer? = some i) ↔
      ∀ j, k.Has j → (v.kind.code i = k.code j ↔ j = i) := by
    constructor
    · intro h j hj
      obtain ⟨w, rfl, hw⟩ := Value.exists_of_has hj
      have hread := h w
      rw [Value.toValue?_of_integer? hv hk, hw] at hread
      simpa using hread
    · intro h w
      rw [Value.toValue?_of_integer? hv hk]
      refine and_congr_right fun hkind => ?_
      obtain rfl := hkind
      constructor
      · rintro ⟨j, hj, hcode⟩
        rwa [← (h j (Value.has_of_integer? hj)).1 hcode]
      · intro hi
        exact ⟨i, hi, (h i (Value.has_of_integer? hi)).2 rfl⟩
  rw [hcodes]
  have hi := Value.has_of_integer? hv
  by_cases hsame : v.kind = .byte ↔ k = .byte
  · exact iff_of_true (fun j hj => Kind.code_injective hsame hi hj) (.inl hsame)
  · by_cases hb : v.kind = .byte
    · have hk' : k ≠ .byte := fun h => hsame (iff_of_true hb h)
      rw [hb] at hi ⊢
      rw [Kind.byte_code_iff hk hk' hi]
      simp [hk']
    · have hk' : k = .byte := Decidable.byContradiction fun h => hsame (iff_of_false hb h)
      rw [hk', Kind.code_byte_iff hb]
      simp [hb]

/-- A long integer is read as the same short one. -/
theorem integer_kept_short : (Value.int64 (-7)).integer? = some (-7) ∧ Kind.int16.isInteger ∧
    ∀ w : Value, (Value.int64 (-7)).payload.toValue? .int16 = some w ↔ w.kind = .int16 ∧ w.integer? = some (-7) :=
  ⟨by decide, rfl, (integer_kept_iff (by decide) rfl).2 (.inl (by decide))⟩

/-- What is sent by a byte is not always read as the same integer of more bits: 1 is read as -1. -/
theorem not_integer_kept_byte : ¬ ∀ (v : Value) (k : Kind) (i : Int), v.integer? = some i → k.isInteger →
    ∀ w : Value, v.payload.toValue? k = some w ↔ w.kind = k ∧ w.integer? = some i := by
  intro h
  have hkept := (h (.byte 1) .int16 1 (by decide) rfl (.int16 1)).2 (by decide)
  have hread : (Value.byte 1).payload.toValue? .int16 = some (.int16 (-1)) := by decide
  rw [hread] at hkept
  exact absurd hkept (by decide)

end LiveTables
