import LiveTables.Proofs.Wire.Prefix

/-!
# Reading what was written

A reading takes certain bytes (`Takes`) if it answers from them and leaves alone what follows, whatever
that is. Bytes that are taken one after the other are taken together (`Takes.bind`), so a reader is proved
right along its own `do`: numbers below `2 ^ 64` (`takes_readVarint`), tags of fields in range
(`takes_readTag`), and payloads (`takes_readPayload`). A number may be spelled in more groups of seven bits than
are written (`IsNumber`), and so may a tag (`IsTag`); they are taken all the same.

Because nothing is said about what follows, it does not matter that the bytes of a value may look like a
tag or like the end of a group: a value is taken by its length, before the next tag is looked at.
-/

namespace LiveTables.Wire

variable {α β : Type} {xs ys : List UInt8}

/-- A reading takes some bytes, whatever follows them, and answers `a`. -/
def Takes (r : Reading α) (bytes : List UInt8) (a : α) : Prop :=
  ∀ rest, r (bytes ++ rest) = .ok a rest

theorem takes_pure (a : α) : Takes (pure a : Reading α) [] a := fun _ => rfl

/-- What two readings take one after the other, they take together. -/
theorem Takes.bind {r : Reading α} {f : α → Reading β} {a : α} {b : β} (hr : Takes r xs a)
    (hf : Takes (f a) ys b) : Takes (r >>= f) (xs ++ ys) b := by
  intro rest
  rw [run_bind, List.append_assoc, hr]
  exact hf rest

/-- A reading may be followed by one that takes nothing. -/
theorem Takes.map {r : Reading α} {f : α → Reading β} {a : α} {b : β} (hr : Takes r xs a)
    (hf : Takes (f a) [] b) : Takes (r >>= f) xs b := by
  have h := hr.bind hf
  rwa [List.append_nil] at h

/-- What is read may be put into another form. -/
theorem Takes.map_pure {r : Reading α} {a : α} (hr : Takes r xs a) (g : α → β) :
    Takes (do return g (← r)) xs (g a) := hr.map (takes_pure _)

/-- A check that is passed takes nothing. -/
theorem Takes.check {p : Prop} [Decidable p] {e : WireError} {r : PUnit → Reading α} {a : α}
    (hp : ¬ p) (hr : Takes (r ⟨⟩) xs a) : Takes (if p then throw e >>= r else r ⟨⟩) xs a := by
  rwa [if_neg hp]

/-! ### Numbers and tags -/

theorem takes_readByte (b : UInt8) : Takes readByte [b] b := fun _ => rfl

/-- A byte without the continuation bit ends a number. -/
theorem takes_readVarintFrom_last {places : Nat} {b : UInt8} (hb : b.toNat < 128)
    (hlast : places = 0 → b.toNat ≤ 1) : Takes (readVarintFrom (places + 1)) [b] b.toNat := by
  refine (takes_readByte b).map ?_
  apply Takes.check
  · omega
  · rw [if_pos hb]
    exact takes_pure _

/-- A byte with the continuation bit stands before the rest of a number. -/
theorem takes_readVarintFrom_cons {places n : Nat} {b : UInt8} (hb : 128 ≤ b.toNat)
    (hplaces : places ≠ 0) (h : Takes (readVarintFrom places) xs n) :
    Takes (readVarintFrom (places + 1)) (b :: xs) (b.toNat - 128 + 128 * n) := by
  refine (takes_readByte b).bind ?_
  apply Takes.check
  · omega
  · rw [if_neg (by omega)]
    exact h.map (takes_pure _)

/-- A number takes a byte at least. -/
theorem varint_ne_nil (n : Nat) : varint n ≠ [] := by
  rw [varint]
  split <;> exact List.cons_ne_nil _ _

/-- The groups of seven bits of a number, the lowest first; all bytes but the last have the continuation bit. -/
inductive Spells : List UInt8 → Nat → Prop
  | last (b : UInt8) (hb : b.toNat < 128) : Spells [b] b.toNat
  | more (b : UInt8) {xs : List UInt8} {n : Nat} (hb : 128 ≤ b.toNat) (h : Spells xs n) :
    Spells (b :: xs) (b.toNat - 128 + 128 * n)

/-- The bytes of a number of 64 bits, in as many groups as there may be. -/
structure IsNumber (bytes : List UInt8) (n : Nat) : Prop where
  spells : Spells bytes n
  length : bytes.length ≤ 10
  lt : n < 2 ^ 64

theorem Spells.length_pos {n : Nat} (h : Spells xs n) : 0 < xs.length := by
  cases h <;> exact Nat.succ_pos _

/-- With room for its groups, a number is read. -/
theorem Spells.takes {places n : Nat} (h : Spells xs n) (hlength : xs.length ≤ places + 1)
    (hn : n < 2 * 128 ^ places) : Takes (readVarintFrom (places + 1)) xs n := by
  induction h generalizing places with
  | last b hb =>
    refine takes_readVarintFrom_last hb fun hplaces => ?_
    rw [hplaces] at hn
    omega
  | more b hb h ih =>
    rw [List.length_cons] at hlength
    obtain ⟨places, rfl⟩ : ∃ k, places = k + 1 := Nat.exists_eq_add_one.2 (by have := h.length_pos; omega)
    refine takes_readVarintFrom_cons hb (Nat.succ_ne_zero places) (ih (by omega) ?_)
    rw [Nat.pow_succ] at hn
    omega

theorem IsNumber.takes {n : Nat} (h : IsNumber xs n) : Takes readVarint xs n :=
  h.spells.takes h.length (by have := h.lt; omega)

theorem spells_varint (n : Nat) : Spells (varint n) n := by
  induction n using varint.induct with
  | case1 n hn =>
    have hbyte : (UInt8.ofNat n).toNat = n := by rw [UInt8.toNat_ofNat']; omega
    have hlast := Spells.last (UInt8.ofNat n) (by omega)
    rw [varint, if_pos hn]
    rwa [hbyte] at hlast
  | case2 n hn ih =>
    have hbyte : (UInt8.ofNat (n % 128 + 128)).toNat = n % 128 + 128 := by rw [UInt8.toNat_ofNat']; omega
    have hmore := Spells.more (UInt8.ofNat (n % 128 + 128)) (by omega) ih
    rw [varint, if_neg hn]
    rwa [hbyte, Nat.add_sub_cancel, Nat.mod_add_div] at hmore

theorem length_varint_le {places n : Nat} (h : n < 128 ^ (places + 1)) : (varint n).length ≤ places + 1 := by
  induction places generalizing n with
  | zero =>
    rw [varint, if_pos (by omega)]
    exact Nat.le_refl 1
  | succ places ih =>
    rw [varint]
    split
    · rw [List.length_singleton]
      omega
    · rw [List.length_cons]
      have hrest := ih (n := n / 128) (by rw [Nat.pow_succ] at h; omega)
      omega

theorem isNumber_varint {n : Nat} (h : n < 2 ^ 64) : IsNumber (varint n) n :=
  ⟨spells_varint n, length_varint_le (by omega), h⟩

theorem takes_readVarint {n : Nat} (h : n < 2 ^ 64) : Takes readVarint (varint n) n := (isNumber_varint h).takes

theorem WireType.ofCode?_code (type : WireType) : ofCode? type.code = some type := by
  cases type <;> rfl

theorem WireType.code_lt (type : WireType) : type.code < 8 := by cases type <;> decide

/-- The bytes of a tag. -/
structure IsTag (bytes : List UInt8) (tag : Nat × WireType) : Prop where
  number : IsNumber bytes (tag.1 * 8 + tag.2.code)
  pos : 0 < tag.1
  le : tag.1 ≤ maxField

theorem IsTag.length_pos {tag : Nat × WireType} (h : IsTag xs tag) : 0 < xs.length := h.number.spells.length_pos

theorem IsTag.takes {tag : Nat × WireType} (h : IsTag xs tag) : Takes readTag xs tag := by
  obtain ⟨number, type⟩ := tag
  have hcode := type.code_lt
  have hmod : (number * 8 + type.code) % 8 = type.code := by omega
  have hdiv : (number * 8 + type.code) / 8 = number := by omega
  have hpos : 0 < number := h.pos
  have hmax : number ≤ maxField := h.le
  refine h.number.takes.map ?_
  rw [hmod, hdiv, WireType.ofCode?_code]
  apply Takes.check
  · omega
  · exact takes_pure _

theorem isTag_tag {number : Nat} (hpos : 0 < number) (hmax : number ≤ maxField) (type : WireType) :
    IsTag (tag number type) (number, type) := by
  have hcode := type.code_lt
  have hle : number ≤ 2 ^ 29 - 1 := hmax
  exact ⟨isNumber_varint (by omega), hpos, hmax⟩

theorem takes_readTag {number : Nat} (hpos : 0 < number) (hmax : number ≤ maxField)
    (type : WireType) : Takes readTag (tag number type) (number, type) := (isTag_tag hpos hmax type).takes

/-! ### Payloads -/

@[simp] theorem length_littleEndian (width n : Nat) : (littleEndian width n).length = width := by
  induction width generalizing n with
  | zero => rfl
  | succ width ih => rw [littleEndian, List.length_cons, ih]

theorem ofLittleEndian_littleEndian {width n : Nat} (h : n < 256 ^ width) :
    ofLittleEndian (littleEndian width n) = n := by
  induction width generalizing n with
  | zero =>
    rw [Nat.pow_zero, Nat.lt_one_iff] at h
    rw [h]
    rfl
  | succ width ih =>
    have hrest : n / 256 < 256 ^ width := by rw [Nat.pow_succ] at h; omega
    have hbyte : (UInt8.ofNat n).toNat = n % 256 := UInt8.toNat_ofNat'
    rw [littleEndian, ofLittleEndian, ih hrest, hbyte, Nat.mod_add_div]

theorem takes_readBytes (bs : List UInt8) : Takes (readBytes bs.length) bs bs := by
  intro rest
  rw [readBytes_of_le (by rw [List.length_append]; omega), List.take_left, List.drop_left]

/-- The length of a payload fits into a number of 64 bits. -/
def Payload.Fits : Payload → Prop
  | bytes bs => bs.length < 2 ^ 64
  | _ => True

theorem takes_readPayload {p : Payload} (h : p.Fits) : Takes (readPayload p.wireType) p.toBytes p := by
  cases p with
  | varint n =>
    have hread : Takes (readPayload .varint) _ _ :=
      (takes_readVarint n.toNat_lt).map_pure fun n => Payload.varint (UInt64.ofNat n)
    rwa [UInt64.ofNat_toNat] at hread
  | fixed64 n =>
    have hbytes := takes_readBytes (littleEndian 8 n.toNat)
    rw [length_littleEndian] at hbytes
    have hread : Takes (readPayload .fixed64) _ _ :=
      hbytes.map_pure fun bs => Payload.fixed64 (UInt64.ofNat (ofLittleEndian bs))
    rwa [ofLittleEndian_littleEndian n.toNat_lt, UInt64.ofNat_toNat] at hread
  | fixed32 n =>
    have hbytes := takes_readBytes (littleEndian 4 n.toNat)
    rw [length_littleEndian] at hbytes
    have hread : Takes (readPayload .fixed32) _ _ :=
      hbytes.map_pure fun bs => Payload.fixed32 (UInt32.ofNat (ofLittleEndian bs))
    rwa [ofLittleEndian_littleEndian n.toNat_lt, UInt32.ofNat_toNat] at hread
  | bytes bs => exact (takes_readVarint h).bind ((takes_readBytes bs).map_pure Payload.bytes)

end LiveTables.Wire
