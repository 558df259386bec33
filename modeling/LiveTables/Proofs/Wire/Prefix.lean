import LiveTables.Wire.Reader

/-!
# Readings of a cut input

A reading that sees only the front `xs` of an input `xs ++ ys` may say that the input ends early.
Whatever else it answers, a result or an error, it also answers on the whole input, and leaves `ys`
behind what it left of `xs` (`Continues`). A reading is made of smaller ones by `bind`, so this goes
from the bytes up to the groups (`Continues.bind`).

A group is read with fuel taken from the length of the input, and so with different fuel on `xs` and
on `xs ++ ys`. That neither runs out comes from the bytes that each field takes
(`readTag_shortens`).
-/

namespace LiveTables.Wire

variable {α β : Type} {xs ys rest : List UInt8}

/-- The answers of two readings, the second of which has `ys` more to read. -/
inductive Continues (ys : List UInt8) : EStateM.Result WireError (List UInt8) α →
    EStateM.Result WireError (List UInt8) α → Prop
  | ok (a : α) (rest : List UInt8) : Continues ys (.ok a rest) (.ok a (rest ++ ys))
  | error (e : WireError) (rest : List UInt8) : Continues ys (.error e rest) (.error e (rest ++ ys))
  | truncated (rest : List UInt8) (answer : EStateM.Result WireError (List UInt8) α) :
    Continues ys (.error .truncated rest) answer

/-- A reading followed by another answers from its own answer. -/
theorem run_bind (r : Reading α) (f : α → Reading β) (xs : List UInt8) :
    (r >>= f) xs =
      match r xs with
      | .ok a rest => f a rest
      | .error e rest => .error e rest := by
  show EStateM.bind r f xs = _
  unfold EStateM.bind
  cases r xs <;> rfl

/-- Two readings one after the other continue where each of them does. -/
theorem Continues.bind {r r' : Reading α} {f f' : α → Reading β} {xs' : List UInt8}
    (hr : Continues ys (r xs) (r' xs'))
    (hf : ∀ a rest, r xs = .ok a rest → Continues ys (f a rest) (f' a (rest ++ ys))) :
    Continues ys ((r >>= f) xs) ((r' >>= f') xs') := by
  rw [run_bind, run_bind]
  cases hx : r xs with
  | ok a rest =>
    rw [hx] at hr
    generalize r' xs' = answer at hr ⊢
    cases hr
    exact hf a rest hx
  | error e rest =>
    rw [hx] at hr
    generalize r' xs' = answer at hr ⊢
    cases hr with
    | error => exact .error e rest
    | truncated => exact .truncated rest _

/-- A reading that looks at what there is to read goes on with more of it on the one side. -/
theorem Continues.get_bind {f : List UInt8 → Reading α}
    (h : Continues ys (f xs xs) (f (xs ++ ys) (xs ++ ys))) :
    Continues ys ((get >>= f) xs) ((get >>= f) (xs ++ ys)) := h

/-- A reading that reads the same way whatever follows the input. -/
def Stable (r : Reading α) : Prop := ∀ ys xs, Continues ys (r xs) (r (xs ++ ys))

theorem stable_pure (a : α) : Stable (pure a : Reading α) := fun _ xs => .ok a xs

theorem stable_throw (e : WireError) : Stable (throw e : Reading α) := fun _ xs => .error e xs

theorem Stable.bind {r : Reading α} {f : α → Reading β} (hr : Stable r) (hf : ∀ a, Stable (f a)) :
    Stable (r >>= f) :=
  fun ys xs => Continues.bind (hr ys xs) fun a rest _ => hf a ys rest

theorem Stable.ite {p : Prop} [Decidable p] {r r' : Reading α} (hr : Stable r) (hr' : Stable r') :
    Stable (if p then r else r') := by
  split
  · exact hr
  · exact hr'

/-- A check before a reading, as `do` puts it. -/
theorem Stable.check {p : Prop} [Decidable p] (e : WireError) {r : PUnit → Reading α}
    (hr : Stable (r ⟨⟩)) : Stable (if p then throw e >>= r else r ⟨⟩) :=
  .ite (fun _ xs => .error e xs) hr

/-! ### How much a reading takes -/

/-- A reading that leaves no more than it was given. -/
def Shortens (r : Reading α) : Prop := ∀ xs a rest, r xs = .ok a rest → rest.length ≤ xs.length

/-- A reading followed by another that answers has itself answered first. -/
theorem of_run_bind {r : Reading α} {f : α → Reading β} {b : β} (h : (r >>= f) xs = .ok b rest) :
    ∃ a mid, r xs = .ok a mid ∧ f a mid = .ok b rest := by
  rw [run_bind] at h
  cases hx : r xs with
  | ok a mid => exact ⟨a, mid, rfl, by rwa [hx] at h⟩
  | error e mid => rw [hx] at h; cases h

theorem shortens_pure (a : α) : Shortens (pure a : Reading α) := by
  intro xs a rest h
  cases h
  exact Nat.le_refl _

theorem shortens_throw (e : WireError) : Shortens (throw e : Reading α) := by
  intro xs a rest h
  cases h

theorem Shortens.bind {r : Reading α} {f : α → Reading β} (hr : Shortens r)
    (hf : ∀ a, Shortens (f a)) : Shortens (r >>= f) := by
  intro xs b rest h
  obtain ⟨a, mid, hx, hb⟩ := of_run_bind h
  exact Nat.le_trans (hf a mid b rest hb) (hr xs a mid hx)

theorem Shortens.ite {p : Prop} [Decidable p] {r r' : Reading α} (hr : Shortens r)
    (hr' : Shortens r') : Shortens (if p then r else r') := by
  split
  · exact hr
  · exact hr'

theorem Shortens.check {p : Prop} [Decidable p] (e : WireError) {r : PUnit → Reading α}
    (hr : Shortens (r ⟨⟩)) : Shortens (if p then throw e >>= r else r ⟨⟩) :=
  .ite (fun _ _ _ h => by cases h) hr

/-! ### Bytes, numbers and tags -/

theorem stable_readByte : Stable readByte := by
  intro ys xs
  cases xs with
  | nil => exact .truncated [] _
  | cons b bs => exact .ok b bs

theorem readByte_shortens {b : UInt8} (h : readByte xs = .ok b rest) :
    rest.length < xs.length := by
  cases xs with
  | nil => cases h
  | cons c bs =>
    cases h
    exact Nat.lt_succ_self _

theorem shortens_readByte : Shortens readByte := fun _ _ _ h => Nat.le_of_lt (readByte_shortens h)

theorem stable_readVarintFrom (places : Nat) : Stable (readVarintFrom places) := by
  induction places with
  | zero => exact stable_throw _
  | succ places ih =>
    refine stable_readByte.bind fun b => ?_
    -- The last byte may not be too large, and a byte below 128 ends the number.
    apply Stable.check
    exact .ite (stable_pure _) (ih.bind fun _ => stable_pure _)

theorem shortens_readVarintFrom (places : Nat) : Shortens (readVarintFrom places) := by
  induction places with
  | zero => exact shortens_throw _
  | succ places ih =>
    refine shortens_readByte.bind fun b => ?_
    apply Shortens.check
    exact .ite (shortens_pure _) (ih.bind fun _ => shortens_pure _)

theorem stable_readVarint : Stable readVarint := stable_readVarintFrom 10

theorem shortens_readVarint : Shortens readVarint := shortens_readVarintFrom 10

/-- A number takes a byte at least. -/
theorem readVarint_shortens {n : Nat} (h : readVarint xs = .ok n rest) :
    rest.length < xs.length := by
  obtain ⟨b, mid, hb, hrest⟩ := of_run_bind h
  have hmid : mid.length < xs.length := readByte_shortens hb
  have hle : rest.length ≤ mid.length := by
    refine Shortens.check _ ?_ mid n rest hrest
    exact .ite (shortens_pure _) ((shortens_readVarintFrom 9).bind fun _ => shortens_pure _)
  omega

theorem stable_readTag : Stable readTag := by
  refine stable_readVarint.bind fun n => ?_
  cases WireType.ofCode? (n % 8) with
  | none => exact stable_throw _
  | some type =>
    apply Stable.check
    exact stable_pure _

/-- A tag takes a byte at least. -/
theorem readTag_shortens {tag : Nat × WireType} (h : readTag xs = .ok tag rest) :
    rest.length < xs.length := by
  obtain ⟨n, mid, hn, hrest⟩ := of_run_bind h
  have hmid : mid.length < xs.length := readVarint_shortens hn
  have hle : rest.length ≤ mid.length := by
    cases htype : WireType.ofCode? (n % 8) with
    | none =>
      rw [htype] at hrest
      exact shortens_throw _ mid tag rest hrest
    | some type =>
      rw [htype] at hrest
      refine Shortens.check _ ?_ mid tag rest hrest
      exact shortens_pure _
  omega

/-! ### Payloads -/

theorem readBytes_of_lt {len : Nat} (h : xs.length < len) :
    readBytes len xs = .error .truncated xs := by
  show (if xs.length < len then _ else _ : Reading (List UInt8)) xs = _
  rw [if_pos h]
  rfl

theorem readBytes_of_le {len : Nat} (h : len ≤ xs.length) :
    readBytes len xs = .ok (xs.take len) (xs.drop len) := by
  show (if xs.length < len then _ else _ : Reading (List UInt8)) xs = _
  rw [if_neg (by omega)]
  rfl

theorem stable_readBytes (len : Nat) : Stable (readBytes len) := by
  intro ys xs
  rcases Nat.lt_or_ge xs.length len with h | h
  · rw [readBytes_of_lt h]
    exact .truncated xs _
  · have hall : len ≤ (xs ++ ys).length := by rw [List.length_append]; omega
    rw [readBytes_of_le h, readBytes_of_le hall, List.take_append_of_le_length h,
      List.drop_append_of_le_length h]
    exact .ok _ _

theorem shortens_readBytes (len : Nat) : Shortens (readBytes len) := by
  intro xs bs rest h
  rcases Nat.lt_or_ge xs.length len with hlt | hle
  · rw [readBytes_of_lt hlt] at h
    cases h
  · rw [readBytes_of_le hle] at h
    cases h
    rw [List.length_drop]
    omega

theorem stable_readPayload (type : WireType) : Stable (readPayload type) := by
  cases type with
  | varint => exact stable_readVarint.bind fun _ => stable_pure _
  | fixed64 => exact (stable_readBytes 8).bind fun _ => stable_pure _
  | fixed32 => exact (stable_readBytes 4).bind fun _ => stable_pure _
  | bytes =>
    exact stable_readVarint.bind fun len => (stable_readBytes len).bind fun _ => stable_pure _
  | startGroup => exact stable_throw _
  | endGroup => exact stable_throw _

theorem shortens_readPayload (type : WireType) : Shortens (readPayload type) := by
  cases type with
  | varint => exact shortens_readVarint.bind fun _ => shortens_pure _
  | fixed64 => exact (shortens_readBytes 8).bind fun _ => shortens_pure _
  | fixed32 => exact (shortens_readBytes 4).bind fun _ => shortens_pure _
  | bytes =>
    exact shortens_readVarint.bind fun len => (shortens_readBytes len).bind fun _ => shortens_pure _
  | startGroup => exact shortens_throw _
  | endGroup => exact shortens_throw _

/-! ### Groups -/

theorem shortens_skipGroup (fuel field : Nat) : Shortens (skipGroup fuel field) := by
  induction fuel generalizing field with
  | zero => exact shortens_throw _
  | succ fuel ih =>
    refine Shortens.bind (fun xs tag rest h => Nat.le_of_lt (readTag_shortens h)) fun ⟨inner, type⟩ => ?_
    cases type with
    | endGroup => exact .ite (shortens_throw _) (shortens_pure _)
    | startGroup => exact (ih inner).bind fun _ => ih field
    | varint => exact (shortens_readPayload .varint).bind fun _ => ih field
    | fixed64 => exact (shortens_readPayload .fixed64).bind fun _ => ih field
    | bytes => exact (shortens_readPayload .bytes).bind fun _ => ih field
    | fixed32 => exact (shortens_readPayload .fixed32).bind fun _ => ih field

/-- With more fuel than bytes on either side, a group is skipped in the same way. -/
theorem continues_skipGroup {fuel fuel' field : Nat} (hfuel : xs.length < fuel)
    (hfuel' : (xs ++ ys).length < fuel') :
    Continues ys (skipGroup fuel field xs) (skipGroup fuel' field (xs ++ ys)) := by
  induction fuel generalizing fuel' field xs with
  | zero => omega
  | succ fuel ih =>
    obtain ⟨fuel', rfl⟩ : ∃ n, fuel' = n + 1 := ⟨fuel' - 1, by omega⟩
    refine Continues.bind (stable_readTag ys xs) fun tag rest htag => ?_
    -- What the tag leaves is shorter, on both sides, and so is all that is left later.
    have hshort : rest.length < xs.length := readTag_shortens htag
    have hgo : ∀ {field' : Nat} {zs : List UInt8}, zs.length ≤ rest.length →
        Continues ys (skipGroup fuel field' zs) (skipGroup fuel' field' (zs ++ ys)) := by
      intro field' zs hzs
      refine ih (by omega) ?_
      rw [List.length_append] at hfuel' ⊢
      omega
    have hpayload (type : WireType) :
        Continues ys ((readPayload type >>= fun _ => skipGroup fuel field) rest)
          ((readPayload type >>= fun _ => skipGroup fuel' field) (rest ++ ys)) :=
      Continues.bind (stable_readPayload type ys rest) fun a zs hzs =>
        hgo (shortens_readPayload type rest a zs hzs)
    obtain ⟨inner, type⟩ := tag
    cases type with
    | endGroup => exact Stable.ite (stable_throw _) (stable_pure _) ys rest
    | startGroup =>
      exact Continues.bind (hgo (Nat.le_refl _)) fun _ zs hzs =>
        hgo (shortens_skipGroup fuel inner rest _ zs hzs)
    | varint => exact hpayload .varint
    | fixed64 => exact hpayload .fixed64
    | bytes => exact hpayload .bytes
    | fixed32 => exact hpayload .fixed32

theorem shortens_skip (field : Nat) (type : WireType) : Shortens (skip field type) := by
  cases type with
  | startGroup => exact fun xs => shortens_skipGroup (xs.length + 1) field xs
  | endGroup => exact shortens_throw _
  | varint => exact (shortens_readPayload .varint).bind fun _ => shortens_pure _
  | fixed64 => exact (shortens_readPayload .fixed64).bind fun _ => shortens_pure _
  | bytes => exact (shortens_readPayload .bytes).bind fun _ => shortens_pure _
  | fixed32 => exact (shortens_readPayload .fixed32).bind fun _ => shortens_pure _

/-- A field of any form is skipped in the same way whatever follows. -/
theorem stable_skip (field : Nat) (type : WireType) : Stable (skip field type) := by
  cases type with
  | startGroup =>
    exact fun ys xs => .get_bind (continues_skipGroup (Nat.lt_succ_self _) (Nat.lt_succ_self _))
  | endGroup => exact stable_throw _
  | varint => exact (stable_readPayload .varint).bind fun _ => stable_pure _
  | fixed64 => exact (stable_readPayload .fixed64).bind fun _ => stable_pure _
  | bytes => exact (stable_readPayload .bytes).bind fun _ => stable_pure _
  | fixed32 => exact (stable_readPayload .fixed32).bind fun _ => stable_pure _

end LiveTables.Wire
