import LiveTables.Delta.Decoder
import LiveTables.Proofs.Wire.Prefix

/-!
# Streams that arrive in chunks

A decoder gives out the same whether the bytes arrive at once or cut into chunks, because an entry
that can be read, or that breaks the format, is read the same way when more bytes follow
(`stable_readEntry`). So decoding what is there, then feeding more and decoding again, comes to
feeding all of it first (`Decoder.drain_feed`), and the rest is an induction over the chunks
(`Decoder.drainEach_eq_drain`).

`Decoder.next` and `Decoder.drain` count their rounds with fuel. Every entry takes a byte at least
(`readEntry_shortens`), so the fuel never runs out, and both go entry by entry as a loop without
fuel would (`Decoder.next_eq`, `Decoder.drain_eq`).
-/

namespace LiveTables

open Wire

variable {xs ys rest : List UInt8}

/-! ### Entries -/

/-- What the field with the given tag makes of the inside of a record, and whether it is the end
marker. -/
def readField (group : Nat) (body : RecordBody) : Nat × WireType → Reading (RecordBody × Bool)
  | (inner, .endGroup) =>
    if inner = group then return (body, true) else throw (.unexpectedEndGroup inner)
  | (inner, .startGroup) => do
    skip inner .startGroup
    return ({ body with skipped := body.skipped + 1 }, false)
  | (inner, type) =>
    if inner ≠ rowField then do
      let payload ← readPayload type
      return ({ body with fields := body.fields ++ [(inner, payload)] }, false)
    else if type = .varint then do
      let row ← readVarint
      return ({ body with row? := some row }, false)
    else do
      skip inner type
      return ({ body with skipped := body.skipped + 1 }, false)

/-- The inside of a record is read field by field up to the end marker. -/
theorem readBody_succ (group fuel : Nat) (body : RecordBody) :
    readBody group (fuel + 1) body = (do
      let (body, last) ← readTag >>= readField group body
      if last then return body else readBody group fuel body) := by
  rw [readBody, bind_assoc]
  congr 1
  funext tag
  obtain ⟨inner, type⟩ := tag
  cases type with
  | endGroup =>
    by_cases hend : inner = group
    · simp [readField, hend]
    · simp only [readField, hend, if_false]
      rfl
  | startGroup => simp [readField]
  | _ => by_cases hrow : inner = rowField <;> simp [readField, hrow]

theorem stable_readField (group : Nat) (body : RecordBody) (tag : Nat × WireType) :
    Stable (readField group body tag) := by
  obtain ⟨inner, type⟩ := tag
  cases type with
  | endGroup => exact .ite (stable_pure _) (stable_throw _)
  | startGroup => exact (stable_skip inner .startGroup).bind fun _ => stable_pure _
  | _ =>
    refine .ite ((stable_readPayload _).bind fun _ => stable_pure _) (.ite ?_ ?_)
    · exact stable_readVarint.bind fun _ => stable_pure _
    · exact (stable_skip inner _).bind fun _ => stable_pure _

theorem shortens_readField (group : Nat) (body : RecordBody) (tag : Nat × WireType) :
    Shortens (readField group body tag) := by
  obtain ⟨inner, type⟩ := tag
  cases type with
  | endGroup => exact .ite (shortens_pure _) (shortens_throw _)
  | startGroup => exact (shortens_skip inner .startGroup).bind fun _ => shortens_pure _
  | _ =>
    refine .ite ((shortens_readPayload _).bind fun _ => shortens_pure _) (.ite ?_ ?_)
    · exact shortens_readVarint.bind fun _ => shortens_pure _
    · exact (shortens_skip inner _).bind fun _ => shortens_pure _

/-- A field takes a byte at least, that of its tag. -/
theorem readTag_bind_shortens {α : Type} {f : Nat × WireType → Reading α} {a : α}
    (hf : ∀ tag, Shortens (f tag)) (h : (readTag >>= f) xs = .ok a rest) :
    rest.length < xs.length := by
  obtain ⟨tag, mid, htag, ha⟩ := of_run_bind h
  exact Nat.lt_of_le_of_lt (hf tag mid a rest ha) (readTag_shortens htag)

theorem shortens_readBody (group fuel : Nat) (body : RecordBody) :
    Shortens (readBody group fuel body) := by
  induction fuel generalizing body with
  | zero => exact shortens_throw _
  | succ fuel ih =>
    rw [readBody_succ]
    refine Shortens.bind (fun xs a rest h => Nat.le_of_lt ?_) fun _ => ?_
    · exact readTag_bind_shortens (shortens_readField group body) h
    · exact .ite (shortens_pure _) (ih _)

/-- With more fuel than bytes on either side, the inside of a record is read in the same way. -/
theorem continues_readBody {group fuel fuel' : Nat} {body : RecordBody} (hfuel : xs.length < fuel)
    (hfuel' : (xs ++ ys).length < fuel') :
    Continues ys (readBody group fuel body xs) (readBody group fuel' body (xs ++ ys)) := by
  induction fuel generalizing fuel' body xs with
  | zero => omega
  | succ fuel ih =>
    obtain ⟨fuel', rfl⟩ : ∃ n, fuel' = n + 1 := ⟨fuel' - 1, by omega⟩
    rw [readBody_succ, readBody_succ]
    have hfield : Stable (readTag >>= readField group body) :=
      stable_readTag.bind (stable_readField group body)
    refine Continues.bind (hfield ys xs) fun ⟨body', last⟩ rest hrest => ?_
    cases last with
    | true => exact .ok body' rest
    | false =>
      have hshort : rest.length < xs.length :=
        readTag_bind_shortens (shortens_readField group body) hrest
      rw [List.length_append] at hfuel'
      refine ih (Nat.lt_of_lt_of_le hshort (Nat.le_of_lt_succ hfuel)) ?_
      rw [List.length_append]
      omega

/-- An entry is read in the same way whatever follows. -/
theorem stable_readEntry : Stable readEntry := by
  refine stable_readTag.bind ?_
  rintro ⟨group, type⟩
  dsimp only
  split
  · intro ys xs
    -- The fuel is taken from what there is to read, and so differs on the two sides.
    apply Continues.get_bind
    exact (continues_readBody (Nat.lt_succ_self _) (Nat.lt_succ_self _)).bind
      fun body rest _ => .ok _ rest
  · exact stable_throw _
  · exact (stable_skip group _).bind fun _ => stable_pure _

/-- An entry takes a byte at least. -/
theorem readEntry_shortens {record? : Option Record} (h : readEntry xs = .ok record? rest) :
    rest.length < xs.length := by
  refine readTag_bind_shortens ?_ h
  rintro ⟨group, type⟩
  dsimp only
  split
  · intro xs record? rest h
    exact Shortens.bind (shortens_readBody group (xs.length + 1) {}) (fun _ => shortens_pure _)
      xs record? rest h
  · exact shortens_throw _
  · exact (shortens_skip group _).bind fun _ => shortens_pure _

namespace Decoder

variable {d : Decoder} {e : WireError} {record : Record}

/-! ### Entry by entry -/

theorem readEntry_nil : readEntry [] = .error .truncated [] := rfl

/-- One round of the search for a record. An empty buffer is one that ends early. -/
theorem nextWithin_succ (fuel : Nat) (d : Decoder) :
    d.nextWithin (fuel + 1) =
      match readEntry d.buffer with
      | .error .truncated _ => (d, .ok none)
      | .error e _ => (d, .error e)
      | .ok (some record) rest => ({ d with buffer := rest }, .ok (some record))
      | .ok none rest => nextWithin fuel { buffer := rest, dropped := d.dropped + 1 } := by
  rw [nextWithin]
  split
  · rename_i hempty
    rw [List.isEmpty_iff.1 hempty, readEntry_nil]
  · show (match readEntry d.buffer with
      | .error .truncated _ => _
      | .error e _ => _
      | .ok (some record) rest => _
      | .ok none rest => _) = _
    cases readEntry d.buffer with
    | ok record? rest => cases record? <;> rfl
    | error e rest => cases e <;> rfl

theorem nextWithin_eq {fuel fuel' : Nat} (h : d.buffer.length < fuel)
    (h' : d.buffer.length < fuel') : d.nextWithin fuel = d.nextWithin fuel' := by
  induction fuel generalizing fuel' d with
  | zero => omega
  | succ fuel ih =>
    obtain ⟨fuel', rfl⟩ : ∃ n, fuel' = n + 1 := ⟨fuel' - 1, by omega⟩
    rw [nextWithin_succ, nextWithin_succ]
    cases hx : readEntry d.buffer with
    | error e rest => cases e <;> rfl
    | ok record? rest =>
      have hshort : rest.length < d.buffer.length := readEntry_shortens hx
      cases record? with
      | some record => rfl
      | none => exact ih (by dsimp only; omega) (by dsimp only; omega)

/-- The next record is that of the first entry that is one; an entry that is dropped is counted. -/
theorem next_eq (d : Decoder) :
    d.next =
      match readEntry d.buffer with
      | .error .truncated _ => (d, .ok none)
      | .error e _ => (d, .error e)
      | .ok (some record) rest => ({ d with buffer := rest }, .ok (some record))
      | .ok none rest => next { buffer := rest, dropped := d.dropped + 1 } := by
  rw [next, nextWithin_succ]
  cases hx : readEntry d.buffer with
  | error e rest => cases e <;> rfl
  | ok record? rest =>
    have hshort : rest.length < d.buffer.length := readEntry_shortens hx
    cases record? with
    | some record => rfl
    | none => exact nextWithin_eq hshort (Nat.lt_succ_self _)

/-- A statement about decoders may be proved entry by entry: for a buffer whose first entry cannot
be read, and from the buffer behind the first entry otherwise. -/
theorem entry_induction {motive : Decoder → Prop}
    (truncated : ∀ d rest, readEntry d.buffer = .error .truncated rest → motive d)
    (error : ∀ d e rest, e ≠ .truncated → readEntry d.buffer = .error e rest → motive d)
    (record : ∀ d record rest, readEntry d.buffer = .ok (some record) rest →
      motive { d with buffer := rest } → motive d)
    (dropped : ∀ d rest, readEntry d.buffer = .ok none rest →
      motive { buffer := rest, dropped := d.dropped + 1 } → motive d) (d : Decoder) : motive d := by
  induction hlen : d.buffer.length using Nat.strongRecOn generalizing d with
  | _ n ih =>
    subst hlen
    cases hx : readEntry d.buffer with
    | error e rest =>
      by_cases he : e = .truncated
      · subst he
        exact truncated d rest hx
      · exact error d e rest he hx
    | ok record? rest =>
      have hshort : rest.length < d.buffer.length := readEntry_shortens hx
      cases record? with
      | some r => exact record d r rest hx (ih _ hshort _ rfl)
      | none => exact dropped d rest hx (ih _ hshort _ rfl)

theorem next_of_truncated (h : readEntry d.buffer = .error .truncated rest) :
    d.next = (d, .ok none) := by
  rw [next_eq, h]

theorem next_of_error (he : e ≠ .truncated) (h : readEntry d.buffer = .error e rest) :
    d.next = (d, .error e) := by
  rw [next_eq, h]
  cases e <;> first | rfl | exact absurd rfl he

theorem next_of_record (h : readEntry d.buffer = .ok (some record) rest) :
    d.next = ({ d with buffer := rest }, .ok (some record)) := by
  rw [next_eq, h]

theorem next_of_dropped (h : readEntry d.buffer = .ok none rest) :
    d.next = next { buffer := rest, dropped := d.dropped + 1 } := by
  rw [next_eq, h]

/-- A record that is found takes a byte at least. -/
theorem next_shortens {d' : Decoder} (h : d.next = (d', .ok (some record))) :
    d'.buffer.length < d.buffer.length := by
  induction d using entry_induction with
  | truncated d rest hx => rw [next_of_truncated hx] at h; cases h
  | error d e rest he hx => rw [next_of_error he hx] at h; cases h
  | record d record' rest hx _ =>
    rw [next_of_record hx] at h
    cases h
    exact readEntry_shortens hx
  | dropped d rest hx ih =>
    rw [next_of_dropped hx] at h
    exact Nat.lt_trans (ih h) (readEntry_shortens hx)

theorem drainWithin_eq {fuel fuel' : Nat} (h : d.buffer.length < fuel)
    (h' : d.buffer.length < fuel') : d.drainWithin fuel = d.drainWithin fuel' := by
  induction fuel generalizing fuel' d with
  | zero => omega
  | succ fuel ih =>
    obtain ⟨fuel', rfl⟩ : ∃ n, fuel' = n + 1 := ⟨fuel' - 1, by omega⟩
    rw [drainWithin, drainWithin]
    split
    · rfl
    · rfl
    · rename_i d' record hnext
      have hshort : d'.buffer.length < d.buffer.length := next_shortens hnext
      have hrest : d'.drainWithin fuel = d'.drainWithin fuel' := ih (by omega) (by omega)
      rw [hrest]

/-- Records are given out until there is none, or an error. -/
theorem drain_eq (d : Decoder) :
    d.drain =
      match d.next with
      | (d, .error e) => (d, [], some e)
      | (d, .ok none) => (d, [], none)
      | (d, .ok (some record)) => (d.drain.1, record :: d.drain.2.1, d.drain.2.2) := by
  rw [drain, drainWithin]
  rcases hnext : d.next with ⟨d', e | _ | record⟩
  · rfl
  · rfl
  · dsimp only
    rw [drainWithin_eq (next_shortens hnext) (Nat.lt_succ_self _)]
    rfl

theorem drain_of_truncated (h : readEntry d.buffer = .error .truncated rest) :
    d.drain = (d, [], none) := by
  rw [drain_eq, next_of_truncated h]

theorem drain_of_error (he : e ≠ .truncated) (h : readEntry d.buffer = .error e rest) :
    d.drain = (d, [], some e) := by
  rw [drain_eq, next_of_error he h]

theorem drain_of_record (h : readEntry d.buffer = .ok (some record) rest) :
    d.drain = ((drain { d with buffer := rest }).1,
      record :: (drain { d with buffer := rest }).2.1, (drain { d with buffer := rest }).2.2) := by
  rw [drain_eq, next_of_record h]

theorem drain_of_dropped (h : readEntry d.buffer = .ok none rest) :
    d.drain = drain { buffer := rest, dropped := d.dropped + 1 } := by
  rw [drain_eq d, next_of_dropped h, ← drain_eq]

/-! ### Feeding more -/

/-- An entry that was read, or found to break the format, is so whatever is fed after it. -/
theorem readEntry_feed_of_ok {record? : Option Record} (h : readEntry d.buffer = .ok record? rest)
    (bytes : List UInt8) : readEntry (d.feed bytes).buffer = .ok record? (rest ++ bytes) := by
  have hall := stable_readEntry bytes d.buffer
  rw [h] at hall
  generalize hx : readEntry (d.buffer ++ bytes) = answer at hall
  cases hall
  exact hx

theorem readEntry_feed_of_error (he : e ≠ .truncated) (h : readEntry d.buffer = .error e rest)
    (bytes : List UInt8) : readEntry (d.feed bytes).buffer = .error e (rest ++ bytes) := by
  have hall := stable_readEntry bytes d.buffer
  rw [h] at hall
  generalize hx : readEntry (d.buffer ++ bytes) = answer at hall
  cases hall with
  | error => exact hx
  | truncated => exact absurd rfl he

/-- Decoding what is there, feeding more and decoding again gives what feeding first gives. -/
theorem drain_feed (d : Decoder) (bytes : List UInt8) :
    (d.feed bytes).drain =
      ((d.drain.1.feed bytes).drain.1, d.drain.2.1 ++ (d.drain.1.feed bytes).drain.2.1,
        (d.drain.1.feed bytes).drain.2.2) := by
  induction d using entry_induction with
  | truncated d rest h => rw [drain_of_truncated h]; rfl
  | error d e rest he h => rw [drain_of_error he h]; rfl
  | record d record rest h ih =>
    have hall := readEntry_feed_of_ok h bytes
    have hrest : drain { d.feed bytes with buffer := rest ++ bytes } = _ := ih
    rw [drain_of_record h, drain_of_record hall, hrest]
    rfl
  | dropped d rest h ih =>
    have hall := readEntry_feed_of_ok h bytes
    rw [drain_of_dropped h, drain_of_dropped hall]
    exact ih

/-- An error is found again whatever is fed after it, and nothing moves. -/
theorem drain_feed_of_error (h : d.drain.2.2 = some e) (bytes : List UInt8) :
    (d.drain.1.feed bytes).drain = (d.drain.1.feed bytes, [], some e) := by
  induction d using entry_induction with
  | truncated d rest hx => rw [drain_of_truncated hx] at h; cases h
  | error d e' rest he hx =>
    rw [drain_of_error he hx] at h ⊢
    cases h
    exact drain_of_error he (readEntry_feed_of_error he hx bytes)
  | record d record rest hx ih => rw [drain_of_record hx] at h ⊢; exact ih h
  | dropped d rest hx ih => rw [drain_of_dropped hx] at h ⊢; exact ih h

/-- Decoding ends where no further record is found: the next search gives none, or the error. -/
theorem next_drain (d : Decoder) :
    d.drain.1.next =
      (d.drain.1, match d.drain.2.2 with | none => .ok none | some e => .error e) := by
  induction d using entry_induction with
  | truncated d rest h => rw [drain_of_truncated h]; exact next_of_truncated h
  | error d e rest he h => rw [drain_of_error he h]; exact next_of_error he h
  | record d record rest h ih => rw [drain_of_record h]; exact ih
  | dropped d rest h ih => rw [drain_of_dropped h]; exact ih

/-- What was decoded to its end gives nothing more, and the same error. -/
theorem drain_drain (d : Decoder) : d.drain.1.drain = (d.drain.1, [], d.drain.2.2) := by
  rw [drain_eq, next_drain]
  cases d.drain.2.2 <;> rfl

/-! ### Chunk by chunk -/

/-- Feeds the chunks one by one and decodes after each what has arrived; with all the records, and
the first error. -/
def drainEach (d : Decoder) : List (List UInt8) → Decoder × List Record × Option WireError
  | [] => (d, [], none)
  | chunk :: chunks =>
    let (d, records, error?) := (d.feed chunk).drain
    let (d, later, laterError?) := drainEach d chunks
    (d, records ++ later, error?.or laterError?)

theorem drainEach_cons (d : Decoder) (chunk : List UInt8) (chunks : List (List UInt8)) :
    d.drainEach (chunk :: chunks) =
      (((d.feed chunk).drain.1.drainEach chunks).1,
        (d.feed chunk).drain.2.1 ++ ((d.feed chunk).drain.1.drainEach chunks).2.1,
        (d.feed chunk).drain.2.2.or ((d.feed chunk).drain.1.drainEach chunks).2.2) := rfl

theorem feed_append (d : Decoder) (xs ys : List UInt8) :
    d.feed (xs ++ ys) = (d.feed xs).feed ys := by
  simp only [feed, List.append_assoc]

/-- From a decoder that is decoded to its end with `error?`, chunks come to what they come to in one
piece. -/
theorem drain_feed_flatten {error? : Option WireError} (hd : d.drain = (d, [], error?))
    (chunks : List (List UInt8)) :
    (d.feed chunks.flatten).drain =
      ((d.drainEach chunks).1, (d.drainEach chunks).2.1, error?.or (d.drainEach chunks).2.2) := by
  induction chunks generalizing d error? with
  | nil =>
    show (d.feed []).drain = (d, [], error?.or none)
    rw [Option.or_none, ← hd, feed, List.append_nil]
  | cons chunk chunks ih =>
    -- The error met before, if any, is met again with this chunk.
    have herror : error?.or (d.feed chunk).drain.2.2 = (d.feed chunk).drain.2.2 := by
      cases error? with
      | none => rfl
      | some e =>
        have he : d.drain.2.2 = some e := by rw [hd]
        have hfeed := drain_feed_of_error he chunk
        rw [hd] at hfeed
        rw [hfeed]
        rfl
    rw [List.flatten_cons, feed_append, drain_feed, ih (drain_drain _), drainEach_cons,
      ← Option.or_assoc, herror]

/-- However a stream is cut into chunks, decoding after each chunk what has arrived gives the
records, the first error and the decoder that the stream gives in one piece. In particular the front
of a stream gives no record and no error that the whole stream does not give. Each decoding goes on
until the next search gives no record, or an error. -/
theorem drainEach_eq_drain (chunks : List (List UInt8)) :
    drainEach {} chunks = (feed {} chunks.flatten).drain ∧
      (∀ front back : List UInt8,
        (feed {} front).drain.2.1 <+: (feed {} (front ++ back)).drain.2.1 ∧
          ∀ e, (feed {} front).drain.2.2 = some e →
            (feed {} (front ++ back)).drain.2 = ((feed {} front).drain.2.1, some e)) ∧
      ∀ d : Decoder, d.drain.1.next =
        (d.drain.1, match d.drain.2.2 with | none => .ok none | some e => .error e) := by
  refine ⟨?_, fun front back => ⟨?_, fun e he => ?_⟩, next_drain⟩
  · have hfresh : drain {} = ({}, [], none) := rfl
    rw [drain_feed_flatten hfresh chunks, Option.none_or]
  · rw [feed_append, drain_feed (feed {} front)]
    exact List.prefix_append _ _
  · rw [feed_append, drain_feed (feed {} front), drain_feed_of_error he, List.append_nil]

end Decoder

end LiveTables
