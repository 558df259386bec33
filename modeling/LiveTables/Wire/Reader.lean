import LiveTables.Wire.Payload

/-!
# Reading the wire

A reading takes bytes from the front of the input. It answers what it read, or why it could not, and
in both cases what is left of the input. Bytes that end too early are told apart from bytes that
break the format (`WireError.truncated`), so that a reader of a stream can wait for more.

`skip` steps over a field of any form. A group is read down to the end marker of its own number,
with the groups inside it.
-/

namespace LiveTables.Wire

/-- Why bytes could not be read. -/
inductive WireError where
  /-- The input ends early. -/
  | truncated
  /-- A number does not fit in 64 bits. -/
  | varintOverflow
  /-- A group ends that was not the last one opened. -/
  | unexpectedEndGroup (field : Nat)
  /-- A tag has no known form. -/
  | invalidWireType (code : Nat)
  /-- A field number is zero or too large. -/
  | invalidField (field : Nat)
  deriving DecidableEq

/-- The wording of an error. -/
def WireError.message : WireError → String
  | truncated => "delta stream truncated"
  | varintOverflow => "varint overflows 64 bits"
  | unexpectedEndGroup field => s!"unexpected end of group {field}"
  | invalidWireType code => s!"invalid wire type {code}"
  | invalidField field => s!"invalid field number {field}"

/-- A reading of `α` from the front of a list of bytes. -/
abbrev Reading := EStateM WireError (List UInt8)

/-- The form of a number, or the error that it names none. -/
def WireType.ofCode (code : Nat) : Except WireError WireType :=
  match ofCode? code with
  | some type => .ok type
  | none => .error (.invalidWireType code)

/-- Takes one byte. -/
def readByte : Reading UInt8 := do
  match ← get with
  | [] => throw .truncated
  | b :: bs => set bs; return b

/-- Takes a number of at most `places` bytes. Ten bytes hold up to 70 bits, so the last of them may
only be 0 or 1. -/
def readVarintFrom : (places : Nat) → Reading Nat
  | 0 => throw .varintOverflow
  | places + 1 => do
    let b ← readByte
    if places = 0 ∧ 1 < b.toNat then throw .varintOverflow
    if b.toNat < 128 then return b.toNat
    return b.toNat - 128 + 128 * (← readVarintFrom places)

/-- Takes a number of 64 bits. -/
def readVarint : Reading Nat := readVarintFrom 10

/-- Takes a tag. The form is checked before the number. -/
def readTag : Reading (Nat × WireType) := do
  let n ← readVarint
  match WireType.ofCode? (n % 8) with
  | none => throw (.invalidWireType (n % 8))
  | some type =>
    if n / 8 = 0 ∨ maxField < n / 8 then throw (.invalidField (n / 8))
    return (n / 8, type)

/-- Takes `len` bytes; takes none if there are fewer. -/
def readBytes (len : Nat) : Reading (List UInt8) := do
  let bs ← get
  if bs.length < len then throw .truncated
  set (bs.drop len)
  return bs.take len

/-- Takes the payload of a form. The ends of groups have none. -/
def readPayload : WireType → Reading Payload
  | .varint => return .varint (UInt64.ofNat (← readVarint))
  | .fixed64 => return .fixed64 (UInt64.ofNat (ofLittleEndian (← readBytes 8)))
  | .fixed32 => return .fixed32 (UInt32.ofNat (ofLittleEndian (← readBytes 4)))
  | .bytes => do return .bytes (← readBytes (← readVarint))
  | type => throw (.invalidWireType type.code)

/-- Steps to the end marker of the group `field`, over at most `fuel` fields. Every field takes a
byte at least, so as much fuel as there are bytes is never used up. -/
def skipGroup : (fuel field : Nat) → Reading Unit
  | 0, _ => throw .truncated
  | fuel + 1, field => do
    let (inner, type) ← readTag
    match type with
    | .endGroup => if inner ≠ field then throw (.unexpectedEndGroup inner)
    | .startGroup => skipGroup fuel inner; skipGroup fuel field
    | type => let _ ← readPayload type; skipGroup fuel field

/-- Steps over the payload of a field whose tag was read. -/
def skip (field : Nat) : WireType → Reading Unit
  | .startGroup => do skipGroup ((← get).length + 1) field
  | .endGroup => throw (.unexpectedEndGroup field)
  | type => do let _ ← readPayload type

end LiveTables.Wire
