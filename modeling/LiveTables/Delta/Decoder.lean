import LiveTables.Delta.Record
import LiveTables.Wire.Reader

/-!
# Decoding a delta stream

Bytes arrive in pieces of any size. The decoder keeps what it has not used yet and gives out a record
as soon as all its bytes are there. What it does not know it steps over: groups of other numbers and
other fields between the records are counted as dropped, and so is a record that names no row; fields
inside a record that hold no plain value are counted by the record.

A stream that breaks the format cannot be picked up again: the decoder stays where it is.
-/

namespace LiveTables

open Wire

/-- The inside of a record: the last row named, the fields in order and the number of fields that
were stepped over. -/
structure RecordBody where
  row? : Option Nat := none
  fields : List (Nat × Payload) := []
  skipped : Nat := 0

/-- Takes the inside of the group `group` with its end marker, over at most `fuel` fields. -/
def readBody (group : Nat) : (fuel : Nat) → RecordBody → Reading RecordBody
  | 0, _ => throw .truncated
  | fuel + 1, body => do
    let (inner, type) ← readTag
    match type with
    | .endGroup => if inner = group then return body else throw (.unexpectedEndGroup inner)
    | .startGroup =>
      skip inner .startGroup
      readBody group fuel { body with skipped := body.skipped + 1 }
    | type =>
      if inner ≠ rowField then
        let payload ← readPayload type
        readBody group fuel { body with fields := body.fields ++ [(inner, payload)] }
      else if type = .varint then
        let row ← readVarint
        readBody group fuel { body with row? := some row }
      else
        skip inner type
        readBody group fuel { body with skipped := body.skipped + 1 }

/-- Takes one entry of a stream: a record, or something to drop. -/
def readEntry : Reading (Option Record) := do
  let (group, type) ← readTag
  match Action.ofGroup? group, type with
  | some action, .startGroup =>
    let body ← readBody group ((← get).length + 1) {}
    return body.row?.map fun row => ⟨action, row, body.fields, body.skipped⟩
  | _, .endGroup => throw (.unexpectedEndGroup group)
  | _, type => skip group type; return none

/-- The bytes that wait for the rest of their record, and the number of entries dropped so far. -/
structure Decoder where
  buffer : List UInt8 := []
  dropped : Nat := 0
  deriving DecidableEq

namespace Decoder

/-- Adds bytes that arrived. -/
def feed (d : Decoder) (bytes : List UInt8) : Decoder := { d with buffer := d.buffer ++ bytes }

/-- Decodes up to the first record, over at most `fuel` entries. -/
def nextWithin : (fuel : Nat) → Decoder → Decoder × Except WireError (Option Record)
  | 0, d => (d, .ok none)
  | fuel + 1, d =>
    if d.buffer.isEmpty then (d, .ok none)
    else
      match readEntry.run d.buffer with
      | .error .truncated _ => (d, .ok none)
      | .error e _ => (d, .error e)
      | .ok (some record) rest => ({ d with buffer := rest }, .ok (some record))
      | .ok none rest => nextWithin fuel { buffer := rest, dropped := d.dropped + 1 }

/-- Decodes the next record, if all its bytes have arrived. Every entry takes a byte at least. -/
def next (d : Decoder) : Decoder × Except WireError (Option Record) :=
  d.nextWithin (d.buffer.length + 1)

/-- Decodes at most `fuel` records, as far as they have arrived; with the error that ends them, if
there is one. -/
def drainWithin : (fuel : Nat) → Decoder → Decoder × List Record × Option WireError
  | 0, d => (d, [], none)
  | fuel + 1, d =>
    match d.next with
    | (d, .error e) => (d, [], some e)
    | (d, .ok none) => (d, [], none)
    | (d, .ok (some record)) =>
      let (d, records, error?) := drainWithin fuel d
      (d, record :: records, error?)

/-- Decodes every record that has arrived. -/
def drain (d : Decoder) : Decoder × List Record × Option WireError :=
  d.drainWithin (d.buffer.length + 1)

end Decoder

/-- Decodes a whole stream, which has to end with the last of its records. -/
def Record.ofBytes (bytes : List UInt8) : Except WireError (List Record) :=
  match (Decoder.feed {} bytes).drain with
  | (_, _, some e) => .error e
  | (d, records, none) => if d.buffer.isEmpty then .ok records else .error .truncated

end LiveTables
