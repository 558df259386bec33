import LiveTables.Value.Basic
import LiveTables.Wire.Varint

/-!
# Field payloads

A field on the wire is a tag followed by a payload. The tag carries the number of the field and the
form of the payload, so that a reader can step over a field it does not know.

`Value.payload` gives the one payload of a value, and `Payload.toValue?` reads a payload as a value
of a given kind. Numbers are read by what they denote, so that kinds of different width may meet at
the two ends of a stream as long as the numbers fit.
-/

namespace LiveTables.Wire

/-- The form of a payload, or one end of a group of fields. -/
inductive WireType where
  | varint
  | fixed64
  | bytes
  | startGroup
  | endGroup
  | fixed32
  deriving DecidableEq

/-- The number of a form in a tag. -/
def WireType.code : WireType → Nat
  | varint => 0
  | fixed64 => 1
  | bytes => 2
  | startGroup => 3
  | endGroup => 4
  | fixed32 => 5

/-- The form of a number. -/
def WireType.ofCode? : Nat → Option WireType
  | 0 => some varint
  | 1 => some fixed64
  | 2 => some bytes
  | 3 => some startGroup
  | 4 => some endGroup
  | 5 => some fixed32
  | _ => none

/-- The name under which a form is shown. -/
def WireType.name : WireType → String
  | varint => "Varint"
  | fixed64 => "Fixed64"
  | bytes => "LengthDelimited"
  | startGroup => "StartGroup"
  | endGroup => "EndGroup"
  | fixed32 => "Fixed32"

/-- The largest field number. -/
def maxField : Nat := 2 ^ 29 - 1

/-- What a field carries. -/
inductive Payload where
  | varint (n : UInt64)
  | fixed64 (n : UInt64)
  | fixed32 (n : UInt32)
  | bytes (bs : List UInt8)
  deriving DecidableEq

/-- The form of a payload. -/
def Payload.wireType : Payload → WireType
  | varint _ => .varint
  | fixed64 _ => .fixed64
  | fixed32 _ => .fixed32
  | bytes _ => .bytes

/-- The `width` lowest bytes of a number, the lowest first. -/
def littleEndian : Nat → Nat → List UInt8
  | 0, _ => []
  | width + 1, n => UInt8.ofNat n :: littleEndian width (n / 256)

/-- The number of a list of bytes, the lowest first. -/
def ofLittleEndian : List UInt8 → Nat
  | [] => 0
  | b :: bs => b.toNat + 256 * ofLittleEndian bs

/-- The bytes of a tag. -/
def tag (field : Nat) (type : WireType) : List UInt8 := varint (field * 8 + type.code)

/-- The bytes of a payload, without its tag. -/
def Payload.toBytes : Payload → List UInt8
  | varint n => Wire.varint n.toNat
  | fixed64 n => littleEndian 8 n.toNat
  | fixed32 n => littleEndian 4 n.toNat
  | bytes bs => Wire.varint bs.length ++ bs

/-- The bytes of a field: its tag and its payload. -/
def field (number : Nat) (p : Payload) : List UInt8 := tag number p.wireType ++ p.toBytes

/-- The payload of a whole number. -/
def signed (n : Int) : Payload := .varint (UInt64.ofNat (zigzag n))

/-- The mantissa of 16 bytes and the scale of a decimal. -/
def decimalBytes (d : Decimal) : List UInt8 :=
  littleEndian 16 (d.mantissa.val % 2 ^ 128).toNat ++ [UInt8.ofNat d.scale]

/-- The mantissa that 16 bytes hold in two's complement. -/
def mantissaOfNat (n : Nat) : Int := if n < 2 ^ 127 then n else n - 2 ^ 128

/-- Reads the mantissa and the scale of a decimal. -/
def decimalOfBytes? (bs : List UInt8) : Option Decimal := do
  match bs.drop 16 with
  | [scale] =>
    let mantissa ← Mantissa.ofInt? (mantissaOfNat (ofLittleEndian (bs.take 16)))
    (Decimal.ofMantissa mantissa scale.toNat).toOption
  | _ => none

/-- Reads text, if the bytes are valid UTF-8. -/
def stringOfBytes? (bs : List UInt8) : Option String := String.fromUTF8? ⟨bs.toArray⟩

/-- The bytes of an identifier, the highest first. -/
def guidBytes (bits : BitVec 128) : List UInt8 := (littleEndian 16 bits.toNat).reverse

/-- Reads an identifier. -/
def guidOfBytes? (bs : List UInt8) : Option (BitVec 128) :=
  if bs.length = 16 then some (BitVec.ofNat 128 (ofLittleEndian bs.reverse)) else none

end Wire

/-- The payload of a value. -/
def Value.payload : Value → Wire.Payload
  | boolean b => .varint (if b then 1 else 0)
  | byte n => .varint n.toUInt64
  | char c => .varint c.val.toUInt64
  | int16 n => Wire.signed n.toInt
  | int32 n => Wire.signed n.toInt
  | int64 n => Wire.signed n.toInt
  | timestamp ms => Wire.signed ms.toInt
  | duration ms => Wire.signed ms.toInt
  | float32 bits => .fixed32 bits
  | float64 bits => .fixed64 bits
  | decimal d => .bytes (Wire.decimalBytes d)
  | string s => .bytes s.toUTF8.data.toList
  | guid bits => .bytes (Wire.guidBytes bits)

namespace Wire

/-- Reads a payload as a value of the kind. There is none if the payload has another form or what it
holds is outside the kind. -/
def Payload.toValue? : Kind → Payload → Option Value
  | .boolean, varint n =>
    if n = 0 then some (.boolean false) else if n = 1 then some (.boolean true) else none
  | .byte, varint n => if n.toNat < 2 ^ 8 then some (.byte n.toUInt8) else none
  | .char, varint n =>
    if h : n.toNat < 2 ^ 32 ∧ n.toUInt32.isValidChar then some (.char ⟨n.toUInt32, h.2⟩) else none
  | .int16, varint n =>
    let i := unzigzag n.toNat
    if -2 ^ 15 ≤ i ∧ i < 2 ^ 15 then some (.int16 (Int16.ofInt i)) else none
  | .int32, varint n =>
    let i := unzigzag n.toNat
    if -2 ^ 31 ≤ i ∧ i < 2 ^ 31 then some (.int32 (Int32.ofInt i)) else none
  | .int64, varint n => some (.int64 (Int64.ofInt (unzigzag n.toNat)))
  | .timestamp, varint n => some (.timestamp (Int64.ofInt (unzigzag n.toNat)))
  | .duration, varint n => some (.duration (Int64.ofInt (unzigzag n.toNat)))
  | .float32, fixed32 n => some (.float32 n)
  | .float64, fixed64 n => some (.float64 n)
  | .decimal, bytes bs => (decimalOfBytes? bs).map .decimal
  | .string, bytes bs => (stringOfBytes? bs).map .string
  | .guid, bytes bs => (guidOfBytes? bs).map .guid
  | _, _ => none

end LiveTables.Wire
