import MessagePack.Item
import MessagePack.Wire.ByteOrder
import MessagePack.Wire.Scan
import MessagePack.Wire.Tag

/-! Reading items off the wire. A header is the tag and the number, length, size or
extension type after it; scalars and timestamps are read whole as part of it. -/
namespace MessagePack

namespace Scan

def tag : Scan Tag := .take 1 true fun bytes => .done (.ofByte (bytes.headD 0))

/-- A number that fills `width` bytes. -/
def field (order : ByteOrder) (width : Nat) : Scan Nat :=
  .take width false fun bytes => .done (order.load bytes)

def extType : Scan Int8 := .take 1 false fun bytes => .done (bytes.headD 0).toInt8

end Scan

namespace Timestamp

/-- The seconds are below the fraction. -/
def ofPacked (value : Nat) : Timestamp :=
  ⟨.ofInt (value % (1 <<< secondsBits) : Nat), .ofNat (value >>> secondsBits)⟩

/-- A timestamp is read from three forms only, whatever other headers have room for it. -/
def scan (order : ByteOrder) (tag : Tag) (length : Nat) : Scan Timestamp :=
  match tag, length with
  | .fixExt 2, _ => do
    let seconds ← Scan.field order 4
    pure ⟨.ofInt seconds, 0⟩
  | .fixExt 3, _ => do
    let value ← Scan.field order 8
    pure (ofPacked value)
  | .ext 0, 12 => .take 12 false fun bytes =>
    .done ⟨.ofInt (order.load (bytes.drop 4)), .ofNat (order.load (bytes.take 4))⟩
  | _, _ => .fail .wrongTimestampLength

end Timestamp

namespace Header

/-- What follows the tag and length of an extension. -/
def scanExt (order : ByteOrder) (tag : Tag) (length : Nat) : Scan Header := do
  let type ← Scan.extType
  if type = timestampType then do
    let time ← Timestamp.scan order tag length
    pure (.timestamp time)
  else pure (.ext type length)

/-- The fields that the tag calls for. -/
def scanAfter (order : ByteOrder) (tag : Tag) : Scan Header :=
  match tag with
  | .positive value => pure (.integer value.val)
  | .fixMap size => pure (.map size.val)
  | .fixArray size => pure (.array size.val)
  | .fixStr length => pure (.str length.val)
  | .nil => pure .nil
  | .reserved => .fail .malformedInput
  | .boolean value => pure (.boolean value)
  | .bin i => do
    let length ← Scan.field order (Tag.width i.val)
    pure (.bin length)
  | .ext i => do
    let length ← Scan.field order (Tag.width i.val)
    scanExt order tag length
  | .float => do
    let bits ← Scan.field order 4
    pure (.float (.ofNat bits))
  | .double => do
    let bits ← Scan.field order 8
    pure (.double (.ofNat bits))
  | .unsigned i => do
    let value ← Scan.field order (Tag.width i.val)
    pure (.integer value)
  | .signed i => do
    let value ← Scan.field order (Tag.width i.val)
    pure (.integer (twosComplement (Tag.width i.val) value))
  | .fixExt i => scanExt order tag (Tag.width i.val)
  | .str i => do
    let length ← Scan.field order (Tag.width i.val)
    pure (.str length)
  | .array i => do
    let size ← Scan.field order (Tag.width (i.val + 1))
    pure (.array size)
  | .map i => do
    let size ← Scan.field order (Tag.width (i.val + 1))
    pure (.map size)
  | .negative value => pure (.integer ((value.val : Int) - 32))

def scan (order : ByteOrder) : Scan Header := do
  let tag ← Scan.tag
  scanAfter order tag

theorem scan_eq (order : ByteOrder) :
    scan order = .take 1 true fun bytes => scanAfter order (.ofByte (bytes.headD 0)) := rfl

end Header

/-- An item with its payload, if its header announces one. -/
def Item.scan (order : ByteOrder) : Scan Item := do
  let header ← Header.scan order
  match header.payloadLength? with
  | none => pure (header.withPayload [])
  | some length => .take length false fun payload => .done (header.withPayload payload)

end MessagePack
