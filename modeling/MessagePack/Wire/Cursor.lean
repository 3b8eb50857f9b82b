import MessagePack.Wire.ByteOrder
import MessagePack.Wire.Position

/-! A cursor that reads big-endian values from a run of bytes. Every read checks first
that its bytes are there, and one that finds too few leaves the cursor where it is. -/
namespace MessagePack

structure Cursor where
  bytes : List UInt8
  position : Nat
  /-- Reading stops before this position. -/
  limit : Nat
  order : ByteOrder
  deriving DecidableEq, Repr

namespace Cursor

def ofBytes (bytes : List UInt8) (order : ByteOrder) : Cursor := ⟨bytes, 0, bytes.length, order⟩

def reset (cursor : Cursor) (bytes : List UInt8) : Cursor := ofBytes bytes cursor.order

def size (cursor : Cursor) : Nat := cursor.limit - cursor.position

/-- The same with its range checked. -/
def size? (cursor : Cursor) : Option Nat := Position.sub? cursor.limit cursor.position

def take (cursor : Cursor) (count : Nat) : Except BytesFault (List UInt8) × Cursor :=
  if count ≤ cursor.size then
    (.ok ((cursor.bytes.drop cursor.position).take count),
      { cursor with position := cursor.position + count })
  else (.error .endOfBytes, cursor)

def peek (cursor : Cursor) : Except BytesFault UInt8 :=
  if cursor.position < cursor.limit then .ok (cursor.bytes.getD cursor.position 0)
  else .error .endOfBytes

def skip (cursor : Cursor) (count : Nat) : Except BytesFault Unit × Cursor :=
  let (bytes, cursor) := cursor.take count
  (bytes.map fun _ => (), cursor)

/-- The unsigned number in the next `width` bytes; the bits of a real are read so too. -/
def unsigned (cursor : Cursor) (width : Nat) : Except BytesFault Nat × Cursor :=
  let (bytes, cursor) := cursor.take width
  (bytes.map cursor.order.load, cursor)

def signed (cursor : Cursor) (width : Nat) : Except BytesFault Int × Cursor :=
  let (value, cursor) := cursor.unsigned width
  (value.map (twosComplement width), cursor)

/-! A cursor at the front of its bytes reads all of them at once. -/

variable (bytes : List UInt8) (order : ByteOrder)

theorem take_whole : (ofBytes bytes order).take bytes.length =
    (.ok bytes, { ofBytes bytes order with position := bytes.length }) := by
  simp [take, size, ofBytes]

theorem unsigned_whole : (ofBytes bytes order).unsigned bytes.length =
    (.ok (order.load bytes), { ofBytes bytes order with position := bytes.length }) := by
  rw [unsigned, take_whole]
  rfl

theorem signed_whole : (ofBytes bytes order).signed bytes.length =
    (.ok (twosComplement bytes.length (order.load bytes)),
      { ofBytes bytes order with position := bytes.length }) := by
  rw [signed, unsigned_whole]
  rfl

end Cursor
end MessagePack
