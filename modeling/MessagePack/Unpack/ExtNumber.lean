import MessagePack.Unpack.Unpacker
import MessagePack.Wire.Cursor

/-! Numbers that the item read last carries as the payload of a user extension. They can
be read as often as wanted while the item is at hand. -/
namespace MessagePack

namespace ExtNumber

/-- What a cursor finds in the payload. -/
def readFrom (order : ByteOrder) (payload : List UInt8)
    (read : Cursor → Except BytesFault α × Cursor) : Except Fault α :=
  (read (.ofBytes payload order)).1.mapError BytesFault.toFault

/-- A signed integer of 1, 2, 4 or 8 bytes; no bytes at all are zero. -/
def integer (order : ByteOrder) (payload : List UInt8) : Except Fault Int :=
  match payload.length with
  | 0 => .ok 0
  | 1 | 2 | 4 | 8 => readFrom order payload (·.signed payload.length)
  | _ => .error .valueError

def float (order : ByteOrder) (payload : List UInt8) : Except Fault UInt32 :=
  if payload.length = 4 then (readFrom order payload (·.unsigned 4)).map .ofNat
  else .error .valueError

def double (order : ByteOrder) (payload : List UInt8) : Except Fault UInt64 :=
  if payload.length = 8 then (readFrom order payload (·.unsigned 8)).map .ofNat
  else .error .valueError

variable (order : ByteOrder) (payload : List UInt8)

/-! The length is checked first, so that no read falls short. -/

theorem readFrom_signed : readFrom order payload (·.signed payload.length) =
    .ok (twosComplement payload.length (order.load payload)) := by
  rw [readFrom, Cursor.signed_whole]
  rfl

theorem readFrom_unsigned : readFrom order payload (·.unsigned payload.length) =
    .ok (order.load payload) := by
  rw [readFrom, Cursor.unsigned_whole]
  rfl

theorem integer_eq : integer order payload =
    match payload.length with
    | 0 => .ok 0
    | 1 | 2 | 4 | 8 => .ok (twosComplement payload.length (order.load payload))
    | _ => .error .valueError := by
  simp only [integer, readFrom_signed]

theorem float_eq : float order payload =
    if payload.length = 4 then .ok (.ofNat (order.load payload)) else .error .valueError := by
  unfold float
  split
  · next width => rw [← width, readFrom_unsigned]; rfl
  · rfl

theorem double_eq : double order payload =
    if payload.length = 8 then .ok (.ofNat (order.load payload)) else .error .valueError := by
  unfold double
  split
  · next width => rw [← width, readFrom_unsigned]; rfl
  · rfl

end ExtNumber

namespace Unpacker

/-- Reads the payload of the current item, which must be a user extension. -/
def currentExt (read : ByteOrder → List UInt8 → Except Fault α) (unpacker : Unpacker σ) :
    Except Fault α × Unpacker σ :=
  unpacker.attempt fun unpacker =>
    match unpacker.item? with
    | some (.ext type payload) =>
      (if 0 ≤ type then read unpacker.order payload else .error .typeError, unpacker)
    | _ => (.error .typeError, unpacker)

def extInteger (unpacker : Unpacker σ) : Except Fault Int × Unpacker σ :=
  unpacker.currentExt ExtNumber.integer

def extFloat (unpacker : Unpacker σ) : Except Fault UInt32 × Unpacker σ :=
  unpacker.currentExt ExtNumber.float

def extDouble (unpacker : Unpacker σ) : Except Fault UInt64 × Unpacker σ :=
  unpacker.currentExt ExtNumber.double

end Unpacker
end MessagePack
