import MessagePack.Number.Binary
import MessagePack.Time.Seconds
import MessagePack.Unpack.Unpacker

/-! Reading the next item as a value of a certain type. An item of another kind is a type
error and a value outside the type a value error; the item is read either way. -/
namespace MessagePack

namespace Item

def asNil : Item → Except Fault Unit
  | .nil => .ok ()
  | _ => .error .typeError

def asBoolean : Item → Except Fault Bool
  | .boolean value => .ok value
  | _ => .error .typeError

/-- A signed integer of `width` bits. -/
def asSigned (width : Nat) : Item → Except Fault Int
  | .integer value =>
    let bound : Int := (1 <<< (width - 1) : Nat)
    if -bound ≤ value ∧ value < bound then .ok value else .error .valueError
  | _ => .error .typeError

/-- An unsigned integer of `width` bits; negative numbers are of another kind. -/
def asUnsigned (width : Nat) : Item → Except Fault Nat
  | .integer value =>
    if value < 0 then .error .typeError
    else if value < (1 <<< width : Nat) then .ok value.toNat
    else .error .valueError
  | _ => .error .typeError

/-- Any number, rounded to a double. -/
def asDouble : Item → Except Fault UInt64
  | .integer value => .ok (Number.doubleOfInt value)
  | .float bits => .ok (Number.singleToDouble bits)
  | .double bits => .ok bits
  | _ => .error .typeError

/-- Any number, rounded to a float by way of a double. -/
def asFloat : Item → Except Fault UInt32
  | .float bits => .ok bits
  | item => item.asDouble.map Number.doubleToSingle

/-- A timestamp as a double that counts seconds from the epoch. -/
def asTimeInterval : Item → Except Fault UInt64
  | .timestamp time => .ok time.toDouble
  | _ => .error .typeError

def asStrLength : Item → Except Fault Nat
  | .str bytes => .ok bytes.length
  | _ => .error .typeError

def asBinLength : Item → Except Fault Nat
  | .bin bytes => .ok bytes.length
  | _ => .error .typeError

def asArraySize : Item → Except Fault Nat
  | .array size => .ok size
  | _ => .error .typeError

def asMapSize : Item → Except Fault Nat
  | .map size => .ok size
  | _ => .error .typeError

end Item

namespace Unpacker

/-- Reads the next item as `view` sees it. -/
def nextAs [Refiller σ] (view : Item → Except Fault α) (unpacker : Unpacker σ) :
    Except Fault α × Unpacker σ :=
  match unpacker.next with
  | (.error fault, unpacker) => (.error fault, unpacker)
  | (.ok item, unpacker) => unpacker.settle (view item)

end Unpacker
end MessagePack
