import MessagePack.Fault
import MessagePack.Item
import MessagePack.Number.Binary
import MessagePack.Time.Seconds
import MessagePack.Wire.ByteOrder
import MessagePack.Wire.Tag

/-! Writing values to the wire. Every kind of value has a ladder of forms, and the first
that has room for the value, which is the shortest, is taken. The old dialect has no
str form with a length byte, writes bin as str, and has neither extensions nor
timestamps. -/
namespace MessagePack

structure Dialect where
  /-- Keeps to the old dialect. -/
  compatible : Bool
  order : ByteOrder
  deriving DecidableEq, Repr

/-- What can be packed. The forms named for a size or length are headers only; the
elements or bytes that they announce are packed or inserted after them. -/
inductive Value where
  | nil
  | boolean (value : Bool)
  | unsigned (value : UInt64)
  | signed (value : Int64)
  | float (bits : UInt32)
  | double (bits : UInt64)
  /-- A float, as an integer of 16 bits where it is one. -/
  | compactFloat (bits : UInt32)
  /-- A double, as an integer of 32 bits or as a float where it is one. -/
  | compactDouble (bits : UInt64)
  | arraySize (size : UInt32)
  | mapSize (size : UInt32)
  | str (bytes : List UInt8)
  | strSize (length : UInt32)
  | bin (bytes : List UInt8)
  | binSize (length : UInt32)
  | ext (type : Int8) (bytes : List UInt8)
  | extSize (type : Int8) (length : UInt32)
  | timestamp (time : Timestamp)
  | systemTime (time : SystemTime) (held : (Timestamp.ofSystemTime? time).isSome)
  /-- A double that counts seconds from the epoch. -/
  | timeInterval (seconds : UInt64)
  | extInteger (type : Int8) (value : Int64)
  | extFloat (type : Int8) (bits : UInt32)
  | extDouble (type : Int8) (bits : UInt64)
  deriving DecidableEq, Repr

open Number in
/-- The integer of the range that a real equals, if there is one. -/
def Value.whole? (f : Format) (low high : Int) (bits : Nat) : Option Int := do
  let value ← (f.decode bits).integer? f
  if low ≤ value ∧ value ≤ high then some value else none

open Number in
/-- Widening the float gives the double back, which no NaN allows. -/
def Value.Narrows (bits : UInt64) : Prop :=
  Format.double.decode bits.toNat ≠ .nan ∧ singleToDouble (doubleToSingle bits) = bits

instance (bits : UInt64) : Decidable (Value.Narrows bits) :=
  inferInstanceAs (Decidable (_ ∧ _))

namespace Encode

def bare (tag : Tag) : List UInt8 := [tag.toByte]

/-- A tag and the number of `width` bytes after it. -/
def withField (order : ByteOrder) (tag : Tag) (width value : Nat) : List UInt8 :=
  tag.toByte :: order.store width value

def natural (order : ByteOrder) (value : Nat) : List UInt8 :=
  if value < 0x80 then bare (.positive (.ofNat 128 value))
  else if value < 0x100 then withField order (.unsigned 0) 1 value
  else if value < 0x10000 then withField order (.unsigned 1) 2 value
  else if value < 0x100000000 then withField order (.unsigned 2) 4 value
  else withField order (.unsigned 3) 8 value

def integer (order : ByteOrder) (value : Int) : List UInt8 :=
  if 0 ≤ value then natural order value.toNat
  else if -32 ≤ value then bare (.negative (.ofNat 32 (value + 32).toNat))
  else if -0x80 ≤ value then withField order (.signed 0) 1 (ofTwosComplement 1 value)
  else if -0x8000 ≤ value then withField order (.signed 1) 2 (ofTwosComplement 2 value)
  else if -0x80000000 ≤ value then withField order (.signed 2) 4 (ofTwosComplement 4 value)
  else withField order (.signed 3) 8 (ofTwosComplement 8 value)

def float (order : ByteOrder) (bits : UInt32) : List UInt8 :=
  withField order .float 4 bits.toNat

def double (order : ByteOrder) (bits : UInt64) : List UInt8 :=
  withField order .double 8 bits.toNat

def array (order : ByteOrder) (size : Nat) : List UInt8 :=
  if size < 16 then bare (.fixArray (.ofNat 16 size))
  else if size < 0x10000 then withField order (.array 0) 2 size
  else withField order (.array 1) 4 size

def map (order : ByteOrder) (size : Nat) : List UInt8 :=
  if size < 16 then bare (.fixMap (.ofNat 16 size))
  else if size < 0x10000 then withField order (.map 0) 2 size
  else withField order (.map 1) 4 size

def strHeader (dialect : Dialect) (length : Nat) : List UInt8 :=
  if length < 32 then bare (.fixStr (.ofNat 32 length))
  else if length < 0x100 ∧ ¬dialect.compatible then withField dialect.order (.str 0) 1 length
  else if length < 0x10000 then withField dialect.order (.str 1) 2 length
  else withField dialect.order (.str 2) 4 length

def binHeader (dialect : Dialect) (length : Nat) : List UInt8 :=
  if dialect.compatible then strHeader dialect length
  else if length < 0x100 then withField dialect.order (.bin 0) 1 length
  else if length < 0x10000 then withField dialect.order (.bin 1) 2 length
  else withField dialect.order (.bin 2) 4 length

/-- The type comes last. Lengths 1, 2, 4, 8 and 16 have tags of their own. -/
def extHeader (order : ByteOrder) (type : Int8) (length : Nat) : List UInt8 :=
  let tag :=
    match length with
    | 1 => bare (.fixExt 0)
    | 2 => bare (.fixExt 1)
    | 4 => bare (.fixExt 2)
    | 8 => bare (.fixExt 3)
    | 16 => bare (.fixExt 4)
    | length =>
      if length < 0x100 then withField order (.ext 0) 1 length
      else if length < 0x10000 then withField order (.ext 1) 2 length
      else withField order (.ext 2) 4 length
  tag ++ [type.toUInt8]

/-- An extension whose payload is one word of `2 ^ i` bytes. -/
def extWord (order : ByteOrder) (type : Int8) (i : Fin 5) (word : Nat) : List UInt8 :=
  (Tag.fixExt i).toByte :: type.toUInt8 :: order.store (Tag.width i.val) word

/-- The least `i` for which `2 ^ i` bytes hold the number in two's complement. -/
def integerClass (value : Int) : Fin 5 :=
  if -0x80 ≤ value ∧ value < 0x80 then 0
  else if -0x8000 ≤ value ∧ value < 0x8000 then 1
  else if -0x80000000 ≤ value ∧ value < 0x80000000 then 2
  else 3

def extInteger (order : ByteOrder) (type : Int8) (value : Int) : List UInt8 :=
  let i := integerClass value
  extWord order type i (ofTwosComplement (Tag.width i.val) value)

/-- Seconds alone in 32 bits, seconds of 34 bits below the nanoseconds in 64, or the
nanoseconds before seconds of any size. -/
def timestamp (order : ByteOrder) (time : Timestamp) : List UInt8 :=
  let seconds := time.seconds.toInt
  if 0 ≤ seconds ∧ seconds < (1 <<< Timestamp.secondsBits : Nat) then
    let packed := (time.nanos.toNat <<< Timestamp.secondsBits) + seconds.toNat
    if packed < 0x100000000 then extWord order timestampType 2 packed
    else extWord order timestampType 3 packed
  else
    (Tag.ext 0).toByte :: 12 :: timestampType.toUInt8 ::
      (order.store 4 time.nanos.toNat ++ order.store 8 (ofTwosComplement 8 seconds))

def compactFloat (order : ByteOrder) (bits : UInt32) : List UInt8 :=
  match Value.whole? .single (-0x8000) 0xffff bits.toNat with
  | some value => integer order value
  | none => float order bits

def compactDouble (order : ByteOrder) (bits : UInt64) : List UInt8 :=
  match Value.whole? .double (-0x80000000) 0xffffffff bits.toNat with
  | some value => integer order value
  | none =>
    if Value.Narrows bits then float order (Number.doubleToSingle bits) else double order bits

end Encode

/-- The forms of a timestamp that are read, by tag and length. -/
def Timestamp.forms : List (Tag × Nat) := [(.fixExt 2, 4), (.fixExt 3, 8), (.ext 0, 12)]

/-- A timestamp is refused whose fraction reaches a second. -/
def Timestamp.encode (dialect : Dialect) (time : Timestamp) : Except Fault (List UInt8) :=
  if dialect.compatible then .error .illegalCall
  else if nanosPerSecond ≤ time.nanos.toNat then .error .valueError
  else .ok (Encode.timestamp dialect.order time)

namespace Value

def fits (bytes : List UInt8) : Bool := bytes.length < 0x100000000

open Encode in
/-- The bytes of a value, which are packed all together or not at all. -/
def encode (dialect : Dialect) : Value → Except Fault (List UInt8)
  | .nil => .ok (bare .nil)
  | .boolean value => .ok (bare (.boolean value))
  | .unsigned value => .ok (natural dialect.order value.toNat)
  | .signed value => .ok (integer dialect.order value.toInt)
  | .float bits => .ok (Encode.float dialect.order bits)
  | .double bits => .ok (Encode.double dialect.order bits)
  | .compactFloat bits => .ok (Encode.compactFloat dialect.order bits)
  | .compactDouble bits => .ok (Encode.compactDouble dialect.order bits)
  | .arraySize size => .ok (array dialect.order size.toNat)
  | .mapSize size => .ok (map dialect.order size.toNat)
  | .str bytes => if fits bytes then .ok (strHeader dialect bytes.length ++ bytes)
    else .error .valueError
  | .strSize length => .ok (strHeader dialect length.toNat)
  | .bin bytes => if fits bytes then .ok (binHeader dialect bytes.length ++ bytes)
    else .error .valueError
  | .binSize length => .ok (binHeader dialect length.toNat)
  | .ext type bytes =>
    if ¬fits bytes then .error .valueError
    else if dialect.compatible then .error .illegalCall
    else .ok (extHeader dialect.order type bytes.length ++ bytes)
  | .extSize type length =>
    if dialect.compatible then .error .illegalCall
    else .ok (extHeader dialect.order type length.toNat)
  | .timestamp time => time.encode dialect
  | .systemTime time held => (Timestamp.ofSystemTime time held).encode dialect
  | .timeInterval seconds => (Timestamp.ofDouble seconds).encode dialect
  | .extInteger type value =>
    if dialect.compatible then .error .illegalCall
    else .ok (Encode.extInteger dialect.order type value.toInt)
  | .extFloat type bits =>
    if dialect.compatible then .error .illegalCall
    else .ok (extWord dialect.order type 2 bits.toNat)
  | .extDouble type bits =>
    if dialect.compatible then .error .illegalCall
    else .ok (extWord dialect.order type 3 bits.toNat)

end Value
end MessagePack
