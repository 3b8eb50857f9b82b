import MessagePack.Wire.Encode

/-! How much room a value takes. It is reckoned before any byte is written, and apart from the
bytes: every form has a number of its own, and a payload is claimed together with its header. -/
namespace MessagePack

namespace Room

def natural (value : Nat) : Nat :=
  if value < 0x80 then 1
  else if value < 0x100 then 2
  else if value < 0x10000 then 3
  else if value < 0x100000000 then 5
  else 9

def integer (value : Int) : Nat :=
  if 0 ≤ value then natural value.toNat
  else if -32 ≤ value then 1
  else if -0x80 ≤ value then 2
  else if -0x8000 ≤ value then 3
  else if -0x80000000 ≤ value then 5
  else 9

def compactFloat (bits : UInt32) : Nat :=
  match Value.whole? .single (-0x8000) 0xffff bits.toNat with
  | some value => integer value
  | none => 5

def compactDouble (bits : UInt64) : Nat :=
  match Value.whole? .double (-0x80000000) 0xffffffff bits.toNat with
  | some value => integer value
  | none => if Value.Narrows bits then 5 else 9

/-- The header of an array or a map. -/
def container (size : Nat) : Nat :=
  if size < 16 then 1
  else if size < 0x10000 then 3
  else 5

def strHeader (dialect : Dialect) (length : Nat) : Nat :=
  if length < 32 then 1
  else if length < 0x100 ∧ ¬dialect.compatible then 2
  else if length < 0x10000 then 3
  else 5

def binHeader (dialect : Dialect) (length : Nat) : Nat :=
  if dialect.compatible then strHeader dialect length
  else if length < 0x100 then 2
  else if length < 0x10000 then 3
  else 5

def extHeader (length : Nat) : Nat :=
  if length ∈ [1, 2, 4, 8, 16] then 2
  else if length < 0x100 then 3
  else if length < 0x10000 then 4
  else 6

def extInteger (value : Int) : Nat :=
  if -0x80 ≤ value ∧ value < 0x80 then 3
  else if -0x8000 ≤ value ∧ value < 0x8000 then 4
  else if -0x80000000 ≤ value ∧ value < 0x80000000 then 6
  else 10

def timestamp (time : Timestamp) : Nat :=
  let seconds := time.seconds.toInt
  if 0 ≤ seconds ∧ seconds < (1 <<< Timestamp.secondsBits : Nat) then
    let packed := (time.nanos.toNat <<< Timestamp.secondsBits) + seconds.toNat
    if packed < 0x100000000 then 6 else 10
  else 15

end Room

open Room in
/-- The number of bytes to claim for a value that can be packed. -/
def Value.needed (dialect : Dialect) : Value → Nat
  | .nil | .boolean _ => 1
  | .unsigned value => natural value.toNat
  | .signed value => integer value.toInt
  | .float _ => 5
  | .double _ => 9
  | .compactFloat bits => Room.compactFloat bits
  | .compactDouble bits => Room.compactDouble bits
  | .arraySize size | .mapSize size => container size.toNat
  | .str bytes => strHeader dialect bytes.length + bytes.length
  | .strSize length => strHeader dialect length.toNat
  | .bin bytes => binHeader dialect bytes.length + bytes.length
  | .binSize length => binHeader dialect length.toNat
  | .ext _ bytes => extHeader bytes.length + bytes.length
  | .extSize _ length => extHeader length.toNat
  | .timestamp time => Room.timestamp time
  | .systemTime time held => Room.timestamp (.ofSystemTime time held)
  | .timeInterval seconds => Room.timestamp (.ofDouble seconds)
  | .extInteger _ value => Room.extInteger value.toInt
  | .extFloat _ _ => 6
  | .extDouble _ _ => 10

end MessagePack
