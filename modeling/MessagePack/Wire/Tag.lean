/-! The tag byte that opens every item. The 256 bytes and the values of `Tag` are in one
to one correspondence. A tag of variable form carries the class `i` of its length,
size or number field: that field is `2 ^ i` bytes wide, and `2 ^ (i + 1)` for
containers. -/
namespace MessagePack

inductive Tag where
  | positive (value : Fin 128)
  | fixMap (size : Fin 16)
  | fixArray (size : Fin 16)
  | fixStr (length : Fin 32)
  | nil
  /-- Given to no item. -/
  | reserved
  | boolean (value : Bool)
  | bin (i : Fin 3)
  | ext (i : Fin 3)
  | float
  | double
  | unsigned (i : Fin 4)
  | signed (i : Fin 4)
  /-- An extension whose payload has `2 ^ i` bytes. -/
  | fixExt (i : Fin 5)
  | str (i : Fin 3)
  | array (i : Fin 2)
  | map (i : Fin 2)
  /-- The number `value - 32`. -/
  | negative (value : Fin 32)
  deriving DecidableEq, Repr

namespace Tag

def width (i : Nat) : Nat := 1 <<< i

def toByte : Tag → UInt8
  | .positive value => .ofNat value
  | .fixMap size => .ofNat (0x80 + size)
  | .fixArray size => .ofNat (0x90 + size)
  | .fixStr length => .ofNat (0xa0 + length)
  | .nil => 0xc0
  | .reserved => 0xc1
  | .boolean value => if value then 0xc3 else 0xc2
  | .bin i => .ofNat (0xc4 + i)
  | .ext i => .ofNat (0xc7 + i)
  | .float => 0xca
  | .double => 0xcb
  | .unsigned i => .ofNat (0xcc + i)
  | .signed i => .ofNat (0xd0 + i)
  | .fixExt i => .ofNat (0xd4 + i)
  | .str i => .ofNat (0xd9 + i)
  | .array i => .ofNat (0xdc + i)
  | .map i => .ofNat (0xde + i)
  | .negative value => .ofNat (0xe0 + value)

def ofByte (byte : UInt8) : Tag :=
  let n := byte.toNat
  if h : n < 0x80 then .positive ⟨n, h⟩
  else if h : n < 0x90 then .fixMap ⟨n - 0x80, by omega⟩
  else if h : n < 0xa0 then .fixArray ⟨n - 0x90, by omega⟩
  else if h : n < 0xc0 then .fixStr ⟨n - 0xa0, by omega⟩
  else if n = 0xc0 then .nil
  else if n = 0xc1 then .reserved
  else if n < 0xc4 then .boolean (n = 0xc3)
  else if h : n < 0xc7 then .bin ⟨n - 0xc4, by omega⟩
  else if h : n < 0xca then .ext ⟨n - 0xc7, by omega⟩
  else if n = 0xca then .float
  else if n = 0xcb then .double
  else if h : n < 0xd0 then .unsigned ⟨n - 0xcc, by omega⟩
  else if h : n < 0xd4 then .signed ⟨n - 0xd0, by omega⟩
  else if h : n < 0xd9 then .fixExt ⟨n - 0xd4, by omega⟩
  else if h : n < 0xdc then .str ⟨n - 0xd9, by omega⟩
  else if h : n < 0xde then .array ⟨n - 0xdc, by omega⟩
  else if h : n < 0xe0 then .map ⟨n - 0xde, by omega⟩
  else .negative ⟨n - 0xe0, by have := byte.toNat_lt; omega⟩

@[simp] theorem toByte_ofByte (byte : UInt8) : (ofByte byte).toByte = byte := by
  have all : ∀ n : Fin 256, (ofByte (.ofFin n)).toByte = .ofFin n := by
    decide +kernel
  exact all byte.toFin

@[simp] theorem ofByte_toByte (tag : Tag) : ofByte tag.toByte = tag := by
  cases tag with
  | nil | reserved | float | double => rfl
  | boolean value => cases value <;> rfl
  | positive value => revert value; decide +kernel
  | fixMap size => revert size; decide
  | fixArray size => revert size; decide
  | fixStr length => revert length; decide
  | bin i => revert i; decide
  | ext i => revert i; decide
  | unsigned i => revert i; decide
  | signed i => revert i; decide
  | fixExt i => revert i; decide
  | str i => revert i; decide
  | array i => revert i; decide
  | map i => revert i; decide
  | negative value => revert value; decide +kernel

end Tag
end MessagePack
