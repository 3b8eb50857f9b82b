import MessagePack.Text.Hex

/-! Byte strings in quotes. Quotes, backslashes and control characters are escaped; all
other bytes, be they text or not, stand for themselves. -/
namespace MessagePack.Quoted

/-- The letter that escapes a byte, where one does. -/
def letter? : UInt8 → Option Char
  | 0x22 => some '\"'
  | 0x5c => some '\\'
  | 0x08 => some 'b'
  | 0x0c => some 'f'
  | 0x0a => some 'n'
  | 0x0d => some 'r'
  | 0x09 => some 't'
  | _ => none

/-- How a byte is written between the quotes. -/
def escape (byte : UInt8) : List UInt8 :=
  match letter? byte with
  | some letter => ascii ['\\', letter]
  | none => if byte < 0x20 then ascii (['\\', 'u', '0', '0'] ++ Hex.pair byte) else [byte]

def quote : UInt8 := 0x22

def encode (bytes : List UInt8) : List UInt8 := quote :: (bytes.flatMap escape ++ [quote])

end MessagePack.Quoted
