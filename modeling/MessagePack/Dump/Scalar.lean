import MessagePack.Item
import MessagePack.Number.Shortest
import MessagePack.Text.Quoted
import MessagePack.Time.Calendar

/-! The text of items that hold no others. -/
namespace MessagePack.Dump

open Number

def payloadText (bytes : List UInt8) : List Char := '<' :: Hex.text bytes ++ ['>']

/-- Nothing is written for containers, which are printed element by element. -/
def scalar : Item → List UInt8
  | .nil => asciiString "nil"
  | .boolean value => asciiString (if value then "true" else "false")
  | .integer value => ascii (signedDecimal value)
  | .float bits => ascii (Format.single.text bits.toNat)
  | .double bits => ascii (Format.double.text bits.toNat)
  | .str bytes => Quoted.encode bytes
  | .bin bytes => ascii (payloadText bytes)
  | .ext type bytes => ascii ('(' :: signedDecimal type.toInt ++ ',' :: payloadText bytes ++ [')'])
  | .timestamp time => ascii ('\'' :: Calendar.text time ++ ['\''])
  | .array _ | .map _ => []

end MessagePack.Dump
