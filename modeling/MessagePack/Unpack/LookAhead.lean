import MessagePack.Unpack.Unpacker

/-! Telling the kind of the next item without reading it. Only as much of the item is
looked at as its kind depends on, and a kind that cannot be made out is no fault. -/
namespace MessagePack

/-- What decides on the kind of an item once its tag is known. -/
inductive Kind.Clue where
  | known (kind : Kind)
  /-- The extension type, the last of so many bytes. -/
  | extType (count : Nat)
  /-- The sign bit of the byte after the tag, in an item of so many bytes. -/
  | sign (count : Nat)
  deriving DecidableEq, Repr

namespace Kind

def Clue.ofTag : Tag → Clue
  | .positive _ | .unsigned _ => .known .positiveInteger
  | .negative _ => .known .negativeInteger
  | .fixMap _ | .map _ => .known .map
  | .fixArray _ | .array _ => .known .array
  | .fixStr _ | .str _ => .known .str
  | .nil => .known .nil
  | .boolean _ => .known .boolean
  | .bin _ => .known .bin
  | .float => .known .float
  | .double => .known .double
  | .reserved => .known .notAnItem
  | .ext i => .extType (2 + Tag.width i.val)
  | .fixExt _ => .extType 2
  | .signed i => .sign (1 + Tag.width i.val)

end Kind

namespace Unpacker

variable [Refiller σ]

/-- The kind of the next item, which stays unread. -/
def lookAhead (unpacker : Unpacker σ) : Kind × Unpacker σ :=
  if unpacker.fault.isSome then (.notAnItem, unpacker)
  else
    match unpacker.peek 1 with
    | (none, unpacker) => (.notAnItem, unpacker)
    | (some bytes, unpacker) =>
      match Kind.Clue.ofTag (.ofByte (bytes.headD 0)) with
      | .known kind => (kind, unpacker)
      | .extType count =>
        match unpacker.peek count with
        | (none, unpacker) => (.notAnItem, unpacker)
        | (some bytes, unpacker) => (.ofExtType (bytes.getD (count - 1) 0).toInt8, unpacker)
      | .sign count =>
        match unpacker.peek count with
        | (none, unpacker) => (.notAnItem, unpacker)
        | (some bytes, unpacker) =>
          (if bytes.getD 1 0 < 0x80 then .positiveInteger else .negativeInteger, unpacker)

end Unpacker
end MessagePack
