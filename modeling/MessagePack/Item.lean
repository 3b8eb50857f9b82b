import MessagePack.Time.Timestamp

/-! The items of the format: what an item's header tells, the item with its payload,
and the kinds of items. -/
namespace MessagePack

def timestampType : Int8 := -1

inductive Kind where
  | nil
  | boolean
  | positiveInteger
  | negativeInteger
  | float
  | double
  | str
  | bin
  | array
  | map
  | ext (type : Int8)
  | timestamp
  /-- What looking ahead answers when no item can be made out. -/
  | notAnItem
  deriving DecidableEq, Repr

namespace Kind

def ofExtType (type : Int8) : Kind := if type = timestampType then .timestamp else .ext type

/-- Negative types are reserved, all others belong to the user. -/
def isUserExt : Kind → Bool
  | .ext type => 0 ≤ type
  | _ => false

def isReservedExt : Kind → Bool
  | .ext type => type < 0
  | .timestamp => true
  | _ => false

end Kind

/-- All that is known of an item before its payload. Reals are bit patterns. -/
inductive Header where
  | nil
  | boolean (value : Bool)
  | integer (value : Int)
  | float (bits : UInt32)
  | double (bits : UInt64)
  | str (length : Nat)
  | bin (length : Nat)
  | array (size : Nat)
  | map (size : Nat)
  | ext (type : Int8) (length : Nat)
  | timestamp (time : Timestamp)
  deriving DecidableEq, Repr

inductive Item where
  | nil
  | boolean (value : Bool)
  | integer (value : Int)
  | float (bits : UInt32)
  | double (bits : UInt64)
  | str (bytes : List UInt8)
  | bin (bytes : List UInt8)
  | array (size : Nat)
  | map (size : Nat)
  | ext (type : Int8) (bytes : List UInt8)
  | timestamp (time : Timestamp)
  deriving DecidableEq, Repr

namespace Header

def kind : Header → Kind
  | .nil => .nil
  | .boolean _ => .boolean
  | .integer value => if 0 ≤ value then .positiveInteger else .negativeInteger
  | .float _ => .float
  | .double _ => .double
  | .str _ => .str
  | .bin _ => .bin
  | .array _ => .array
  | .map _ => .map
  | .ext type _ => .ext type
  | .timestamp _ => .timestamp

/-- The length of the payload that follows the header, if one does. -/
def payloadLength? : Header → Option Nat
  | .str length | .bin length | .ext _ length => some length
  | _ => none

/-- The item of a header and its payload. -/
def withPayload (payload : List UInt8) : Header → Item
  | .nil => .nil
  | .boolean value => .boolean value
  | .integer value => .integer value
  | .float bits => .float bits
  | .double bits => .double bits
  | .str _ => .str payload
  | .bin _ => .bin payload
  | .array size => .array size
  | .map size => .map size
  | .ext type _ => .ext type payload
  | .timestamp time => .timestamp time

end Header

namespace Item

def header : Item → Header
  | .nil => .nil
  | .boolean value => .boolean value
  | .integer value => .integer value
  | .float bits => .float bits
  | .double bits => .double bits
  | .str bytes => .str bytes.length
  | .bin bytes => .bin bytes.length
  | .array size => .array size
  | .map size => .map size
  | .ext type bytes => .ext type bytes.length
  | .timestamp time => .timestamp time

def kind (item : Item) : Kind := item.header.kind

/-- The payload, empty for items that carry none. -/
def payload : Item → List UInt8
  | .str bytes | .bin bytes | .ext _ bytes => bytes
  | _ => []

def text? : Item → Option String
  | .str bytes => String.fromUTF8? ⟨bytes.toArray⟩
  | _ => none

@[simp] theorem withPayload_header (item : Item) :
    item.header.withPayload item.payload = item := by cases item <;> rfl

theorem payloadLength?_header (item : Item) :
    item.header.payloadLength? = none ∧ item.payload = [] ∨
      item.header.payloadLength? = some item.payload.length := by
  cases item <;> simp [header, Header.payloadLength?, payload]

end Item

namespace Header

theorem kind_withPayload (header : Header) (payload : List UInt8) :
    (header.withPayload payload).kind = header.kind := by cases header <;> rfl

theorem withPayload_of_none {header : Header} (none : header.payloadLength? = none) :
    (header.withPayload []).header = header ∧ (header.withPayload []).payload = [] := by
  cases header <;> cases none <;> exact ⟨rfl, rfl⟩

theorem withPayload_of_some {header : Header} {payload : List UInt8}
    (announced : header.payloadLength? = some payload.length) :
    (header.withPayload payload).header = header ∧
      (header.withPayload payload).payload = payload := by
  cases header <;> cases announced <;> exact ⟨rfl, rfl⟩

end Header

end MessagePack
