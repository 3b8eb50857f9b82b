import MessagePack.Unpack.Unpacker

/-! Stepping over items without reading them. Nesting is flattened into one counter of
the items still to step over, to which every container adds its own; the counter is a
64-bit word, and a walk is aborted where the sum has no room in it. Each step reads at
least a tag, so a walk is never longer than its input. -/
namespace MessagePack

/-- How far an item reaches: the bytes behind its fields, and the items nested in it. -/
structure Extent where
  bytes : Nat
  items : Nat
  deriving DecidableEq, Repr

namespace Extent

def scanAfter (order : ByteOrder) (tag : Tag) : Scan Extent :=
  match tag with
  | .positive _ | .negative _ | .nil | .boolean _ => pure ⟨0, 0⟩
  | .reserved => .fail .malformedInput
  | .fixMap size => pure ⟨0, 2 * size.val⟩
  | .fixArray size => pure ⟨0, size.val⟩
  | .fixStr length => pure ⟨length.val, 0⟩
  | .unsigned i | .signed i => pure ⟨Tag.width i.val, 0⟩
  | .float => pure ⟨4, 0⟩
  | .double => pure ⟨8, 0⟩
  | .fixExt i => pure ⟨1 + Tag.width i.val, 0⟩
  | .str i | .bin i => do
    let length ← Scan.field order (Tag.width i.val)
    pure ⟨length, 0⟩
  | .ext i => do
    let length ← Scan.field order (Tag.width i.val)
    pure ⟨length + 1, 0⟩
  | .array i => do
    let size ← Scan.field order (Tag.width (i.val + 1))
    pure ⟨0, size⟩
  | .map i => do
    let size ← Scan.field order (Tag.width (i.val + 1))
    pure ⟨0, 2 * size⟩

/-- Steps over all of one item but the items nested in it, whose number it answers. -/
def scan (order : ByteOrder) : Scan Nat :=
  .take 1 true fun bytes => do
    let extent ← scanAfter order (.ofByte (bytes.headD 0))
    if extent.bytes = 0 then pure extent.items
    else .take extent.bytes false fun _ => .done extent.items

end Extent

/-- What becomes of a walk that no fault ends. -/
inductive Skipped where
  | whole
  /-- There are more items still to step over than a word can count. -/
  | overflow
  deriving DecidableEq, Repr

namespace Unpacker

variable [Inlet σ]

def skipPending (pending : Nat) (unpacker : Unpacker σ) : Except Fault Skipped × Unpacker σ :=
  match pending with
  | 0 => (.ok .whole, unpacker)
  | pending + 1 =>
    match _step : perform (Extent.scan unpacker.order) unpacker with
    | (.error fault, after) => (.error fault, after)
    | (.ok items, after) =>
      if pending + items < UInt64.size then skipPending (pending + items) after
      else (.ok .overflow, after)
termination_by unpacker.supply
decreasing_by
  have := supply_of_perform_take _step
  omega

def skip (unpacker : Unpacker σ) (count : UInt64) : Except Fault Skipped × Unpacker σ :=
  unpacker.attempt fun unpacker => skipPending count.toNat { unpacker with last := none }

end Unpacker
end MessagePack
