import MessagePack.Buffer.Region
import MessagePack.Fault
import MessagePack.Wire.Position

/-! The buffer that items are read from, a window on the input. Unread bytes lie from
`current` up to `stop`, and room for more follows. Bytes that compaction drops are
counted, so that positions in the whole input are always known. A barrier keeps the
bytes from it on, so that they can be read again. -/
namespace MessagePack

structure Incoming where
  region : Region
  start : Nat
  current : Nat
  stop : Nat
  /-- The number of bytes that compaction has dropped. -/
  discarded : Nat
  barrier : Option Nat
  /-- The text of the failure that a handler met, for the caller to look at. -/
  failure : Option String
  deriving DecidableEq, Repr

namespace Incoming

def ofBytes (bytes : List UInt8) : Incoming := ⟨.ofList bytes, 0, 0, bytes.length, 0, none, none⟩

def ofCapacity (capacity : Nat) : Incoming := ⟨.zeros capacity, 0, 0, 0, 0, none, none⟩

def capacity (buffer : Incoming) : Nat := buffer.region.size

def remaining (buffer : Incoming) : Nat := buffer.stop - buffer.current

def unread (buffer : Incoming) : List UInt8 := buffer.region.slice buffer.current buffer.stop

def offset (buffer : Incoming) : Nat := buffer.discarded + (buffer.current - buffer.start)

/-- The bytes read since the barrier, none without one. -/
def pinned (buffer : Incoming) : List UInt8 :=
  match buffer.barrier with
  | some barrier => buffer.region.slice barrier buffer.current
  | none => []

/-! The same views with their ranges checked: none where a position is out of order. -/

def remaining? (buffer : Incoming) : Option Nat := Position.sub? buffer.stop buffer.current

def unread? (buffer : Incoming) : Option (List UInt8) :=
  buffer.region.slice? buffer.current buffer.stop

def offset? (buffer : Incoming) : Option Nat :=
  (Position.sub? buffer.current buffer.start).map (buffer.discarded + ·)

def pinned? (buffer : Incoming) : Option (List UInt8) :=
  match buffer.barrier with
  | some barrier => buffer.region.slice? barrier buffer.current
  | none => some []

/-- The room after the unread bytes. -/
def spare? (buffer : Incoming) : Option (List UInt8) :=
  buffer.region.slice? buffer.stop buffer.capacity

/-- The bytes from `offset` of the whole input on that the region still holds. -/
def held? (buffer : Incoming) (offset length : Nat) : Option (List UInt8) :=
  if buffer.discarded ≤ offset then
    let position := offset - buffer.discarded + buffer.start
    if position + length ≤ buffer.capacity then
      some (buffer.region.slice position (position + length))
    else none
  else none

def setBarrier (buffer : Incoming) : Incoming := { buffer with barrier := some buffer.current }

def clearBarrier (buffer : Incoming) : Incoming := { buffer with barrier := none }

/-- Goes back to the barrier, if there is one. -/
def rescan? (buffer : Incoming) : Option Incoming :=
  buffer.barrier.map fun barrier => { buffer with current := barrier }

/-- Steps over unread bytes. -/
def advance (buffer : Incoming) (count : Nat) : Incoming :=
  { buffer with current := buffer.current + count }

/-- The number of bytes that there is room for after the unread ones. -/
def room (buffer : Incoming) : Nat := buffer.capacity - buffer.stop

/-- Puts bytes into the room after the unread ones, as many as it holds. -/
def fill (buffer : Incoming) (bytes : List UInt8) : Incoming :=
  { buffer with region := buffer.region.overwrite buffer.stop bytes }

/-- Takes `count` bytes of the room for input. -/
def commit (buffer : Incoming) (count : Nat) : Incoming :=
  { buffer with stop := min (buffer.stop + count) buffer.capacity }

/-- The same with its sum checked: none where the end and `count` are past the top. -/
def commit? (buffer : Incoming) (count : Nat) : Option Incoming :=
  (Position.add? buffer.stop count).map fun stop =>
    { buffer with stop := min stop buffer.capacity }

/-- Moves the bytes from the barrier on, or the unread ones, to the front. -/
def compact (buffer : Incoming) : Incoming :=
  let keep := max buffer.start (min (buffer.barrier.getD buffer.current) buffer.current)
  if keep = 0 then buffer
  else { buffer with
    region := buffer.region.move keep buffer.stop 0
    start := 0
    current := buffer.current - keep
    stop := buffer.stop - keep
    discarded := buffer.discarded + (keep - buffer.start)
    barrier := buffer.barrier.map (· - keep) }

/-- Doubles the region once, but no further than `needed` unread bytes call for. -/
def growToward (buffer : Incoming) (needed : Nat) : Status × Incoming :=
  let required := buffer.current + needed
  if Position.modulus ≤ required then (.error .allocationError, buffer)
  else if required ≤ buffer.capacity then (.ok (), buffer)
  else
    match buffer.region.resize? (min (2 * max buffer.capacity 1) required) with
    | some region => (.ok (), { buffer with region })
    | none => (.error .allocationError, buffer)

theorem remaining_compact_le (buffer : Incoming) : buffer.compact.remaining ≤ buffer.remaining := by
  simp only [compact]
  split
  · exact Nat.le_refl _
  · simp only [remaining]; omega

theorem remaining_commit_le (buffer : Incoming) (count : Nat) :
    (buffer.commit count).remaining ≤ buffer.remaining + count := by
  simp only [remaining, commit]
  omega

theorem remaining_growToward (buffer : Incoming) (needed : Nat) :
    (buffer.growToward needed).2.remaining = buffer.remaining := by
  simp only [growToward]
  split
  · rfl
  · split
    · rfl
    · split <;> rfl

end Incoming
end MessagePack
