import MessagePack.Buffer.Region
import MessagePack.Fault
import MessagePack.Wire.Position

/-! The buffer that packed bytes are written to. They lie from `start` up to `current`;
what follows is free. A barrier holds back the bytes from it on when the buffer is
drained, so that they can still be patched. -/
namespace MessagePack

structure Outgoing where
  region : Region
  start : Nat
  current : Nat
  barrier : Option Nat
  /-- The text of the failure that a handler met, for the caller to look at. -/
  failure : Option String
  deriving DecidableEq, Repr

namespace Outgoing

def ofRegion (region : Region) : Outgoing := ⟨region, 0, 0, none, none⟩

def ofSize (size : Nat) : Outgoing := ofRegion (.zeros size)

def stop (buffer : Outgoing) : Nat := buffer.region.size

def remaining (buffer : Outgoing) : Nat := buffer.stop - buffer.current

def packed (buffer : Outgoing) : List UInt8 := buffer.region.slice buffer.start buffer.current

/-- The packed bytes from the barrier on, none without one. -/
def pinned (buffer : Outgoing) : List UInt8 :=
  match buffer.barrier with
  | some barrier => buffer.region.slice barrier buffer.current
  | none => []

/-! The same views with their ranges checked: none where a position is out of order. -/

def remaining? (buffer : Outgoing) : Option Nat := Position.sub? buffer.stop buffer.current

def packed? (buffer : Outgoing) : Option (List UInt8) :=
  buffer.region.slice? buffer.start buffer.current

def pinned? (buffer : Outgoing) : Option (List UInt8) :=
  match buffer.barrier with
  | some barrier => buffer.region.slice? barrier buffer.current
  | none => some []

def setBarrier (buffer : Outgoing) : Outgoing := { buffer with barrier := some buffer.current }

def clearBarrier (buffer : Outgoing) : Outgoing := { buffer with barrier := none }

/-- Writes over pinned bytes, counted from the barrier, unless they run past the end. -/
def patch? (buffer : Outgoing) (position : Nat) (bytes : List UInt8) : Option Outgoing :=
  let barrier := buffer.barrier.getD buffer.current
  if position + bytes.length ≤ buffer.current - barrier then
    some { buffer with region := buffer.region.overwrite (barrier + position) bytes }
  else none

/-- Writes over any bytes of the region. -/
def poke? (buffer : Outgoing) (position : Nat) (bytes : List UInt8) : Option Outgoing :=
  if position + bytes.length ≤ buffer.stop then
    some { buffer with region := buffer.region.overwrite position bytes }
  else none

/-- Takes `needed` of the free bytes and writes `bytes` into them. -/
def claim (buffer : Outgoing) (needed : Nat) (bytes : List UInt8) : Outgoing :=
  { buffer with
    region := buffer.region.overwrite buffer.current bytes
    current := buffer.current + needed }

def append (buffer : Outgoing) (bytes : List UInt8) : Outgoing :=
  { buffer with
    region := buffer.region.overwrite buffer.current bytes
    current := buffer.current + bytes.length }

def resize (buffer : Outgoing) (size : Nat) : Status × Outgoing :=
  match buffer.region.resize? size with
  | some region => (.ok (), { buffer with region })
  | none => (.error .allocationError, buffer)

/-- The first size in `size, 2 * size, 4 * size, …` that is at least `required`. -/
def doubled (required size : Nat) : Nat :=
  if 0 < size ∧ size < required then doubled required (2 * size) else size
termination_by required - size

/-- Doubles the region until `needed` bytes are free. -/
def growFor (buffer : Outgoing) (needed : Nat) : Status × Outgoing :=
  let required := buffer.current + needed
  let size := doubled required (max buffer.stop 1)
  if Position.modulus ≤ required ∨ Position.modulus ≤ size then (.error .allocationError, buffer)
  else if size = buffer.stop then (.ok (), buffer)
  else buffer.resize size

/-- Drops the packed bytes before `upto` and moves the others to the front. -/
def discardFront (buffer : Outgoing) (upto : Nat) : Outgoing :=
  let upto := max buffer.start (min upto buffer.current)
  let removed := upto - buffer.start
  if removed = 0 then buffer
  else { buffer with
    region := buffer.region.move upto buffer.current buffer.start
    current := buffer.current - removed
    barrier := buffer.barrier.map fun barrier => max (barrier - removed) buffer.start }

end Outgoing
end MessagePack
