import MessagePack.Buffer.Incoming
import MessagePack.Wire.Decode

/-! Unpacking items from a buffer. When the buffer holds too few bytes a handler of the
caller's choice is asked for more. The first fault of an unpacker is final: every later
call answers it and reads nothing. The item read last can be asked for again as long as
the buffer still holds its payload. -/
namespace MessagePack

/-- What a handler leaves behind. -/
structure Inlet.Reply (σ : Type) where
  status : Status
  handler : σ
  buffer : Incoming

/-- A handler of incoming bytes. -/
class Refiller (σ : Type) where
  /-- Sees to it that `needed` bytes are unread. `endOfInput` says that there are no more. -/
  refill (handler : σ) (buffer : Incoming) (needed : Nat) : Inlet.Reply σ

/-- A handler of which what it can still bring is finite, so that reading from it comes to an end. -/
class Inlet (σ : Type) extends Refiller σ where
  /-- A bound on the bytes that the handler can still bring. -/
  supply (handler : σ) : Nat
  refill_le (handler : σ) (buffer : Incoming) (needed : Nat) :
    (refill handler buffer needed).buffer.remaining + supply (refill handler buffer needed).handler
      ≤ buffer.remaining + supply handler

/-- The header read last, and where in the input its payload lies once that is buffered. -/
structure Decoded where
  header : Header
  payloadAt : Option Nat
  deriving DecidableEq, Repr

structure Unpacker (σ : Type) where
  buffer : Incoming
  handler : σ
  order : ByteOrder
  /-- The first fault, if there was one. -/
  fault : Option Fault
  last : Option Decoded

namespace Unpacker

/-- A byte order that the host does not have is a fault from the start. -/
def new (buffer : Incoming) (handler : σ) (order : ByteOrder) : Unpacker σ where
  buffer := buffer
  handler := handler
  order := order
  fault :=
    match order.verify with
    | .ok _ => none
    | .error fault => some fault.toFault
  last := none

def status (unpacker : Unpacker σ) : Status :=
  match unpacker.fault with
  | none => .ok ()
  | some fault => .error fault

def offset (unpacker : Unpacker σ) : Nat := unpacker.buffer.offset

def setBarrier (unpacker : Unpacker σ) : Unpacker σ :=
  { unpacker with buffer := unpacker.buffer.setBarrier }

def clearBarrier (unpacker : Unpacker σ) : Unpacker σ :=
  { unpacker with buffer := unpacker.buffer.clearBarrier }

/-- Keeps the fault of an answer, unless one stands already, and forgets the last item
over it. -/
def settle (answer : Except Fault α) (unpacker : Unpacker σ) : Except Fault α × Unpacker σ :=
  match answer with
  | .ok value => (.ok value, unpacker)
  | .error fault =>
    (.error fault, { unpacker with fault := unpacker.fault <|> some fault, last := none })

/-- Carries out a call unless a fault stands, and keeps the fault that it ends in. -/
def attempt (unpacker : Unpacker σ) (call : Unpacker σ → Except Fault α × Unpacker σ) :
    Except Fault α × Unpacker σ :=
  match unpacker.fault with
  | some fault => (.error fault, unpacker)
  | none =>
    let (answer, unpacker) := call unpacker
    unpacker.settle answer

/-- The item read last. There is none after a fault, nor when its payload was not read or
has been dropped from the buffer. -/
def item? (unpacker : Unpacker σ) : Option Item :=
  match unpacker.last with
  | none => none
  | some ⟨header, payloadAt⟩ =>
    match header.payloadLength? with
    | none => some (header.withPayload [])
    | some length => do
      let offset ← payloadAt
      let payload ← unpacker.buffer.held? offset length
      some (header.withPayload payload)

/-- Goes back to the barrier, so that the items from it on can be read again. -/
def rescan (unpacker : Unpacker σ) : Status × Unpacker σ :=
  unpacker.attempt fun unpacker =>
    match unpacker.buffer.rescan? with
    | none => (.error .illegalCall, unpacker)
    | some buffer => (.ok (), { unpacker with buffer, last := none })

section

variable [Refiller σ]

/-- Takes over what a handler leaves behind when asked for `needed` bytes. -/
def refill (unpacker : Unpacker σ) (needed : Nat) : Status × Unpacker σ :=
  let reply := Refiller.refill unpacker.handler unpacker.buffer needed
  (reply.status, { unpacker with handler := reply.handler, buffer := reply.buffer })

/-- Sees to it that `needed` bytes are unread. A handler that reports success without
bringing them has reached the end as well as one that says so. -/
def demand (unpacker : Unpacker σ) (needed : Nat) (leading : Bool) : Status × Unpacker σ :=
  if needed ≤ unpacker.buffer.remaining then (.ok (), unpacker)
  else
    match unpacker.refill needed with
    | (.ok _, unpacker) =>
      if needed ≤ unpacker.buffer.remaining then (.ok (), unpacker)
      else (.error (Scan.shortage leading), unpacker)
    | (.error .endOfInput, unpacker) => (.error (Scan.shortage leading), unpacker)
    | (.error fault, unpacker) => (.error fault, unpacker)

def front (unpacker : Unpacker σ) (count : Nat) : List UInt8 :=
  let current := unpacker.buffer.current
  unpacker.buffer.region.slice current (current + count)

def take (unpacker : Unpacker σ) (count : Nat) (leading : Bool) :
    Except Fault (List UInt8) × Unpacker σ :=
  match unpacker.demand count leading with
  | (.error fault, unpacker) => (.error fault, unpacker)
  | (.ok _, unpacker) =>
    (.ok (unpacker.front count), { unpacker with buffer := unpacker.buffer.advance count })

/-- The next `count` bytes, which stay unread; none if they cannot be had. -/
def peek (unpacker : Unpacker σ) (count : Nat) : Option (List UInt8) × Unpacker σ :=
  match unpacker.demand count true with
  | (.error _, unpacker) => (none, unpacker)
  | (.ok _, unpacker) => (some (unpacker.front count), unpacker)

/-- Runs a scan on the input. -/
def perform : Scan α → Unpacker σ → Except Fault α × Unpacker σ
  | .done value, unpacker => (.ok value, unpacker)
  | .fail fault, unpacker => (.error fault, unpacker)
  | .take count leading next, unpacker =>
    match unpacker.take count leading with
    | (.error fault, unpacker) => (.error fault, unpacker)
    | (.ok bytes, unpacker) => perform (next bytes) unpacker

/-- Reads the header of the next item, and leaves its payload unread. -/
def nextHeader (unpacker : Unpacker σ) : Except Fault Header × Unpacker σ :=
  unpacker.attempt fun unpacker =>
    match perform (Header.scan unpacker.order) { unpacker with last := none } with
    | (.error fault, unpacker) => (.error fault, unpacker)
    | (.ok header, unpacker) => (.ok header, { unpacker with last := some ⟨header, none⟩ })

/-- Reads the payload that a header announces. -/
def readPayload (header : Header) (unpacker : Unpacker σ) : Except Fault Item × Unpacker σ :=
  match header.payloadLength? with
  | none => (.ok (header.withPayload []), { unpacker with last := some ⟨header, none⟩ })
  | some length =>
    match unpacker.take length false with
    | (.error fault, unpacker) => (.error fault, unpacker)
    | (.ok payload, unpacker) =>
      (.ok (header.withPayload payload),
        { unpacker with last := some ⟨header, some (unpacker.offset - length)⟩ })

def next (unpacker : Unpacker σ) : Except Fault Item × Unpacker σ :=
  unpacker.attempt fun unpacker =>
    match perform (Header.scan unpacker.order) { unpacker with last := none } with
    | (.error fault, unpacker) => (.error fault, unpacker)
    | (.ok header, unpacker) => unpacker.readPayload header

theorem remaining_of_demand {unpacker after : Unpacker σ} {needed : Nat} {leading : Bool}
    (h : unpacker.demand needed leading = (.ok (), after)) : needed ≤ after.buffer.remaining := by
  unfold demand at h
  split at h
  · cases h; assumption
  · split at h
    · split at h <;> cases h; assumption
    · cases h
    · cases h

end

section

variable [Inlet σ]

/-- The bytes that are unread or can still be brought: what bounds every reading loop. -/
def supply (unpacker : Unpacker σ) : Nat :=
  unpacker.buffer.remaining + Inlet.supply unpacker.handler

theorem supply_demand_le (unpacker : Unpacker σ) (needed : Nat) (leading : Bool) :
    (unpacker.demand needed leading).2.supply ≤ unpacker.supply := by
  have refilled : (unpacker.refill needed).2.supply ≤ unpacker.supply :=
    Inlet.refill_le unpacker.handler unpacker.buffer needed
  unfold demand
  split
  · exact Nat.le_refl _
  · split <;> rename_i h <;> rw [h] at refilled
    · split <;> exact refilled
    · exact refilled
    · exact refilled

theorem supply_take_le (unpacker : Unpacker σ) (count : Nat) (leading : Bool) :
    (unpacker.take count leading).2.supply ≤ unpacker.supply := by
  have demanded := supply_demand_le unpacker count leading
  unfold take
  split <;> rename_i h <;> rw [h] at demanded
  · exact demanded
  · simp only [supply, Incoming.remaining, Incoming.advance] at *
    omega

theorem supply_of_take {unpacker after : Unpacker σ} {count : Nat} {leading : Bool}
    {bytes : List UInt8} (h : unpacker.take count leading = (.ok bytes, after)) :
    after.supply + count ≤ unpacker.supply := by
  have demanded := supply_demand_le unpacker count leading
  unfold take at h
  split at h <;> rename_i demand
  · cases h
  · have enough := remaining_of_demand demand
    rw [demand] at demanded
    cases h
    simp only [supply, Incoming.remaining, Incoming.advance] at *
    omega

theorem supply_perform_le (scan : Scan α) (unpacker : Unpacker σ) :
    (perform scan unpacker).2.supply ≤ unpacker.supply := by
  induction scan generalizing unpacker with
  | done value => exact Nat.le_refl _
  | fail fault => exact Nat.le_refl _
  | take count leading next ih =>
    have taken := supply_take_le unpacker count leading
    rw [perform]
    split <;> rename_i h <;> rw [h] at taken
    · exact taken
    · exact Nat.le_trans (ih _ _) taken

theorem supply_of_perform_take {scan : List UInt8 → Scan α} {unpacker after : Unpacker σ}
    {count : Nat} {leading : Bool} {value : α}
    (h : perform (.take count leading scan) unpacker = (.ok value, after)) :
    after.supply + count ≤ unpacker.supply := by
  rw [perform] at h
  split at h
  · cases h
  · rename_i bytes between taken
    have := supply_of_take taken
    have rest := supply_perform_le (scan bytes) between
    rw [h] at rest
    simp only at rest
    omega

theorem supply_readPayload_le (header : Header) (unpacker : Unpacker σ) :
    (unpacker.readPayload header).2.supply ≤ unpacker.supply := by
  unfold readPayload
  split
  · exact Nat.le_refl _
  · rename_i length _
    have taken := supply_take_le unpacker length false
    split <;> rename_i h <;> rw [h] at taken <;> exact taken

theorem supply_settle (answer : Except Fault α) (unpacker : Unpacker σ) :
    (unpacker.settle answer).2.supply = unpacker.supply := by cases answer <;> rfl

omit [Inlet σ] in
theorem attempt_eq_ok {unpacker after : Unpacker σ} {value : α}
    {call : Unpacker σ → Except Fault α × Unpacker σ}
    (h : unpacker.attempt call = (.ok value, after)) : call unpacker = (.ok value, after) := by
  unfold attempt at h
  split at h
  · cases h
  · unfold settle at h
    generalize call unpacker = result at h
    obtain ⟨answer, state⟩ := result
    cases answer with
    | error fault => cases h
    | ok answer => exact h

theorem supply_next_lt {unpacker after : Unpacker σ} {item : Item}
    (h : unpacker.next = (.ok item, after)) : after.supply < unpacker.supply := by
  have h := attempt_eq_ok h
  split at h
  · cases h
  · rename_i header between scanned
    rw [Header.scan_eq] at scanned
    have tagged := supply_of_perform_take scanned
    have rest := supply_readPayload_le header between
    rw [h] at rest
    exact Nat.lt_of_le_of_lt rest tagged

end

end Unpacker
end MessagePack
