/-! Byte streams to read from. A stream delivers fixed bytes in order, at a pace that its
plan lays down: how many bytes a call gives at most, which calls fail or give nothing,
and how often a call is interrupted before it is answered. No plan interrupts forever,
and none alters the bytes. -/
namespace MessagePack

/-- How a stream meets a call. -/
inductive Input.Beat where
  | deliver (atMost : Nat)
  | fail (text : String)
  deriving DecidableEq, Repr

structure Input.Plan where
  /-- By the number of calls answered before, the bytes given so far and the room offered. -/
  beat : (call given room : Nat) → Input.Beat
  /-- The number of interruptions before a call is answered. -/
  pauses : (call : Nat) → Nat

structure Input where
  pending : List UInt8
  given : Nat
  call : Nat
  paused : Nat
  plan : Input.Plan

namespace Input

inductive Outcome where
  /-- No bytes mean the end of the stream. -/
  | bytes (bytes : List UInt8)
  | interrupted
  | failed (text : String)
  deriving DecidableEq, Repr

def Plan.steady : Plan := ⟨fun _ _ room => .deliver room, fun _ => 0⟩

/-- Gives at most `chunk call` bytes a call, pauses once before every call but the first
if `pausing`, and fails with a text once a number of bytes has been given. -/
def Plan.paced (chunk : Nat → Nat) (pausing : Bool) (failure : Option (Nat × String)) : Plan where
  beat call given _ :=
    match failure with
    | none => .deliver (chunk call)
    | some (limit, text) =>
      if limit ≤ given then .fail text else .deliver (min (chunk call) (limit - given))
  pauses call := if pausing ∧ 0 < call then 1 else 0

def ofBytes (bytes : List UInt8) (plan : Plan) : Input := ⟨bytes, 0, 0, 0, plan⟩

def read (input : Input) (room : Nat) : Outcome × Input :=
  if input.paused < input.plan.pauses input.call then
    (.interrupted, { input with paused := input.paused + 1 })
  else
    let input := { input with call := input.call + 1, paused := 0 }
    match input.plan.beat (input.call - 1) input.given room with
    | .fail text => (.failed text, input)
    | .deliver atMost =>
      let bytes := input.pending.take (min atMost room)
      (.bytes bytes,
        { input with
          pending := input.pending.drop (min atMost room)
          given := input.given + bytes.length })

/-- The interruptions that the next call still has before it. -/
def pausesLeft (input : Input) : Nat := input.plan.pauses input.call - input.paused

theorem read_bytes {input next : Input} {room : Nat} {bytes : List UInt8}
    (h : input.read room = (.bytes bytes, next)) : input.pending = bytes ++ next.pending := by
  unfold read at h
  split at h
  · cases h
  · dsimp only at h
    split at h <;> cases h
    exact (List.take_append_drop _ _).symm

theorem length_read_bytes {input next : Input} {room : Nat} {bytes : List UInt8}
    (h : input.read room = (.bytes bytes, next)) : bytes.length ≤ room := by
  unfold read at h
  split at h
  · cases h
  · dsimp only at h
    split at h <;> cases h
    rw [List.length_take]
    omega

theorem read_failed {input next : Input} {room : Nat} {text : String}
    (h : input.read room = (.failed text, next)) : next.pending = input.pending := by
  unfold read at h
  split at h
  · cases h
  · dsimp only at h
    split at h <;> cases h
    rfl

theorem read_interrupted {input next : Input} {room : Nat}
    (h : input.read room = (.interrupted, next)) :
    next.pending = input.pending ∧ next.pausesLeft < input.pausesLeft := by
  unfold read at h
  split at h
  · cases h
    simp only [pausesLeft, true_and]
    omega
  · dsimp only at h
    split at h <;> cases h

end Input
end MessagePack
