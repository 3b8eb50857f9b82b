import MessagePack.Stream.Input
import MessagePack.Unpack.Unpacker

/-! Where unpacked bytes come from: a message that is all in memory, or an input stream
that the buffer is refilled from. Memory follows the bytes that arrive and not the
lengths that they announce: the buffer grows only when it is full. -/
namespace MessagePack

/-- Has nothing to bring. -/
structure Exhausted where
  deriving DecidableEq, Repr

instance : Inlet Exhausted where
  refill handler buffer _ := ⟨.error .endOfInput, handler, buffer⟩
  supply _ := 0
  refill_le _ _ _ := Nat.le_refl _

structure Source where
  input : Input

namespace Source

/-- Makes room for at least one byte if there is none. -/
def openRoom (buffer : Incoming) (needed : Nat) : Status × Incoming :=
  if buffer.stop = buffer.capacity then buffer.growToward needed else (.ok (), buffer)

/-- Reads until `needed` bytes are unread. Interrupted calls are made again. -/
def readUntil (input : Input) (buffer : Incoming) (needed : Nat) : Inlet.Reply Source :=
  if needed ≤ buffer.remaining then ⟨.ok (), ⟨input⟩, buffer⟩
  else
    match openRoom buffer needed with
    | (.error fault, buffer) => ⟨.error fault, ⟨input⟩, buffer⟩
    | (.ok _, buffer) =>
      match _read : input.read buffer.room with
      | (.failed text, input) =>
        ⟨.error .errorInHandler, ⟨input⟩, { buffer with failure := some text }⟩
      | (.bytes [], input) => ⟨.error .endOfInput, ⟨input⟩, buffer⟩
      | (.bytes (byte :: bytes), input) =>
        readUntil input ((buffer.fill (byte :: bytes)).commit (bytes.length + 1)) needed
      | (.interrupted, input) => readUntil input buffer needed
termination_by (input.pending.length, input.pausesLeft)
decreasing_by
  · have := Input.read_bytes _read
    apply Prod.Lex.left
    rw [this, List.length_append, List.length_cons]
    omega
  · obtain ⟨same, fewer⟩ := Input.read_interrupted _read
    rw [same]
    exact Prod.Lex.right _ fewer

/-- Drops what need not be kept and reads behind the rest. -/
def refill (source : Source) (buffer : Incoming) (needed : Nat) : Inlet.Reply Source :=
  readUntil source.input buffer.compact needed

theorem remaining_openRoom (buffer : Incoming) (needed : Nat) :
    (openRoom buffer needed).2.remaining = buffer.remaining := by
  unfold openRoom
  split
  · exact Incoming.remaining_growToward buffer needed
  · rfl

theorem readUntil_le (input : Input) (buffer : Incoming) (needed : Nat) :
    (readUntil input buffer needed).buffer.remaining +
        (readUntil input buffer needed).handler.input.pending.length ≤
      buffer.remaining + input.pending.length := by
  fun_induction readUntil input buffer needed with
  | case1 => exact Nat.le_refl _
  | case2 input buffer _ fault grown h =>
    have := remaining_openRoom buffer needed
    rw [h] at this
    simp only at *
    omega
  | case3 input buffer _ _ grown h text next read =>
    have := remaining_openRoom buffer needed
    have := Input.read_failed read
    rw [h] at *
    simp only [Incoming.remaining] at *
    simp_all
  | case4 input buffer _ _ grown h next read =>
    have := remaining_openRoom buffer needed
    have := Input.read_bytes read
    rw [h] at *
    simp_all
  | case5 input buffer _ _ grown h byte bytes next read ih =>
    have same := remaining_openRoom buffer needed
    have split := congrArg List.length (Input.read_bytes read)
    have taken := Incoming.remaining_commit_le (grown.fill (byte :: bytes)) (bytes.length + 1)
    have filled : (grown.fill (byte :: bytes)).remaining = grown.remaining := rfl
    rw [h] at same
    simp only [List.length_append, List.length_cons] at *
    omega
  | case6 input buffer _ _ grown h next read ih =>
    have same := remaining_openRoom buffer needed
    rw [h] at same
    rw [(Input.read_interrupted read).1, same] at ih
    exact ih

instance : Inlet Source where
  refill := refill
  supply source := source.input.pending.length
  refill_le source buffer needed :=
    Nat.le_trans (readUntil_le source.input buffer.compact needed)
      (Nat.add_le_add_right (Incoming.remaining_compact_le buffer) _)

end Source

namespace Unpacker

def ofBytes (bytes : List UInt8) (order : ByteOrder) : Unpacker Exhausted :=
  new (.ofBytes bytes) ⟨⟩ order

def defaultCapacity : Nat := 1024

/-- Capacity 0 asks for the default. -/
def ofInput (input : Input) (capacity : Nat) (order : ByteOrder) : Unpacker Source :=
  new (.ofCapacity (if capacity = 0 then defaultCapacity else capacity)) ⟨input⟩ order

end Unpacker
end MessagePack
