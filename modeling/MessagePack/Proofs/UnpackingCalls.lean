import MessagePack.Proofs.FollowedReading
import MessagePack.Unpack.Source

/-! Sequences of calls to an unpacker, and what can be seen of them from outside: the
answers, the offsets, the status after every call. Unpackers that follow the same reading
cannot be told apart by any sequence of calls. -/
namespace MessagePack

namespace Unpacker

/-- The types that the next item can be read as. -/
inductive View where
  | nil
  | boolean
  | signed (width : Nat)
  | unsigned (width : Nat)
  | float
  | double
  | timeInterval
  | strLength
  | binLength
  | arraySize
  | mapSize
  deriving DecidableEq, Repr

inductive Call where
  | next
  | nextHeader
  | nextAs (view : View)
  | skip (count : UInt64)
  | lookAhead
  | setBarrier
  | clearBarrier
  | rescan
  | status
  deriving DecidableEq, Repr

/-- What a call answers when it succeeds. -/
inductive Answer where
  | done
  | item (item : Item)
  | header (header : Header)
  | kind (kind : Kind)
  | boolean (value : Bool)
  | integer (value : Int)
  | count (value : Nat)
  | float (bits : UInt32)
  | double (bits : UInt64)
  | skipped (skipped : Skipped)
  deriving DecidableEq, Repr

def View.read : View → Item → Except Fault Answer
  | .nil, item => item.asNil.map fun _ => .done
  | .boolean, item => item.asBoolean.map .boolean
  | .signed width, item => (item.asSigned width).map .integer
  | .unsigned width, item => (item.asUnsigned width).map .count
  | .float, item => item.asFloat.map .float
  | .double, item => item.asDouble.map .double
  | .timeInterval, item => item.asTimeInterval.map .double
  | .strLength, item => item.asStrLength.map .count
  | .binLength, item => item.asBinLength.map .count
  | .arraySize, item => item.asArraySize.map .count
  | .mapSize, item => item.asMapSize.map .count

/-- What is seen of a call: its answer, and the offset and the status after it. -/
structure Outcome where
  answer : Except Fault Answer
  offset : Nat
  status : Status

variable [Inlet σ]

def call (call : Call) (unpacker : Unpacker σ) : Except Fault Answer × Unpacker σ :=
  match call with
  | .next => unpacker.next.map (·.map .item) id
  | .nextHeader => unpacker.nextHeader.map (·.map .header) id
  | .nextAs view => unpacker.nextAs view.read
  | .skip count => (unpacker.skip count).map (·.map .skipped) id
  | .lookAhead => unpacker.lookAhead.map (fun kind => .ok (.kind kind)) id
  | .setBarrier => (.ok .done, unpacker.setBarrier)
  | .clearBarrier => (.ok .done, unpacker.clearBarrier)
  | .rescan => unpacker.rescan.map (·.map fun _ => .done) id
  | .status => (unpacker.status.map fun _ => .done, unpacker)

def outcomes : List Call → Unpacker σ → List Outcome
  | [], _ => []
  | call :: calls, unpacker =>
    let (answer, unpacker) := unpacker.call call
    ⟨answer, unpacker.offset, unpacker.status⟩ :: unpacker.outcomes calls

end Unpacker

namespace Reading

def status (reading : Reading) : Status :=
  match reading.fault with
  | none => .ok ()
  | some fault => .error fault

def call (call : Unpacker.Call) (reading : Reading) :
    Except Fault Unpacker.Answer × Reading :=
  match call with
  | .next => reading.next.map (·.map .item) id
  | .nextHeader => reading.nextHeader.map (·.map .header) id
  | .nextAs view => reading.nextAs view.read
  | .skip count => (reading.skip count).map (·.map .skipped) id
  | .lookAhead => (.ok (.kind reading.lookAhead), reading)
  | .setBarrier => (.ok .done, reading.setBarrier)
  | .clearBarrier => (.ok .done, reading.clearBarrier)
  | .rescan => reading.rescan.map (·.map fun _ => .done) id
  | .status => (reading.status.map fun _ => .done, reading)

def outcomes : List Unpacker.Call → Reading → List Unpacker.Outcome
  | [], _ => []
  | call :: calls, reading =>
    let (answer, reading) := reading.call call
    ⟨answer, reading.position, reading.status⟩ :: reading.outcomes calls

end Reading

namespace Unpacker

variable [Inlet σ] [Feed σ] {unpacker : Unpacker σ} {reading : Reading}

theorem Agrees.map {result : α × Unpacker σ} {expected : α × Reading}
    (agrees : Agrees result expected) (f : α → β) :
    Agrees (result.map f id) (expected.map f id) :=
  ⟨congrArg f agrees.1, agrees.2⟩

theorem Follows.status_eq (follows : unpacker.Follows reading) :
    unpacker.status = reading.status := by
  have same := follows.fault
  simp only [status, Reading.status]
  cases failed : reading.fault with
  | none => rw [same.trans failed]
  | some fault => rw [same.trans failed]

theorem Follows.call (follows : unpacker.Follows reading) (call : Call) :
    Agrees (unpacker.call call) (reading.call call) := by
  cases call with
  | next => exact follows.next.map _
  | nextHeader => exact follows.nextHeader.map _
  | nextAs view => exact follows.nextAs _
  | skip count => exact (follows.skip count).map _
  | lookAhead =>
    exact follows.lookAhead.map fun kind => (.ok (.kind kind) : Except Fault Answer)
  | setBarrier => exact ⟨rfl, follows.setBarrier⟩
  | clearBarrier => exact ⟨rfl, follows.clearBarrier⟩
  | rescan => exact follows.rescan.map _
  | status => exact ⟨congrArg (·.map fun _ => Answer.done) follows.status_eq, follows⟩

theorem Follows.outcomes (follows : unpacker.Follows reading) (calls : List Call) :
    unpacker.outcomes calls = reading.outcomes calls := by
  induction calls generalizing unpacker reading with
  | nil => rfl
  | cons call calls ih =>
    obtain ⟨same, stays⟩ := follows.call call
    simp only [Unpacker.outcomes, Reading.outcomes]
    rw [same, ih stays, stays.status_eq, stays.offset]

theorem Follows.new {buffer : Incoming} (handler : σ) {input : List UInt8} {closing : Fault}
    (window : buffer.Window input (Feed.pending handler)) (unmoved : buffer.offset = 0)
    (unmarked : buffer.barrier = none)
    (faithful : Feed.Faithful handler input closing buffer.region.ceiling) (order : ByteOrder) :
    (Unpacker.new buffer handler order).Follows (.start input closing order) where
  window := window
  faithful := faithful
  offset := unmoved
  mark := by simp [Unpacker.new, Incoming.mark, unmarked, Reading.start]
  fault := rfl
  order := rfl

end Unpacker

/-- The end of a message in memory is the end of the input. -/
instance : Feed Exhausted where
  pending _ := []
  Faithful _ _ closing _ := closing = .endOfInput
  refill_brings window faithful short _ := by
    refine ⟨⟨window, rfl, rfl, rfl, ?_, ?_⟩, faithful⟩
    · rw [window.length_drop, List.length_nil, Nat.add_zero, if_neg (Nat.not_le_of_lt short),
        faithful]
      rfl
    · rintro ⟨⟩

theorem Unpacker.follows_ofBytes (bytes : List UInt8) (order : ByteOrder) :
    (ofBytes bytes order).Follows (.start bytes .endOfInput order) :=
  .new _ (.ofBytes bytes) rfl rfl rfl order

end MessagePack
