/-! Byte streams to write to. A stream keeps the bytes that it accepts; its plan lays down
how many of those offered a call accepts, which calls fail, and which flushes do. -/
namespace MessagePack

/-- How a stream meets a call. -/
inductive Output.Beat where
  | accept (atMost : Nat)
  | fail (text : String)
  deriving DecidableEq, Repr

structure Output.Plan where
  /-- By the number of calls before, the bytes received so far and the bytes offered. -/
  beat : (call received offered : Nat) → Output.Beat
  /-- The failure of a flush, by the number of flushes before. -/
  flushFailure : (flush : Nat) → Option String

structure Output where
  received : Array UInt8
  call : Nat
  /-- The number of flushes, those that failed included. -/
  flushes : Nat
  plan : Output.Plan

namespace Output

def Plan.steady : Plan := ⟨fun _ _ offered => .accept offered, fun _ => none⟩

/-- Accepts at most `chunk` bytes a call and `limit` in all. A call that could accept
nothing does as `full` says. -/
def Plan.bounded (chunk limit : Option Nat) (full : Beat) (flushFailure : Option String) :
    Plan where
  beat _ received offered :=
    let room := min (chunk.getD offered) ((limit.map (· - received)).getD offered)
    if room = 0 then full else .accept room
  flushFailure _ := flushFailure

def ofPlan (plan : Plan) : Output := ⟨#[], 0, 0, plan⟩

/-- Offers bytes once, and answers how many of them were accepted. -/
def write (output : Output) (bytes : List UInt8) : Except String Nat × Output :=
  match output.plan.beat output.call output.received.size bytes.length with
  | .fail text => (.error text, { output with call := output.call + 1 })
  | .accept atMost =>
    (.ok (min atMost bytes.length),
      { output with
        received := (bytes.take atMost).foldl .push output.received
        call := output.call + 1 })

/-- Offers bytes until all are accepted or a call fails or accepts none. -/
def writeAll (output : Output) (bytes : List UInt8) : Except String Unit × Output :=
  if bytes = [] then (.ok (), output)
  else
    match output.write bytes with
    | (.error text, output) => (.error text, output)
    | (.ok 0, output) => (.error "failed to write whole buffer", output)
    | (.ok (count + 1), output) => output.writeAll (bytes.drop (count + 1))
termination_by bytes.length
decreasing_by
  have := List.length_pos_iff.mpr ‹¬bytes = []›
  simp only [List.length_drop]
  omega

def flush (output : Output) : Except String Unit × Output :=
  let answer : Except String Unit :=
    match output.plan.flushFailure output.flushes with
    | some text => .error text
    | none => .ok ()
  (answer, { output with flushes := output.flushes + 1 })

end Output
end MessagePack
