import MessagePack.Proofs.UnmarkedMemory
import MessagePack.Proofs.ItemRecall

/-! A stream that is read without a barrier, however long it is. The buffer then never holds more
than one request, and it is the request that must be within reach of a position and not the whole
stream. Beside the source stands one that brings all at once where a barrier keeps something. As
that never happens the two go together, and what is read is what a reading of the stream reads. -/
namespace MessagePack

namespace Source

variable {input : Input} {buffer : Incoming} {closing : Fault} {needed : Nat}

/-- Room is made for a request that a position reaches and the allocator grants. -/
theorem openRoom_of_reach {grown : Incoming} {status : Status}
    (stop_le : buffer.stop ≤ buffer.capacity) (short : buffer.remaining < needed)
    (reach : buffer.current + needed < Position.modulus)
    (granted : buffer.current + needed ≤ buffer.region.ceiling)
    (opened : openRoom buffer needed = (status, grown)) :
    status = .ok () ∧ grown.stop ≤ grown.capacity ∧ 0 < grown.room := by
  unfold Incoming.remaining at short
  unfold openRoom at opened
  split at opened
  · have more : ¬buffer.current + needed ≤ buffer.capacity := by omega
    obtain ⟨region, resized⟩ := Option.isSome_iff_exists.mp (Region.resize?_isSome
      (Nat.le_trans (Nat.min_le_right (2 * max buffer.capacity 1) _) granted))
    simp only [Incoming.growToward, if_neg (Nat.not_le_of_lt reach), if_neg more, resized] at opened
    cases opened
    have size := Region.size_resize? resized
    simp only [Incoming.room, Incoming.capacity] at *
    exact ⟨trivial, by omega, by omega⟩
  · cases opened
    simp only [Incoming.room]
    exact ⟨trivial, stop_le, by omega⟩

/-- A request that is not met has come to the end of the stream. -/
theorem readUntil_ends (delivers : input.Delivers closing)
    (stop_le : buffer.stop ≤ buffer.capacity)
    (reach : buffer.current + needed < Position.modulus)
    (granted : buffer.current + needed ≤ buffer.region.ceiling) :
    let reply := readUntil input buffer needed
    reply.handler.input.Delivers closing ∧
      (reply.status = .ok () ∨
        reply.status = .error closing ∧ reply.handler.input.pending = []) := by
  fun_induction readUntil input buffer needed with
  | case1 input buffer enough => exact ⟨delivers, .inl rfl⟩
  | case2 input buffer short fault grown opened =>
    obtain ⟨⟨⟩, _⟩ := openRoom_of_reach stop_le (Nat.lt_of_not_le short) reach granted opened
  | case3 input buffer short _ grown opened text next read =>
    obtain ⟨_, _, room⟩ := openRoom_of_reach stop_le (Nat.lt_of_not_le short) reach granted opened
    have honest := delivers.read room
    rw [read] at honest
    obtain ⟨after, _, spent, rfl⟩ := honest
    exact ⟨after, .inr ⟨rfl, spent⟩⟩
  | case4 input buffer short _ grown opened next read =>
    obtain ⟨_, _, room⟩ := openRoom_of_reach stop_le (Nat.lt_of_not_le short) reach granted opened
    have honest := delivers.read room
    rw [read] at honest
    obtain ⟨after, _, spent, rfl⟩ := honest
    exact ⟨after, .inr ⟨rfl, spent⟩⟩
  | case5 input buffer short _ grown opened byte bytes next read ih =>
    obtain ⟨_, _, room⟩ := openRoom_of_reach stop_le (Nat.lt_of_not_le short) reach granted opened
    have honest := delivers.read room
    rw [read] at honest
    have kept := (keepsPositions_openRoom opened).trans
      (keepsPositions_commit grown (byte :: bytes) (bytes.length + 1))
    refine ih honest.1 ?_ (by rw [kept.current]; exact reach)
      (by rw [kept.current, kept.ceiling]; exact granted)
    simp only [Incoming.commit, Incoming.fill, Incoming.capacity, Region.size_overwrite]
    exact Nat.min_le_right _ _
  | case6 input buffer short _ grown opened next read ih =>
    obtain ⟨_, within, room⟩ :=
      openRoom_of_reach stop_le (Nat.lt_of_not_le short) reach granted opened
    have honest := delivers.read room
    rw [read] at honest
    have kept := keepsPositions_openRoom opened
    exact ih honest.1 within (by rw [kept.current]; exact reach)
      (by rw [kept.current, kept.ceiling]; exact granted)

/-- A request made of a buffer without a barrier is served, however long the stream is. -/
theorem refill_brings_unmarked {source : Source} {whole : List UInt8}
    (window : buffer.Window whole source.input.pending) (delivers : source.input.Delivers closing)
    (unmarked : buffer.barrier = none) (reach : buffer.capacity < Position.modulus)
    (grants : Scan.largest ≤ buffer.region.ceiling) (request : needed ≤ Scan.largest) :
    let reply := source.refill buffer needed
    reply.BringsPending buffer needed whole reply.handler.input.pending closing ∧
      reply.handler.input.Delivers closing := by
  obtain ⟨_, blank, _⟩ := Incoming.compact_of_unmarked unmarked window.start_le
  have bound : Scan.largest < Position.modulus := by decide
  -- What the buffer has taken in so far stands in front of what is pending, as `Covers` has it.
  have held : whole = whole.take buffer.discarded ++
      buffer.region.slice buffer.start buffer.stop ++ source.input.pending := by
    rw [List.append_assoc, ← window.contents, List.take_append_drop]
  have covers : Covers (whole.take buffer.discarded ++
      buffer.region.slice buffer.start buffer.stop) source.input buffer.region.ceiling buffer
      source := ⟨held ▸ window, reach, .refl, rfl⟩
  have refills := covers.refill needed
  obtain ⟨after, outcome⟩ := readUntil_ends delivers window.compact.stop_le
    (by rw [blank, Nat.zero_add]; exact Nat.lt_of_le_of_lt request bound)
    (by rw [blank, Nat.zero_add, buffer.ceiling_compact]; exact Nat.le_trans request grants)
  have moved : (source.refill buffer needed).buffer.Window whole
      (source.refill buffer needed).handler.input.pending := by
    have window := refills.covers.window
    rwa [← held] at window
  have left := moved.length_drop
  rw [refills.offset] at left
  refine ⟨⟨moved, refills.offset, refills.mark, refills.covers.ceiling, ?_, refills.met.mp⟩, after⟩
  rw [left]
  rcases outcome with met | ⟨ended, spent⟩
  · have enough := refills.met.mp met
    rw [if_pos (Nat.le_trans enough (Nat.le_add_right _ _))]
    exact met
  · have missing : ¬needed ≤ (source.refill buffer needed).buffer.remaining := fun enough => by
      cases ended.symm.trans (refills.met.mpr enough)
    have none : (source.refill buffer needed).handler.input.pending = [] := spent
    rw [none, List.length_nil, Nat.add_zero, if_neg missing]
    exact ended

end Source

theorem Region.slice_toArray (bytes : List UInt8) (ceiling : Nat) :
    (Region.mk bytes.toArray ceiling).slice 0 bytes.length = bytes := by
  rw [slice_eq]
  exact List.take_length

namespace Incoming

/-- All that is still to come, behind what the buffer holds. -/
def gather (buffer : Incoming) (pending : List UInt8) : Incoming where
  region := ⟨(buffer.region.slice buffer.start buffer.stop ++ pending).toArray,
    buffer.region.ceiling⟩
  start := 0
  current := buffer.current - buffer.start
  stop := buffer.stop - buffer.start + pending.length
  discarded := buffer.discarded
  barrier := buffer.barrier.map (· - buffer.start)
  failure := buffer.failure

theorem Window.gather {input pending : List UInt8} {buffer : Incoming}
    (window : buffer.Window input pending) : (buffer.gather pending).Window input [] where
  start_le := Nat.zero_le _
  current_le := by
    have := window.current_le
    simp only [Incoming.gather]
    omega
  stop_le := by
    have held := @Region.length_slice_of_le buffer.region buffer.start _ window.stop_le
    simp [Incoming.gather, capacity, Region.size, held]
  barrier_bounds := by
    intro barrier set
    obtain ⟨old, was, rfl⟩ := Option.map_eq_some_iff.mp set
    obtain ⟨_, below⟩ := window.barrier_bounds old was
    exact ⟨Nat.zero_le _, Nat.sub_le_sub_right below _⟩
  discarded_le := window.discarded_le
  contents := by
    have held := @Region.length_slice_of_le buffer.region buffer.start _ window.stop_le
    have whole : (buffer.region.slice buffer.start buffer.stop ++ pending).length =
        buffer.stop - buffer.start + pending.length := by rw [List.length_append, held]
    simp only [Incoming.gather]
    rw [List.append_nil, window.contents, ← whole, Region.slice_toArray]

end Incoming

/-- The stream after it has given all that it has to give. -/
def Input.drained (input : Input) : Input :=
  { input with pending := [], given := input.given + input.pending.length }

theorem Input.Delivers.drained {input : Input} {closing : Fault}
    (delivers : input.Delivers closing) : input.drained.Delivers closing := delivers

/-- A source that is asked as long as nothing is kept in front of the cursor, and that brings all
that is pending when something is. -/
structure GatheringSource where
  source : Source
  closing : Fault

namespace GatheringSource

instance : Inlet GatheringSource where
  refill handler buffer needed :=
    if buffer.barrier = none ∧ buffer.capacity < Position.modulus ∧
        Scan.largest ≤ buffer.region.ceiling then
      let reply := handler.source.refill buffer needed
      ⟨reply.status, ⟨reply.handler, handler.closing⟩, reply.buffer⟩
    else
      let gathered := buffer.gather handler.source.input.pending
      ⟨if needed ≤ gathered.remaining then .ok () else .error handler.closing,
        ⟨⟨handler.source.input.drained⟩, handler.closing⟩, gathered⟩
  supply handler := Inlet.supply handler.source
  refill_le handler buffer needed := by
    dsimp only
    split
    · exact Inlet.refill_le handler.source buffer needed
    · simp only [Inlet.supply, Input.drained, Incoming.gather, Incoming.remaining, List.length_nil]
      omega

theorem gather_brings {buffer : Incoming} {whole pending : List UInt8} {needed : Nat}
    {closing : Fault} (window : buffer.Window whole pending) (handler : GatheringSource) :
    Inlet.Reply.BringsPending
      ⟨if needed ≤ (buffer.gather pending).remaining then .ok () else .error closing, handler,
        buffer.gather pending⟩ buffer needed whole [] closing := by
  have gathered := window.gather
  have same : (buffer.gather pending).offset = buffer.offset := by
    rfl
  have left := gathered.length_drop
  rw [same, List.length_nil, Nat.add_zero] at left
  refine ⟨gathered, same, ?_, rfl, by rw [left], fun met => ?_⟩
  · simp only [Incoming.mark, Incoming.gather, Option.map_map]
    rfl
  · by_contra missing
    rw [if_neg missing] at met
    cases met

instance : Feed GatheringSource where
  pending handler := handler.source.input.pending
  Faithful handler _ closing _ := handler.source.input.Delivers closing ∧ handler.closing = closing
  refill_brings {handler buffer whole closing needed} window faithful _ request := by
    obtain ⟨delivers, rfl⟩ := faithful
    simp only [Refiller.refill]
    split
    · rename_i plain
      obtain ⟨served, after⟩ := Source.refill_brings_unmarked window delivers plain.1 plain.2.1
        plain.2.2 request
      exact ⟨⟨served.window, served.offset, served.mark, served.ceiling, served.status,
        served.enough⟩, after, rfl⟩
    · exact ⟨gather_brings window _, delivers.drained, rfl⟩

/-- A source, with the same one beside it, and a buffer that keeps nothing that has been read. -/
structure Beside (buffer : Incoming) (source : Source) (handler : GatheringSource) : Prop where
  same : handler.source = source
  shows : ∃ seen, buffer.Shows seen
  unmarked : buffer.barrier = none
  grants : Scan.largest ≤ buffer.region.ceiling

theorem ties : Inlet.Match Beside where
  advance beside enough := by
    obtain ⟨same, ⟨seen, shows⟩, unmarked, grants⟩ := beside
    exact ⟨same, ⟨seen, shows.advance enough⟩, unmarked, grants⟩
  refill {buffer source handler needed} beside _ := by
    obtain ⟨rfl, ⟨seen, shows⟩, unmarked, grants⟩ := beside
    obtain ⟨_, window⟩ := shows.window
    obtain ⟨_, _, released⟩ := Incoming.compact_of_unmarked unmarked window.start_le
    have kept := Source.keepsPositions_readUntil handler.source.input buffer.compact needed
    have same : Refiller.refill handler buffer needed =
        ⟨(handler.source.refill buffer needed).status,
          ⟨(handler.source.refill buffer needed).handler, handler.closing⟩,
          (handler.source.refill buffer needed).buffer⟩ := if_pos ⟨unmarked, shows.short, grants⟩
    dsimp only
    rw [same]
    refine ⟨rfl, rfl, rfl, ⟨seen, Inlet.Honest.refill handler.source needed shows⟩,
      kept.barrier.trans released, ?_⟩
    exact Nat.le_trans grants (Nat.le_of_eq (kept.ceiling.trans buffer.ceiling_compact).symm)

end GatheringSource

namespace Unpacker

/-- The unpacker stands where the reading stands, and sets no barrier. -/
def Traces (unpacker : Unpacker Source) (reading : Reading) : Prop :=
  ∃ twin : Unpacker GatheringSource,
    unpacker.Matches GatheringSource.Beside twin ∧ twin.Follows reading

namespace Traces

variable {unpacker : Unpacker Source} {reading : Reading}

theorem offset (traces : unpacker.Traces reading) : unpacker.offset = reading.position := by
  obtain ⟨twin, same, follows⟩ := traces
  exact (congrArg Incoming.offset same.buffer).symm.trans follows.offset

theorem next (traces : unpacker.Traces reading) :
    unpacker.next.1 = reading.next.1 ∧ unpacker.next.2.Traces reading.next.2 := by
  obtain ⟨twin, same, follows⟩ := traces
  obtain ⟨answer, stays⟩ := GatheringSource.ties.next same
  obtain ⟨expected, goesOn⟩ := follows.next
  exact ⟨answer.symm.trans expected, _, stays, goesOn⟩

end Traces

/-- A stream that delivers is read from its first byte to its last, however long it is. -/
theorem traces_ofInput {input : Input} {closing : Fault} (delivers : input.Delivers closing)
    {capacity : Nat} (short : capacity < Position.modulus) (order : ByteOrder) :
    (ofInput input capacity order).Traces (.start input.pending closing order) := by
  have window := Incoming.Window.ofCapacity input.pending
    (if capacity = 0 then defaultCapacity else capacity)
  have small : (Incoming.ofCapacity (if capacity = 0 then defaultCapacity else capacity)).capacity <
      Position.modulus := by
    rw [Incoming.capacity, Incoming.ofCapacity, Region.size, Region.zeros, Array.size_replicate]
    split
    · decide
    · exact short
  have follows :=
    Follows.new (GatheringSource.mk ⟨input⟩ closing) window rfl rfl ⟨delivers, rfl⟩ order
  have enough : Scan.largest ≤ Region.addressSpace := by decide
  exact ⟨_, ⟨rfl, rfl, rfl, rfl, rfl, ((Incoming.Window.ofCapacity [] _).sound small).shows, rfl,
    enough⟩, follows⟩

end Unpacker
end MessagePack
