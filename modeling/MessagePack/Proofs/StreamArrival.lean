import MessagePack.Proofs.UnpackingCalls

/-! Input that arrives bit by bit. A stream delivers if every call that offers room brings
something until all is given. Whatever the pace and the interruptions, the buffer of a
source stays a window on the whole input, and what is unpacked from a stream is what is
unpacked from the same bytes in memory. -/
namespace MessagePack

/-- Every call brings bytes until all of them are given, and says `closing` after that. -/
def Input.Delivers (input : Input) (closing : Fault) : Prop :=
  ∀ call given room, 0 < room →
    if given < input.given + input.pending.length then
      ∃ atMost, 0 < atMost ∧ input.plan.beat call given room = .deliver atMost
    else
      closing = .endOfInput ∧ (∃ atMost, input.plan.beat call given room = .deliver atMost) ∨
      closing = .errorInHandler ∧ ∃ text, input.plan.beat call given room = .fail text

namespace Input

theorem delivers_paced (bytes : List UInt8) {chunk : Nat → Nat} (positive : ∀ call, 0 < chunk call)
    (pausing : Bool) : (ofBytes bytes (.paced chunk pausing none)).Delivers .endOfInput := by
  intro call given room offered
  split
  · exact ⟨chunk call, positive call, rfl⟩
  · exact .inl ⟨rfl, chunk call, rfl⟩

theorem delivers_steady (bytes : List UInt8) : (ofBytes bytes .steady).Delivers .endOfInput := by
  intro call given room offered
  split
  · exact ⟨room, offered, rfl⟩
  · exact .inl ⟨rfl, room, rfl⟩

def Outcome.Honest (outcome : Outcome) (input next : Input) (closing : Fault) : Prop :=
  match outcome with
  | .bytes [] => input.pending = [] ∧ next.pending = [] ∧ closing = .endOfInput
  | .bytes (_ :: _) | .interrupted => True
  | .failed _ => input.pending = [] ∧ next.pending = [] ∧ closing = .errorInHandler

/-- A stream that delivers goes on doing so. -/
theorem Delivers.read {input : Input} {closing : Fault} (delivers : input.Delivers closing)
    {room : Nat} (offered : 0 < room) :
    (input.read room).2.Delivers closing ∧
      (input.read room).1.Honest input (input.read room).2 closing := by
  unfold Input.read
  split
  · exact ⟨delivers, trivial⟩
  dsimp only
  have beat := delivers (input.call + 1 - 1) input.given room offered
  by_cases more : input.pending = []
  · simp only [more, List.length_nil, Nat.add_zero, Nat.lt_irrefl, if_false] at beat
    rcases beat with ⟨closed, atMost, beat⟩ | ⟨closed, text, beat⟩
    · rw [beat]
      constructor
      · simp only [Delivers] at *
        simpa [more] using delivers
      · simp [Outcome.Honest, more, closed]
    · rw [beat]
      exact ⟨delivers, more, more, closed⟩
  · have some := List.length_pos_iff.mpr more
    rw [if_pos (by omega)] at beat
    obtain ⟨atMost, positive, beat⟩ := beat
    rw [beat]
    constructor
    · unfold Delivers at *
      have total : input.given + (input.pending.take (min atMost room)).length +
          (input.pending.drop (min atMost room)).length = input.given + input.pending.length := by
        rw [List.length_take, List.length_drop]; omega
      dsimp only
      rw [total]
      exact delivers
    · dsimp only
      obtain ⟨byte, bytes, opened⟩ := List.exists_cons_of_ne_nil more
      obtain ⟨count, counted⟩ : ∃ count, min atMost room = count + 1 :=
        ⟨min atMost room - 1, by omega⟩
      rw [opened, counted, List.take_succ_cons]
      trivial

end Input

/-- No run of bytes in memory is longer: its length is a signed word. -/
def longest : Nat := 0x7fffffffffffffff

/-- An input whose positions are words with room for any request on top, and an allocator
that grants twice its length. -/
structure Roomy (input : List UInt8) (ceiling : Nat) : Prop where
  position : input.length + Scan.largest < Position.modulus
  allocation : 2 * max input.length 1 ≤ ceiling

namespace Source

variable {whole : List UInt8} {buffer : Incoming}

/-- Room is made for a request that the unread bytes do not meet. -/
theorem openRoom_eq {pending : List UInt8} (window : buffer.Window whole pending)
    (compacted : buffer.start = 0) (roomy : Roomy whole buffer.region.ceiling) {needed : Nat}
    (short : buffer.remaining < needed) (request : needed ≤ Scan.largest) :
    ∃ region, openRoom buffer needed = (.ok (), { buffer with region }) ∧
      ({ buffer with region } : Incoming).Window whole pending ∧
      region.ceiling = buffer.region.ceiling ∧
      0 < ({ buffer with region } : Incoming).room := by
  have current_le := window.current_le
  have stop_le := window.stop_le
  have length_eq := window.length_eq
  have position := roomy.position
  have allocation := roomy.allocation
  unfold Incoming.remaining at short
  simp only [openRoom]
  by_cases full : buffer.stop = buffer.capacity
  · rw [if_pos full]
    cases grows : buffer.growToward needed with
    | mk status grown =>
      cases status with
      | error fault =>
        obtain ⟨_, _, refused⟩ := Incoming.growToward_eq_error grows
        omega
      | ok _ =>
        rcases Incoming.growToward_eq_ok grows with ⟨enough, _⟩ | ⟨region, resized, larger, rfl⟩
        · omega
        · have size := Region.size_resize? resized
          refine ⟨region, rfl, window.resize? resized (by omega),
            Region.ceiling_resize? resized, ?_⟩
          simp only [Incoming.room, Incoming.capacity] at *
          omega
  · rw [if_neg full]
    refine ⟨buffer.region, rfl, window, rfl, ?_⟩
    change 0 < buffer.capacity - buffer.stop
    omega

/-- What is known when the input has been asked for bytes to fill the room. -/
theorem openRoom_read {input next : Input} {opened : Incoming} {outcome : Input.Outcome}
    {closing : Fault} {needed : Nat} (window : buffer.Window whole input.pending)
    (compacted : buffer.start = 0) (roomy : Roomy whole buffer.region.ceiling)
    (delivers : input.Delivers closing) (short : buffer.remaining < needed)
    (request : needed ≤ Scan.largest) (made : openRoom buffer needed = (.ok (), opened))
    (read : input.read opened.room = (outcome, next)) :
    ∃ region, opened = { buffer with region } ∧
      ({ buffer with region } : Incoming).Window whole input.pending ∧
      region.ceiling = buffer.region.ceiling ∧ next.Delivers closing ∧
      outcome.Honest input next closing := by
  obtain ⟨region, granted, stays, ceiling, room⟩ := openRoom_eq window compacted roomy short request
  rw [made] at granted
  cases granted
  have honest := delivers.read room
  rw [read] at honest
  exact ⟨region, rfl, stays, ceiling, honest⟩

/-- Reading goes on until the request is met or the input ends, and neither drops a byte
nor moves the offset. -/
theorem readUntil_brings {closing : Fault} {input : Input} {needed : Nat}
    (window : buffer.Window whole input.pending) (compacted : buffer.start = 0)
    (roomy : Roomy whole buffer.region.ceiling) (delivers : input.Delivers closing)
    (request : needed ≤ Scan.largest) :
    (readUntil input buffer needed).BringsPending buffer needed whole
        (readUntil input buffer needed).handler.input.pending closing ∧
      (readUntil input buffer needed).handler.input.Delivers closing := by
  fun_induction readUntil input buffer needed with
  | case1 input buffer enough =>
    refine ⟨⟨window, rfl, rfl, rfl, ?_, fun _ => enough⟩, delivers⟩
    rw [window.length_drop, if_pos (Nat.le_trans enough (Nat.le_add_right _ _))]
  | case2 input buffer short fault grown opened =>
    obtain ⟨region, granted, _⟩ := openRoom_eq window compacted roomy (Nat.lt_of_not_le short)
      request
    rw [opened] at granted
    cases granted
  | case3 input buffer short _ grown opened text next read =>
    obtain ⟨region, rfl, stays, ceiling, after, empty, spent, closed⟩ := openRoom_read window
      compacted roomy delivers (Nat.lt_of_not_le short) request opened read
    have left := window.length_drop
    rw [empty, List.length_nil, Nat.add_zero] at left
    rw [empty] at stays
    rw [← spent] at stays
    refine ⟨⟨stays.withFailure _, rfl, rfl, ceiling, ?_, by rintro ⟨⟩⟩, after⟩
    rw [left, if_neg short, closed]
  | case4 input buffer short _ grown opened next read =>
    obtain ⟨region, rfl, stays, ceiling, after, empty, spent, closed⟩ := openRoom_read window
      compacted roomy delivers (Nat.lt_of_not_le short) request opened read
    have left := window.length_drop
    rw [empty, List.length_nil, Nat.add_zero] at left
    rw [empty] at stays
    rw [← spent] at stays
    refine ⟨⟨stays, rfl, rfl, ceiling, ?_, by rintro ⟨⟩⟩, after⟩
    rw [left, if_neg short, closed]
  | case5 input buffer short _ grown opened byte bytes next read ih =>
    obtain ⟨region, rfl, stays, ceiling, goesOn, _⟩ := openRoom_read window compacted roomy
      delivers (Nat.lt_of_not_le short) request opened read
    rw [Input.read_bytes read] at stays
    obtain ⟨larger, _⟩ := stays.commit (Input.length_read_bytes read)
    have filled (region : Region) (bytes : List UInt8) (count : Nat) :
        ((({ buffer with region } : Incoming).fill bytes).commit count).region.ceiling =
          region.ceiling := Region.ceiling_overwrite ..
    have same := (filled region (byte :: bytes) (bytes.length + 1)).trans ceiling
    obtain ⟨served, after⟩ := ih larger compacted (by rw [same]; exact roomy) goesOn
    exact ⟨served.of_same rfl rfl same, after⟩
  | case6 input buffer short _ grown opened next read ih =>
    obtain ⟨region, rfl, stays, ceiling, goesOn, _⟩ := openRoom_read window compacted roomy
      delivers (Nat.lt_of_not_le short) request opened read
    rw [← (Input.read_interrupted read).1] at stays
    obtain ⟨served, after⟩ := ih stays compacted (by rw [ceiling]; exact roomy) goesOn
    exact ⟨served.of_same rfl rfl ceiling, after⟩

end Source

/-- A stream that delivers is a feed, whatever its pace. -/
instance : Feed Source where
  pending source := source.input.pending
  Faithful source whole closing ceiling := source.input.Delivers closing ∧ Roomy whole ceiling
  refill_brings window faithful _ request := by
    obtain ⟨delivers, roomy⟩ := faithful
    have ceiling := Incoming.ceiling_compact ‹Incoming›
    obtain ⟨served, after⟩ := Source.readUntil_brings window.compact window.start_compact
      (by rw [ceiling]; exact roomy) delivers request
    exact ⟨served.of_same window.offset_compact window.mark_compact ceiling, after, roomy⟩

namespace Unpacker

/-- The same unpacker with an allocator that grants as much as `ceiling` bytes. -/
def withCeiling (unpacker : Unpacker σ) (ceiling : Nat) : Unpacker σ :=
  { unpacker with buffer := unpacker.buffer.withCeiling ceiling }

theorem follows_new {buffer : Incoming} {input : Input} {whole : List UInt8} {closing : Fault}
    {ceiling : Nat} (window : buffer.Window whole input.pending) (unmoved : buffer.offset = 0)
    (unmarked : buffer.barrier = none) (delivers : input.Delivers closing)
    (roomy : Roomy whole ceiling) (order : ByteOrder) :
    ((new buffer (Source.mk input) order).withCeiling ceiling).Follows
      (.start whole closing order) := by
  have granted := window.withCeiling ceiling
  exact Follows.new (Source.mk input) granted unmoved unmarked ⟨delivers, roomy⟩ order

theorem follows_ofInput {input : Input} {closing : Fault} {ceiling : Nat}
    (delivers : input.Delivers closing) (roomy : Roomy input.pending ceiling) (capacity : Nat)
    (order : ByteOrder) :
    ((ofInput input capacity order).withCeiling ceiling).Follows
      (.start input.pending closing order) :=
  follows_new (.ofCapacity _ _) rfl rfl delivers roomy order

theorem follows_ofBytes_input {input : Input} {closing : Fault} {ceiling : Nat}
    (front : List UInt8) (delivers : input.Delivers closing)
    (roomy : Roomy (front ++ input.pending) ceiling) (order : ByteOrder) :
    ((new (.ofBytes front) (Source.mk input) order).withCeiling ceiling).Follows
      (.start (front ++ input.pending) closing order) :=
  follows_new ((Incoming.Window.ofBytes front).append input.pending) rfl rfl delivers roomy order

/-- What holds of the input in memory, of a stream that delivers it into a buffer of any
capacity, and of a stream that delivers what a buffer does not hold of it yet. -/
def OnEverySource (whole : List UInt8) (order : ByteOrder) (ceiling : Nat)
    (property : (σ : Type) → [Inlet σ] → Unpacker σ → Prop) : Prop :=
  property Exhausted (ofBytes whole order) ∧
  (∀ input, input.Delivers .endOfInput → input.pending = whole → ∀ capacity,
    property Source ((ofInput input capacity order).withCeiling ceiling)) ∧
  ∀ input front, input.Delivers .endOfInput → front ++ input.pending = whole →
    property Source ((new (.ofBytes front) (Source.mk input) order).withCeiling ceiling)

theorem onEverySource {whole : List UInt8} {order : ByteOrder} {ceiling : Nat}
    (roomy : Roomy whole ceiling) {property : (σ : Type) → [Inlet σ] → Unpacker σ → Prop}
    (holds : ∀ (σ : Type) [Inlet σ] [Feed σ] (unpacker : Unpacker σ),
      unpacker.Follows (.start whole .endOfInput order) → property σ unpacker) :
    OnEverySource whole order ceiling property := by
  refine ⟨holds _ _ (follows_ofBytes whole order), ?_, ?_⟩
  · rintro input delivers rfl capacity
    exact holds _ _ (follows_ofInput delivers roomy capacity order)
  · rintro input front delivers rfl
    exact holds _ _ (follows_ofBytes_input front delivers roomy order)

theorem roomy_of_le {whole : List UInt8} {ceiling : Nat} (size : whole.length ≤ longest)
    (allocation : 2 * max whole.length 1 ≤ ceiling) : Roomy whole ceiling :=
  ⟨Nat.lt_of_le_of_lt (Nat.add_le_add_right size _) (by decide), allocation⟩

/-- Streaming. Any calls see on a stream, whatever its pace and the capacity of the buffer,
what they see on the same bytes in memory, and so they do when the buffer holds the front of
them already. -/
theorem outcomes_stream {input : Input} (delivers : input.Delivers .endOfInput)
    (front : List UInt8) (size : (front ++ input.pending).length ≤ longest) {ceiling : Nat}
    (allocation : 2 * max (front ++ input.pending).length 1 ≤ ceiling) (order : ByteOrder)
    (calls : List Call) :
    (∀ capacity, front = [] →
      ((ofInput input capacity order).withCeiling ceiling).outcomes calls =
        (ofBytes input.pending order).outcomes calls) ∧
    ((new (.ofBytes front) (Source.mk input) order).withCeiling ceiling).outcomes calls =
      (ofBytes (front ++ input.pending) order).outcomes calls := by
  have roomy := roomy_of_le size allocation
  constructor
  · rintro capacity rfl
    rw [(follows_ofInput delivers roomy capacity order).outcomes,
      (follows_ofBytes input.pending order).outcomes]
  · rw [(follows_ofBytes_input front delivers roomy order).outcomes,
      (follows_ofBytes _ order).outcomes]

/-- A map whose key is cut off from it, byte by byte and with a pause before every call. -/
theorem outcomes_stream_bytewise :
    let input := Input.ofBytes [0xa1, 0x6b, 0xcd, 0x01, 0x00] (.paced (fun _ => 1) true none)
    let calls : List Call := [.lookAhead, .next, .setBarrier, .nextAs .strLength, .rescan, .skip 2,
      .nextHeader, .status]
    ((new (.ofBytes [0x81]) (Source.mk input) .portable).withCeiling 12).outcomes calls =
      (ofBytes [0x81, 0xa1, 0x6b, 0xcd, 0x01, 0x00] .portable).outcomes calls :=
  (outcomes_stream (Input.delivers_paced _ (fun _ => Nat.one_pos) true) [0x81] (by decide)
    (by decide) .portable _).2

end Unpacker
end MessagePack
