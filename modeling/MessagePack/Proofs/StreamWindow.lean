import MessagePack.Proofs.StreamArrival
import MessagePack.Proofs.CallInvariants

/-! Streams that do as they like: that give any number of bytes a call, or none, or fail, now
or later or again and again. Whatever is called, the buffer of a source is a window on what
the stream has given. -/
namespace MessagePack

namespace Input

/-- The states that a stream comes to as it is read from. -/
inductive Reaches (input : Input) : Input → Prop where
  | refl : Reaches input input
  | read {later : Input} (reaches : Reaches input later) (room : Nat) (offered : 0 < room) :
    Reaches input (later.read room).2

def Over (input : Input) : Prop := ∀ later, input.Reaches later → later.given = input.given

/-- Once a call has brought nothing no other does, whether it ended or failed. -/
def Lasting (input : Input) : Prop :=
  ∀ later room, input.Reaches later → 0 < room →
    ((later.read room).1 = .bytes [] ∨ ∃ text, (later.read room).1 = .failed text) →
      (later.read room).2.Over

theorem given_read (input : Input) (room : Nat) :
    (input.read room).2.given + (input.read room).2.pending.length =
      input.given + input.pending.length := by
  unfold read
  split
  · rfl
  · dsimp only
    split
    · rfl
    · simp only [List.length_take, List.length_drop]
      omega

theorem Reaches.given {input later : Input} (reaches : input.Reaches later) :
    later.given + later.pending.length = input.given + input.pending.length := by
  induction reaches with
  | refl => rfl
  | read _ room _ ih => exact (given_read _ room).trans ih

theorem Reaches.trans {input between later : Input} (first : input.Reaches between)
    (second : between.Reaches later) : input.Reaches later := by
  induction second with
  | refl => exact first
  | read _ room offered ih => exact ih.read room offered

theorem Over.read {input next : Input} (spent : input.Over) {room : Nat} {outcome : Outcome}
    (offered : 0 < room) (read : input.read room = (outcome, next)) :
    next.Over ∧ next.given = input.given ∧ ∀ byte bytes, outcome ≠ .bytes (byte :: bytes) := by
  have step : input.Reaches next := by
    have step : input.Reaches (input.read room).2 := Reaches.refl.read room offered
    rwa [read] at step
  have given := spent next step
  refine ⟨fun later reaches => (spent later (step.trans reaches)).trans given.symm, given, ?_⟩
  rintro byte bytes rfl
  have split := congrArg List.length (read_bytes read)
  have total := step.given
  rw [List.length_append, List.length_cons] at split
  omega

theorem over_of_nil {input : Input} (empty : input.pending = []) : input.Over := by
  intro later reaches
  have spent : later.pending = [] := by
    induction reaches with
    | refl => exact empty
    | read _ room _ ih =>
      unfold read
      split
      · exact ih
      · dsimp only
        split
        · exact ih
        · simp [ih]
  have given := reaches.given
  rwa [spent, empty] at given

theorem Delivers.reaches {input later : Input} {closing : Fault}
    (delivers : input.Delivers closing) (reaches : input.Reaches later) :
    later.Delivers closing := by
  induction reaches with
  | refl => exact delivers
  | read _ room offered ih => exact (ih.read offered).1

theorem Delivers.lasting {input : Input} {closing : Fault} (delivers : input.Delivers closing) :
    input.Lasting := by
  intro later room reaches offered quiet
  obtain ⟨_, honest⟩ := (delivers.reaches reaches).read offered
  rcases quiet with nothing | ⟨text, failed⟩
  · rw [nothing] at honest
    exact over_of_nil honest.2.1
  · rw [failed] at honest
    exact over_of_nil honest.2.1

def Beat.Idle (beat : Beat) : Prop := beat = .deliver 0 ∨ ∃ text, beat = .fail text

def Plan.Quits (plan : Plan) : Prop :=
  ∀ call given room, 0 < room → (plan.beat call given room).Idle →
    ∀ later room, call ≤ later → 0 < room → (plan.beat later given room).Idle

theorem Reaches.plan {input later : Input} (reaches : input.Reaches later) :
    later.plan = input.plan := by
  induction reaches with
  | refl => rfl
  | read _ room _ ih =>
    unfold Input.read
    split
    · exact ih
    · dsimp only
      split <;> exact ih

theorem over_of_idle {input : Input}
    (idle : ∀ later room, input.call ≤ later → 0 < room →
      (input.plan.beat later input.given room).Idle) : input.Over := by
  intro later reaches
  suffices later.given = input.given ∧ input.call ≤ later.call ∧ later.plan = input.plan from
    this.1
  induction reaches with
  | refl => exact ⟨rfl, Nat.le_refl _, rfl⟩
  | @read later _ room offered ih =>
    obtain ⟨given, after, plan⟩ := ih
    have beat := idle later.call room after offered
    rw [← given, ← plan] at beat
    unfold read
    split
    · exact ⟨given, after, plan⟩
    · dsimp only
      rw [Nat.add_sub_cancel]
      rcases beat with nothing | ⟨text, failed⟩
      · rw [nothing]
        dsimp only
        rw [Nat.zero_min]
        exact ⟨given, Nat.le_succ_of_le after, plan⟩
      · rw [failed]
        exact ⟨given, Nat.le_succ_of_le after, plan⟩

/-- So the end of a stream lasts if its plan does not take up again. -/
theorem lasting_of_quits {input : Input} (quits : input.plan.Quits) : input.Lasting := by
  intro later room reaches offered quiet
  rw [← reaches.plan] at quits
  have spent {call given : Nat} {pending : List UInt8}
      (idle : (later.plan.beat call given room).Idle) :
      Over ⟨pending, given, call + 1, 0, later.plan⟩ := by
    apply over_of_idle
    intro after offer reached some
    exact quits _ _ _ offered idle _ _ (Nat.le_of_succ_le reached) some
  unfold read at quiet ⊢
  split at quiet
  · rcases quiet with nothing | ⟨text, failed⟩ <;> contradiction
  rw [if_neg ‹_›]
  dsimp only at quiet ⊢
  rw [Nat.add_sub_cancel] at quiet ⊢
  cases beat : later.plan.beat later.call later.given room with
  | fail text => exact spent (.inr ⟨text, beat⟩)
  | deliver atMost =>
    rw [beat] at quiet
    rcases quiet with nothing | ⟨text, failed⟩
    · have none : later.pending.take (min atMost room) = [] := Outcome.bytes.inj nothing
      rcases List.take_eq_nil_iff.mp none with few | empty
      · have zero : atMost = 0 := by omega
        subst zero
        dsimp only
        rw [Nat.zero_min]
        exact spent (.inl beat)
      · apply over_of_nil
        dsimp only
        rw [empty, List.drop_nil]
    · cases failed

end Input

namespace Source

/-- What holds of a source and its buffer at any time. The buffer held `front` at first, and
the stream was to bring what was pending then. -/
structure Covers (front : List UInt8) (begun : Input) (ceiling : Nat) (buffer : Incoming)
    (source : Source) : Prop where
  window : buffer.Window (front ++ begun.pending) source.input.pending
  short : buffer.capacity < Position.modulus
  reached : begun.Reaches source.input
  ceiling : buffer.region.ceiling = ceiling

/-- What a reply leaves as it was, and what it says. Where an allocator grants enough and the
end lasts, a request that is not met means that the stream is over. -/
structure Refills (front : List UInt8) (begun : Input) (ceiling : Nat) (input : Input)
    (buffer : Incoming) (needed : Nat) (reply : Inlet.Reply Source) : Prop where
  covers : Covers front begun ceiling reply.buffer reply.handler
  offset : reply.buffer.offset = buffer.offset
  mark : reply.buffer.mark = buffer.mark
  met : reply.status = .ok () ↔ needed ≤ reply.buffer.remaining
  ended : begun.Lasting → Roomy (front ++ begun.pending) ceiling → needed ≤ Scan.largest →
    reply.status ≠ .ok () → reply.handler.input.Over
  spent : input.Over → reply.handler.input.Over ∧ reply.handler.input.given = input.given

variable {front : List UInt8} {begun : Input} {ceiling : Nat} {buffer : Incoming}

/-- A reply may serve by way of a buffer that lies at the same place. -/
theorem Refills.of_same {input next : Input} {moved : Incoming} {needed : Nat}
    {reply : Inlet.Reply Source}
    (refills : Refills front begun ceiling next moved needed reply)
    (offset : moved.offset = buffer.offset) (mark : moved.mark = buffer.mark)
    (spent : input.Over → next.Over ∧ next.given = input.given) :
    Refills front begun ceiling input buffer needed reply where
  covers := refills.covers
  offset := refills.offset.trans offset
  mark := refills.mark.trans mark
  met := refills.met
  ended := refills.ended
  spent := fun gone => by
    obtain ⟨still, given⟩ := spent gone
    obtain ⟨ends, same⟩ := refills.spent still
    exact ⟨ends, same.trans given⟩

namespace Covers

variable {source : Source}

theorem compact (covers : Covers front begun ceiling buffer source) :
    Covers front begun ceiling buffer.compact source where
  window := covers.window.compact
  short := by rw [Incoming.capacity_compact]; exact covers.short
  reached := covers.reached
  ceiling := (Incoming.ceiling_compact buffer).trans covers.ceiling

theorem openRoom (covers : Covers front begun ceiling buffer source) {needed : Nat}
    (lack : buffer.remaining < needed) :
    ∃ region, (Source.openRoom buffer needed).2 = { buffer with region } ∧
      Covers front begun ceiling { buffer with region } source ∧
      ((Source.openRoom buffer needed).1 = .ok () →
        0 < ({ buffer with region } : Incoming).room) := by
  have current_le := covers.window.current_le
  have stop_le := covers.window.stop_le
  unfold Incoming.remaining at lack
  simp only [Source.openRoom]
  by_cases full : buffer.stop = buffer.capacity
  · rw [if_pos full]
    obtain ⟨region, same, window, short, ceiling⟩ := covers.window.growToward needed covers.short
    refine ⟨region, same, ⟨window, short, covers.reached, ceiling.trans covers.ceiling⟩,
      fun granted => ?_⟩
    rcases Incoming.growToward_eq_ok (Prod.ext granted same) with ⟨enough, _⟩ |
      ⟨_, _, larger, grown⟩
    · omega
    · have size := congrArg Incoming.capacity grown
      simp only [Incoming.room, Incoming.capacity] at *
      omega
  · rw [if_neg full]
    refine ⟨buffer.region, rfl, covers, fun _ => ?_⟩
    change 0 < buffer.capacity - buffer.stop
    omega

theorem opened {needed : Nat} {grown : Incoming}
    (covers : Covers front begun ceiling buffer source) (lack : buffer.remaining < needed)
    (made : Source.openRoom buffer needed = (.ok (), grown)) :
    ∃ region, grown = { buffer with region } ∧
      Covers front begun ceiling { buffer with region } source ∧
      0 < ({ buffer with region } : Incoming).room := by
  obtain ⟨region, same, stays, room⟩ := covers.openRoom lack
  rw [made] at same room
  exact ⟨region, same, stays, room rfl⟩

theorem commit {input next : Input} {arrived : List UInt8}
    (covers : Covers front begun ceiling buffer ⟨input⟩) (offered : 0 < buffer.room)
    (read : input.read buffer.room = (.bytes arrived, next)) :
    Covers front begun ceiling ((buffer.fill arrived).commit arrived.length) ⟨next⟩ := by
  have window := covers.window
  have stop_le := window.stop_le
  have short := covers.short
  have fits := Input.length_read_bytes read
  have reached := covers.reached.read _ offered
  dsimp only at window reached
  rw [Input.read_bytes read] at window
  rw [read] at reached
  constructor
  · exact (window.commit fits).1
  · simp only [Incoming.capacity, Incoming.commit, Incoming.fill, Region.size_overwrite] at *
    exact short
  · exact reached
  · exact (Region.ceiling_overwrite ..).trans covers.ceiling

theorem read {input next : Input} {outcome : Input.Outcome}
    (covers : Covers front begun ceiling buffer ⟨input⟩) (offered : 0 < buffer.room)
    (read : input.read buffer.room = (outcome, next)) (same : next.pending = input.pending) :
    Covers front begun ceiling buffer ⟨next⟩ := by
  have reached := covers.reached.read _ offered
  dsimp only at reached
  rw [read] at reached
  refine ⟨?_, covers.short, reached, covers.ceiling⟩
  dsimp only
  rw [same]
  exact covers.window

theorem withFailure (covers : Covers front begun ceiling buffer source)
    (failure : Option String) :
    Covers front begun ceiling { buffer with failure } source :=
  ⟨covers.window.withFailure failure, covers.short, covers.reached, covers.ceiling⟩

end Covers

theorem readUntil_refills {input : Input} {needed : Nat}
    (covers : Covers front begun ceiling buffer ⟨input⟩) (compacted : buffer.start = 0) :
    Refills front begun ceiling input buffer needed (readUntil input buffer needed) := by
  fun_induction readUntil input buffer needed with
  | case1 input buffer enough =>
    exact ⟨covers, rfl, rfl, ⟨fun _ => enough, fun _ => rfl⟩, fun _ _ _ refused =>
      absurd rfl refused, fun spent => ⟨spent, rfl⟩⟩
  | case2 input buffer short fault grown opened =>
    have lack := Nat.lt_of_not_le short
    obtain ⟨region, same, stays, _⟩ := covers.openRoom lack
    rw [opened] at same
    subst same
    refine ⟨stays, rfl, rfl, ⟨by simp, fun enough => absurd enough short⟩, ?_, fun spent =>
      ⟨spent, rfl⟩⟩
    intro _ roomy request
    rw [← covers.ceiling] at roomy
    obtain ⟨region, granted, _⟩ := openRoom_eq covers.window compacted roomy lack request
    rw [opened] at granted
    cases granted
  | case3 input buffer short _ grown opened text next read =>
    obtain ⟨region, rfl, stays, room⟩ := covers.opened (Nat.lt_of_not_le short) opened
    refine ⟨(stays.read room read (Input.read_failed read)).withFailure _, rfl, rfl,
      ⟨by simp, fun enough => absurd enough short⟩, ?_, fun spent => ?_⟩
    · intro lasting _ _ _
      have spent := lasting input _ covers.reached room
      rw [read] at spent
      exact spent (.inr ⟨text, rfl⟩)
    · obtain ⟨still, given, _⟩ := spent.read room read
      exact ⟨still, given⟩
  | case4 input buffer short _ grown opened next read =>
    obtain ⟨region, rfl, stays, room⟩ := covers.opened (Nat.lt_of_not_le short) opened
    refine ⟨stays.read room read (Input.read_bytes read).symm, rfl, rfl,
      ⟨by simp, fun enough => absurd enough short⟩, ?_, fun spent => ?_⟩
    · intro lasting _ _ _
      have spent := lasting input _ covers.reached room
      rw [read] at spent
      exact spent (.inl rfl)
    · obtain ⟨still, given, _⟩ := spent.read room read
      exact ⟨still, given⟩
  | case5 input buffer short _ grown opened byte bytes next read ih =>
    obtain ⟨region, rfl, stays, room⟩ := covers.opened (Nat.lt_of_not_le short) opened
    refine (ih (stays.commit room read) compacted).of_same rfl rfl fun spent => ?_
    obtain ⟨_, _, nothing⟩ := spent.read room read
    exact absurd rfl (nothing byte bytes)
  | case6 input buffer short _ grown opened next read ih =>
    obtain ⟨region, rfl, stays, room⟩ := covers.opened (Nat.lt_of_not_le short) opened
    have paused := stays.read room read (Input.read_interrupted read).1
    refine (ih paused compacted).of_same rfl rfl fun spent => ?_
    obtain ⟨still, given, _⟩ := spent.read room read
    exact ⟨still, given⟩

theorem Covers.refill {source : Source} (covers : Covers front begun ceiling buffer source)
    (needed : Nat) :
    Refills front begun ceiling source.input buffer needed (source.refill buffer needed) :=
  (readUntil_refills covers.compact covers.window.start_compact).of_same
    covers.window.offset_compact covers.window.mark_compact fun spent => ⟨spent, rfl⟩

theorem Covers.within {source : Source} {other : Incoming}
    (covers : Covers front begun ceiling buffer source) (region : other.region = buffer.region)
    (window : ∀ pending, buffer.Window (front ++ begun.pending) pending →
      other.Window (front ++ begun.pending) pending) :
    Covers front begun ceiling other source where
  window := window _ covers.window
  short := by rw [Incoming.capacity, region]; exact covers.short
  reached := covers.reached
  ceiling := by rw [region]; exact covers.ceiling

theorem maintains (front : List UInt8) (begun : Input) (ceiling : Nat) :
    Inlet.Maintains (front ++ begun.pending) (Covers front begun ceiling) fun source =>
      begun.Lasting → Roomy (front ++ begun.pending) ceiling → source.input.Over where
  window covers := ⟨_, covers.window⟩
  within covers region window := covers.within region window
  refill {_ _ needed} covers _ := by
    have refills := covers.refill needed
    exact ⟨refills.covers, refills.offset, refills.mark, refills.met,
      fun request refused lasting roomy => refills.ended lasting roomy request refused⟩

theorem maintains_over (front : List UInt8) (begun : Input) (ceiling given : Nat) :
    Inlet.Maintains (front ++ begun.pending) (fun buffer source =>
      Covers front begun ceiling buffer source ∧ source.input.Over ∧
        source.input.given = given) fun _ : Source => True where
  window held := ⟨_, held.1.window⟩
  within held region window := ⟨held.1.within region window, held.2⟩
  refill {_ _ needed} held _ := by
    obtain ⟨covers, spent, given⟩ := held
    have refills := covers.refill needed
    obtain ⟨still, same⟩ := refills.spent spent
    exact ⟨⟨refills.covers, still, same.trans given⟩, refills.offset, refills.mark, refills.met,
      fun _ _ => trivial⟩

theorem Covers.stop_eq {source : Source} (covers : Covers front begun ceiling buffer source) :
    begun.given + (buffer.discarded + (buffer.stop - buffer.start)) =
      front.length + source.input.given := by
  have length := covers.window.length_eq
  have taken := covers.reached.given
  rw [List.length_append] at length
  omega

end Source

namespace Unpacker

/-- The buffer is a window on the stream, of which `given` bytes have been had so far, and the
barrier stands where the stream has been marked. -/
structure Exact (stream : List UInt8) (given : Nat) (mark : Option Nat) (buffer : Incoming) :
    Prop where
  start_le : buffer.start ≤ buffer.current
  current_le : buffer.current ≤ buffer.stop
  stop_le : buffer.stop ≤ buffer.capacity
  barrier_bounds : ∀ barrier, buffer.barrier = some barrier →
    buffer.start ≤ barrier ∧ barrier ≤ buffer.current
  contents : buffer.region.slice buffer.start buffer.stop =
    (stream.drop buffer.discarded).take (buffer.stop - buffer.start)
  count : buffer.discarded + (buffer.stop - buffer.start) = given
  barrier : buffer.barrier.isSome = mark.isSome
  mark_le : ∀ position, mark = some position → position ≤ buffer.offset
  pinned : buffer.pinned = (mark.map fun position =>
    (stream.drop position).take (buffer.offset - position)).getD []

theorem exact_of_covers {front rest : List UInt8} {plan : Input.Plan} {ceiling : Nat}
    {buffer : Incoming} {source : Source}
    (covers : Source.Covers front (.ofBytes rest plan) ceiling buffer source) {mark : Option Nat}
    (marked : buffer.mark = mark) :
    Exact (front ++ rest) (front.length + source.input.given) mark buffer where
  start_le := covers.window.start_le
  current_le := covers.window.current_le
  stop_le := covers.window.stop_le
  barrier_bounds := covers.window.barrier_bounds
  contents := by
    have length : (buffer.region.slice buffer.start buffer.stop).length =
        buffer.stop - buffer.start := Region.length_slice_of_le covers.window.stop_le
    have contents := covers.window.contents
    simp only [Input.ofBytes] at contents
    rw [contents, ← length, List.take_left]
  count := (Nat.zero_add _).symm.trans covers.stop_eq
  barrier := by
    rw [← marked, Incoming.mark, Option.isSome_map]
  mark_le := by
    rintro position rfl
    obtain ⟨barrier, set, rfl⟩ := Option.map_eq_some_iff.mp marked
    obtain ⟨lower, upper⟩ := covers.window.barrier_bounds barrier set
    rw [Incoming.offset]
    omega
  pinned := by
    cases mark with
    | none =>
      rw [Incoming.pinned, Option.map_eq_none_iff.mp marked]
      rfl
    | some position => exact covers.window.pinned_eq marked

theorem covers_ofInput (begun : Input) (ceiling : Nat) (order : ByteOrder) {capacity : Nat}
    (short : capacity < Position.modulus) :
    let unpacker := (ofInput begun capacity order).withCeiling ceiling
    Source.Covers [] begun ceiling unpacker.buffer unpacker.handler where
  window := (Incoming.Window.ofCapacity begun.pending _).withCeiling ceiling
  short := by
    simp only [withCeiling, ofInput, new, Incoming.withCeiling, Incoming.ofCapacity,
      Incoming.capacity, Region.size, Region.zeros, Array.size_replicate]
    split
    · decide
    · exact short
  reached := .refl
  ceiling := rfl

theorem covers_ofBytes {front : List UInt8} (begun : Input) (ceiling : Nat) (order : ByteOrder)
    (short : front.length < Position.modulus) :
    let unpacker := (new (.ofBytes front) (Source.mk begun) order).withCeiling ceiling
    Source.Covers front begun ceiling unpacker.buffer unpacker.handler where
  window := ((Incoming.Window.ofBytes front).append begun.pending).withCeiling ceiling
  short := short
  reached := .refl
  ceiling := rfl

/-- Windows. Whatever the stream does, and whatever is called and answers what, the buffer of a
source is an exact window on the bytes that it held at first and those that the stream brings:
none is lost, doubled or out of order, and the pinned bytes are those since the barrier. -/
theorem exact_window (front rest : List UInt8) (plan : Input.Plan) (order : ByteOrder)
    (capacity ceiling : Nat) (size : capacity < Position.modulus ∧ front.length < Position.modulus)
    (requests : List Request) :
    (let unpacker := (ofInput (.ofBytes rest plan) capacity order).withCeiling ceiling
      let after := unpacker.pursue requests
      Exact rest after.handler.input.given (unpacker.marks requests none) after.buffer) ∧
    (let unpacker :=
        (new (.ofBytes front) (Source.mk (.ofBytes rest plan)) order).withCeiling ceiling
      let after := unpacker.pursue requests
      Exact (front ++ rest) (front.length + after.handler.input.given)
        (unpacker.marks requests none) after.buffer) := by
  constructor
  · obtain ⟨covers, marked, _⟩ := (Source.maintains [] (.ofBytes rest plan) ceiling).pursue
      (covers_ofInput _ ceiling order size.1) requests
    have exact := exact_of_covers covers marked
    rwa [List.length_nil, Nat.zero_add] at exact
  · obtain ⟨covers, marked, _⟩ := (Source.maintains front (.ofBytes rest plan) ceiling).pursue
      (covers_ofBytes _ ceiling order size.2) requests
    exact exact_of_covers covers marked

/-- A stream that is unplugged after four bytes, in the middle of a number that is pinned. -/
theorem exact_window_unplugged :
    let plan : Input.Plan := .paced (fun _ => 1) true (some (4, "unplugged"))
    let requests : List Request := [.call .next, .call .lookAhead, .call .next, .call .setBarrier,
      .call (.nextAs (.unsigned 16)), .call .rescan, .extInteger]
    let unpacker := (new (.ofBytes [0x92])
      (Source.mk (.ofBytes [0xa1, 0x6b, 0xcd, 0x01, 0x00] plan)) .portable).withCeiling 8
    let after := unpacker.pursue requests
    (0 < Position.modulus ∧ ([0x92] : List UInt8).length < Position.modulus) ∧
      Exact [0x92, 0xa1, 0x6b, 0xcd, 0x01, 0x00] (1 + after.handler.input.given)
        (unpacker.marks requests none) after.buffer :=
  ⟨by decide, (exact_window [0x92] [0xa1, 0x6b, 0xcd, 0x01, 0x00] _ .portable 0 8
    (by decide) _).2⟩

end Unpacker
end MessagePack
