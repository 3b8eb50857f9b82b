import MessagePack.Proofs.StreamWindow
import MessagePack.Proofs.HandlerMatching

/-! How much memory a stream is given. A meter beside the source notes at every moment of every
refill how large the buffer is, how many bytes the stream has given by then and how many the
refill was asked for, and is in nobody's way. The buffer grows when it is full, of bytes that
have been had, and to no more than twice its size: what an input announces does not count. -/
namespace MessagePack

theorem Input.given_le {input next : Input} {room : Nat} {outcome : Outcome}
    (read : input.read room = (outcome, next)) : input.given ≤ next.given := by
  unfold Input.read at read
  split at read
  · cases read
    exact Nat.le_refl _
  · dsimp only at read
    split at read <;> cases read
    · exact Nat.le_refl _
    · exact Nat.le_add_right _ _

namespace Source

structure Moment where
  /-- The bytes that the refill was asked for. -/
  needed : Nat
  capacity : Nat
  /-- The bytes that the stream has given. -/
  taken : Nat
  deriving DecidableEq, Repr

def Moment.of (needed : Nat) (input : Input) (buffer : Incoming) : Moment :=
  ⟨needed, buffer.capacity, input.given⟩

/-- The moments of `readUntil`: before it looks at what is there, after it has made room, and
after a call to the stream that it makes no other behind. -/
def moments (input : Input) (buffer : Incoming) (needed : Nat) : List Moment :=
  if needed ≤ buffer.remaining then [.of needed input buffer]
  else
    match openRoom buffer needed with
    | (.error _, grown) => [.of needed input buffer, .of needed input grown]
    | (.ok _, grown) =>
      match _read : input.read grown.room with
      | (.failed _, next) =>
        [.of needed input buffer, .of needed input grown, .of needed next grown]
      | (.bytes [], next) =>
        [.of needed input buffer, .of needed input grown, .of needed next grown]
      | (.bytes (byte :: bytes), next) =>
        .of needed input buffer :: .of needed input grown ::
          moments next ((grown.fill (byte :: bytes)).commit (bytes.length + 1)) needed
      | (.interrupted, next) =>
        .of needed input buffer :: .of needed input grown :: moments next grown needed
termination_by (input.pending.length, input.pausesLeft)
decreasing_by
  · have := Input.read_bytes _read
    apply Prod.Lex.left
    rw [this, List.length_append, List.length_cons]
    omega
  · obtain ⟨same, fewer⟩ := Input.read_interrupted _read
    rw [same]
    exact Prod.Lex.right _ fewer

def largest (moments : List Moment) : Nat := (moments.map Moment.needed).foldr max 0

theorem largest_append (front back : List Moment) :
    largest (front ++ back) = max (largest front) (largest back) := by
  induction front with
  | nil => simp [largest]
  | cons moment front ih =>
    simp only [largest, List.cons_append, List.map_cons, List.foldr_cons] at ih ⊢
    omega

theorem le_largest {moments : List Moment} {moment : Moment} (member : moment ∈ moments) :
    moment.needed ≤ largest moments := by
  induction member with
  | head => exact Nat.le_max_left _ _
  | tail other _ ih => exact Nat.le_trans ih (Nat.le_max_right _ _)

end Source

/-- A source with a meter. -/
structure Metered where
  source : Source
  moments : List Source.Moment

instance : Inlet Metered where
  refill handler buffer needed :=
    let reply := handler.source.refill buffer needed
    let moments := Source.moments handler.source.input buffer.compact needed
    ⟨reply.status, ⟨reply.handler, handler.moments ++ moments⟩, reply.buffer⟩
  supply handler := Inlet.supply handler.source
  refill_le handler buffer needed := Inlet.refill_le handler.source buffer needed

theorem Metered.passes : Inlet.Passes Metered.source := fun _ _ _ => rfl

namespace Source

theorem readUntil_of_read {input next : Input} {buffer grown : Incoming} {needed : Nat}
    {outcome : Input.Outcome} (short : ¬needed ≤ buffer.remaining)
    (opened : openRoom buffer needed = (.ok (), grown))
    (read : input.read grown.room = (outcome, next)) :
    readUntil input buffer needed =
      match outcome with
      | .failed text => ⟨.error .errorInHandler, ⟨next⟩, { grown with failure := some text }⟩
      | .bytes [] => ⟨.error .endOfInput, ⟨next⟩, grown⟩
      | .bytes (byte :: bytes) =>
        readUntil next ((grown.fill (byte :: bytes)).commit (bytes.length + 1)) needed
      | .interrupted => readUntil next grown needed := by
  rw [readUntil, if_neg short, opened]
  dsimp only
  split <;> rename_i other <;> cases read.symm.trans other <;> rfl

theorem getLast?_moments (input : Input) (buffer : Incoming) (needed : Nat) :
    (moments input buffer needed).getLast? =
      some (.of needed (readUntil input buffer needed).handler.input
        (readUntil input buffer needed).buffer) := by
  fun_induction moments input buffer needed with
  | case1 input buffer enough =>
    rw [readUntil, if_pos enough]
    rfl
  | case2 input buffer short fault grown opened =>
    rw [readUntil, if_neg short, opened]
    rfl
  | case3 input buffer short _ grown opened text next read =>
    rw [readUntil_of_read short opened read]
    rfl
  | case4 input buffer short _ grown opened next read =>
    rw [readUntil_of_read short opened read]
    rfl
  | case5 input buffer short _ grown opened byte bytes next read ih =>
    rw [readUntil_of_read short opened read, List.getLast?_cons, List.getLast?_cons, ih]
    rfl
  | case6 input buffer short _ grown opened next read ih =>
    rw [readUntil_of_read short opened read, List.getLast?_cons, List.getLast?_cons, ih]
    rfl

theorem openRoom_cases (buffer : Incoming) (needed : Nat) :
    (openRoom buffer needed).2 = buffer ∨
      buffer.stop = buffer.capacity ∧
        ∃ region, (openRoom buffer needed).2 = { buffer with region } ∧
          region.size = min (2 * max buffer.capacity 1) (buffer.current + needed) := by
  unfold openRoom
  split
  · rename_i full
    cases grows : buffer.growToward needed with
    | mk status grown =>
      cases status with
      | error fault =>
        obtain ⟨same, _⟩ := Incoming.growToward_eq_error grows
        exact .inl same
      | ok _ =>
        rcases Incoming.growToward_eq_ok grows with ⟨_, same⟩ | ⟨region, resized, _, same⟩
        · exact .inl same
        · exact .inr ⟨full, region, same, Region.size_resize? resized⟩
  · exact .inl rfl

/-- The bounds on the size of a buffer at one moment: by the bytes that have been had, and by those
that have been asked for, if it is free to drop all that has been read. -/
structure Moment.Within (first asked : Nat) (free : Prop) (moment : Moment) : Prop where
  some : 0 < moment.capacity
  taken : moment.capacity ≤ max first (2 * moment.taken)
  asked : free → moment.capacity ≤ max first asked

theorem Moment.Within.mono {first asked more : Nat} {free : Prop} {moment : Moment}
    (within : moment.Within first asked free) (wider : asked ≤ more) :
    moment.Within first more free where
  some := within.some
  taken := within.taken
  asked released := by
    have := within.asked released
    omega

/-- The size of the buffer at a moment does not depend on what was asked for. -/
theorem Moment.Within.of_size {first asked needed other : Nat} {free : Prop} {input later : Input}
    {buffer resized : Incoming}
    (within : (Moment.of needed input buffer).Within first asked free)
    (same : resized.capacity = buffer.capacity) (more : input.given ≤ later.given) :
    (Moment.of other later resized).Within first asked free where
  some := by
    rw [Moment.of, same]
    exact within.some
  taken := by
    have := within.taken
    simp only [Moment.of, same] at this ⊢
    omega
  asked := by
    rw [Moment.of, same]
    exact within.asked

/-- What holds of a buffer in the middle of a refill, once it has been compacted. -/
structure Modest (begun : Input) (ceiling first asked : Nat) (free : Prop) (buffer : Incoming)
    (input : Input) : Prop where
  covers : Covers [] begun ceiling buffer ⟨input⟩
  compacted : buffer.start = 0
  blank : free → buffer.current = 0
  within : ∀ needed, (Moment.of needed input buffer).Within first asked free

namespace Modest

variable {begun input next : Input} {ceiling first asked needed : Nat} {free : Prop}
  {buffer grown : Incoming}

theorem capacity_le (modest : Modest begun ceiling first asked free buffer input)
    (fresh : begun.given = 0) (full : buffer.stop = buffer.capacity) :
    buffer.capacity ≤ input.given := by
  have given := modest.covers.stop_eq
  have compacted := modest.compacted
  rw [fresh, List.length_nil] at given
  dsimp only at given
  omega

/-- Growth is bounded by what has been had, and by what is asked for. -/
theorem opened (modest : Modest begun ceiling first asked free buffer input)
    (fresh : begun.given = 0) (lack : buffer.remaining < needed) (counted : needed ≤ asked)
    {status : Status} (opened : openRoom buffer needed = (status, grown)) :
    Modest begun ceiling first asked free grown input ∧
      (status = .ok () → 0 < grown.room) := by
  obtain ⟨region, same, covers, room⟩ := modest.covers.openRoom lack
  have sized := openRoom_cases buffer needed
  rw [opened] at same room sized
  subst same
  refine ⟨⟨covers, modest.compacted, modest.blank, fun request => ?_⟩, room⟩
  have within := modest.within request
  rcases sized with same | ⟨full, other, same, size⟩
  · exact within.of_size (congrArg Incoming.capacity same) (Nat.le_refl _)
  · -- Doubling stays within twice of what has been had, since a full buffer has had its size.
    have had := modest.capacity_le fresh full
    have past := modest.covers.window.current_le
    have grown : ({ buffer with region } : Incoming).capacity =
      min (2 * max buffer.capacity 1) (buffer.current + needed) :=
        (congrArg Incoming.capacity same).trans size
    obtain ⟨some, taken, asks⟩ := within
    unfold Incoming.remaining at lack
    simp only [Moment.of] at some taken asks
    refine ⟨?_, ?_, fun released => ?_⟩
    · simp only [Moment.of]
      omega
    · simp only [Moment.of]
      omega
    · -- Nothing is kept in front of the cursor, so growth ends at what is asked for.
      have blank := modest.blank released
      have asks := asks released
      simp only [Moment.of]
      omega

theorem commit (modest : Modest begun ceiling first asked free buffer input)
    {arrived : List UInt8} (offered : 0 < buffer.room)
    (read : input.read buffer.room = (.bytes arrived, next)) :
    Modest begun ceiling first asked free ((buffer.fill arrived).commit arrived.length) next where
  covers := modest.covers.commit offered read
  compacted := modest.compacted
  blank := modest.blank
  within request := by
    refine (modest.within request).of_size ?_ (Input.given_le read)
    simp only [Incoming.capacity, Incoming.commit, Incoming.fill, Region.size_overwrite]

theorem read (modest : Modest begun ceiling first asked free buffer input)
    {outcome : Input.Outcome} (offered : 0 < buffer.room)
    (read : input.read buffer.room = (outcome, next)) (same : next.pending = input.pending) :
    Modest begun ceiling first asked free buffer next where
  covers := modest.covers.read offered read same
  compacted := modest.compacted
  blank := modest.blank
  within request := (modest.within request).of_size rfl (Input.given_le read)

/-- What a refill preserves at each of its moments. -/
theorem moments (modest : Modest begun ceiling first asked free buffer input)
    (fresh : begun.given = 0) (counted : needed ≤ asked) :
    ∀ moment ∈ moments input buffer needed, moment.Within first asked free := by
  fun_induction Source.moments input buffer needed with
  | case1 input buffer enough =>
    rintro moment (_ | ⟨_, ⟨⟩⟩)
    exact modest.within _
  | case2 input buffer short fault grown opened =>
    obtain ⟨stays, _⟩ := modest.opened fresh (Nat.lt_of_not_le short) counted opened
    rintro moment (_ | ⟨_, _ | ⟨_, ⟨⟩⟩⟩)
    · exact modest.within _
    · exact stays.within _
  | case3 input buffer short _ grown opened text next read =>
    obtain ⟨stays, room⟩ := modest.opened fresh (Nat.lt_of_not_le short) counted opened
    have ends := stays.read (room rfl) read (Input.read_failed read)
    rintro moment (_ | ⟨_, _ | ⟨_, _ | ⟨_, ⟨⟩⟩⟩⟩)
    · exact modest.within _
    · exact stays.within _
    · exact ends.within _
  | case4 input buffer short _ grown opened next read =>
    obtain ⟨stays, room⟩ := modest.opened fresh (Nat.lt_of_not_le short) counted opened
    have ends := stays.read (room rfl) read (Input.read_bytes read).symm
    rintro moment (_ | ⟨_, _ | ⟨_, _ | ⟨_, ⟨⟩⟩⟩⟩)
    · exact modest.within _
    · exact stays.within _
    · exact ends.within _
  | case5 input buffer short _ grown opened byte bytes next read ih =>
    obtain ⟨stays, room⟩ := modest.opened fresh (Nat.lt_of_not_le short) counted opened
    have rest := ih (stays.commit (room rfl) read)
    rintro moment (_ | ⟨_, _ | ⟨_, member⟩⟩)
    · exact modest.within _
    · exact stays.within _
    · exact rest moment member
  | case6 input buffer short _ grown opened next read ih =>
    obtain ⟨stays, room⟩ := modest.opened fresh (Nat.lt_of_not_le short) counted opened
    have rest := ih (stays.read (room rfl) read (Input.read_interrupted read).1)
    rintro moment (_ | ⟨_, _ | ⟨_, member⟩⟩)
    · exact modest.within _
    · exact stays.within _
    · exact rest moment member

end Modest
end Source

namespace Metered

open Source

/-- What holds of a metered source and its buffer at any time. A run that is free of barriers
never has one. -/
structure Frugal (begun : Input) (ceiling first : Nat) (free : Prop) (buffer : Incoming)
    (handler : Metered) : Prop where
  covers : Covers [] begun ceiling buffer handler.source
  unmarked : free → buffer.barrier = none
  now : (Moment.of 0 handler.source.input buffer).Within first (largest handler.moments) free
  past : ∀ moment ∈ handler.moments, moment.Within first (largest handler.moments) free

namespace Frugal

variable {begun : Input} {ceiling first : Nat} {free : Prop} {buffer : Incoming}
  {handler : Metered}

theorem modest (frugal : Frugal begun ceiling first free buffer handler) {most : Nat}
    (wider : largest handler.moments ≤ most) :
    Modest begun ceiling first most free buffer.compact handler.source.input where
  covers := frugal.covers.compact
  compacted := frugal.covers.window.start_compact
  blank released := by
    have ahead := frugal.covers.window.start_le
    simp only [Incoming.compact, frugal.unmarked released, Option.getD_none]
    split
    · omega
    · dsimp only
      omega
  within needed := (frugal.now.mono wider).of_size buffer.capacity_compact (Nat.le_refl _)

theorem move (frugal : Frugal begun ceiling first free buffer handler) {other : Incoming}
    (region : other.region = buffer.region)
    (window : ∀ pending, buffer.Window begun.pending pending → other.Window begun.pending pending)
    (unmarked : free → other.barrier = none) :
    Frugal begun ceiling first free other handler where
  covers := frugal.covers.within region window
  unmarked := unmarked
  now := frugal.now.of_size (congrArg Region.size region) (Nat.le_refl _)
  past := frugal.past

theorem rescan (frugal : Frugal begun ceiling first free buffer handler) {back : Incoming}
    (found : buffer.rescan? = some back) : Frugal begun ceiling first free back handler := by
  obtain ⟨_, _, _, region⟩ := frugal.covers.window.rescan? found
  obtain ⟨barrier, set, same⟩ := Option.map_eq_some_iff.mp found
  refine frugal.move region (fun _ window => (window.rescan? found).1) fun released => ?_
  rw [← same]
  exact frugal.unmarked released

theorem lasts (fresh : begun.given = 0) : Inlet.Lasts (Frugal begun ceiling first free) where
  advance frugal enough := frugal.move rfl (fun _ window => window.advance enough) frugal.unmarked
  refill {buffer handler needed} frugal _ := by
    have refills := frugal.covers.refill needed
    have ends := List.mem_of_getLast?
      (getLast?_moments handler.source.input buffer.compact needed)
    have total := largest_append handler.moments
      (Source.moments handler.source.input buffer.compact needed)
    have counted : needed ≤ _ := le_largest ends
    have wider : largest handler.moments ≤ largest (handler.moments ++
      Source.moments handler.source.input buffer.compact needed) := by omega
    have during := (frugal.modest wider).moments fresh
      (show needed ≤ _ by rw [total]; exact Nat.le_trans counted (Nat.le_max_right _ _))
    exact {
      covers := refills.covers
      unmarked := fun released => by
        have unmarked : buffer.mark = none := by rw [Incoming.mark, frugal.unmarked released]; rfl
        exact Option.map_eq_none_iff.mp (refills.mark.trans unmarked)
      now := (during _ ends).of_size rfl (Nat.le_refl _)
      past := fun moment member => by
        rcases List.mem_append.mp member with before | new
        · exact (frugal.past moment before).mono wider
        · exact during moment new }

end Frugal
end Metered

namespace Unpacker

open Source

/-- The same unpacker with a meter that has noted nothing yet. -/
def metered (unpacker : Unpacker Source) : Unpacker Metered :=
  { unpacker with handler := ⟨unpacker.handler, []⟩ }

def unmetered (unpacker : Unpacker Metered) : Unpacker Source :=
  { unpacker with handler := unpacker.handler.source }

/-- The moments of all refills so far, and the present one. -/
def history (unpacker : Unpacker Metered) : List Moment :=
  unpacker.handler.moments ++ [.of 0 unpacker.handler.source.input unpacker.buffer]

theorem largest_history (unpacker : Unpacker Metered) :
    largest unpacker.history = largest unpacker.handler.moments := by
  rw [history, largest_append]
  exact Nat.max_eq_left (Nat.zero_le _)

theorem unmetered_eq {rel : Incoming → Metered → Source → Prop} {unpacker : Unpacker Metered}
    {twin : Unpacker Source} (same : unpacker.Matches rel twin)
    (handler : twin.handler = unpacker.handler.source) : unpacker.unmetered = twin := by
  obtain ⟨buffer, _, order, fault, last⟩ := twin
  obtain ⟨rfl, rfl, rfl, rfl, _⟩ := same
  cases handler
  rfl

/-- Thrift. A meter is in nobody's way, and shows that at no moment of any run on a stream the
buffer is larger than it was at first or than twice the bytes that the stream has given, nor, in
a run that sets no barrier, larger than it was at first or than the most bytes that were asked
for at once. Of what was asked for only that counts which the buffer did not have already. -/
theorem thrifty (bytes : List UInt8) (plan : Input.Plan) (order : ByteOrder)
    (capacity ceiling : Nat) (short : capacity < Position.modulus) (requests : List Request) :
    let first := if capacity = 0 then defaultCapacity else capacity
    let unpacker := (ofInput (.ofBytes bytes plan) capacity order).withCeiling ceiling
    let after := unpacker.metered.pursue requests
    after.unmetered = unpacker.pursue requests ∧
      ∀ moment ∈ after.history, moment.capacity ≤ max first (2 * moment.taken) ∧
        (.call .setBarrier ∉ requests → moment.capacity ≤ max first (largest after.history)) := by
  intro first unpacker after
  have covers := covers_ofInput (.ofBytes bytes plan) ceiling order short
  have size : unpacker.buffer.capacity = first := Array.size_replicate
  have begun : Metered.Frugal (.ofBytes bytes plan) ceiling first (.call .setBarrier ∉ requests)
      unpacker.buffer unpacker.metered.handler := {
    covers := covers
    unmarked := fun _ => rfl
    now := by
      refine ⟨?_, ?_, fun _ => ?_⟩ <;> simp only [Moment.of, size]
      · dsimp only [first]
        split
        · decide
        · omega
      · exact Nat.le_max_left _ _
      · exact Nat.le_max_left _ _
    past := nofun }
  have same : unpacker.metered.Matches (fun buffer handler other => other = handler.source ∧
      Metered.Frugal (.ofBytes bytes plan) ceiling first (.call .setBarrier ∉ requests) buffer
        handler) unpacker := ⟨rfl, rfl, rfl, rfl, rfl, begun⟩
  have ends := same.pursue ((Metered.Frugal.lasts rfl).along Metered.passes) requests
    (fun sets _ _ _ tied => ⟨tied.1, tied.2.move rfl (fun _ window => window.setBarrier)
      fun none => absurd sets none⟩)
    (fun tied => ⟨tied.1, tied.2.move rfl (fun _ window => window.clearBarrier) fun _ => rfl⟩)
    (fun tied found => ⟨tied.1, tied.2.rescan found⟩)
  refine ⟨unmetered_eq ends ends.rel.1, fun moment member => ?_⟩
  have frugal := ends.rel.2
  have within : moment.Within first (largest after.handler.moments)
      (.call .setBarrier ∉ requests) := by
    rcases List.mem_append.mp member with past | now
    · exact frugal.past moment past
    · rw [List.mem_singleton.mp now]
      exact frugal.now
  rw [largest_history]
  exact ⟨within.taken, within.asked⟩

/-- A message of four gigabytes is announced and ten bytes of it come. -/
theorem thrifty_announced :
    let bytes : List UInt8 := [0xc6, 0xff, 0xff, 0xff, 0xff, 1, 2, 3, 4, 5]
    let plan : Input.Plan := .paced (fun _ => 3) true none
    let unpacker := (ofInput (.ofBytes bytes plan) 4 .portable).withCeiling 64
    let after := unpacker.metered.pursue [.call .lookAhead, .call .next]
    4 < Position.modulus ∧ after.unmetered = unpacker.pursue [.call .lookAhead, .call .next] ∧
      ∀ moment ∈ after.history, moment.capacity ≤ max 4 (2 * moment.taken) ∧
        (.call .setBarrier ∉ [Request.call .lookAhead, .call .next] →
          moment.capacity ≤ max 4 (largest after.history)) :=
  ⟨by decide, thrifty [0xc6, 0xff, 0xff, 0xff, 0xff, 1, 2, 3, 4, 5] _ .portable 4 64 (by decide)
    [.call .lookAhead, .call .next]⟩

end Unpacker
end MessagePack
