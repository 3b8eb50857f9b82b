import MessagePack.Proofs.SkipCounter
import MessagePack.Proofs.LookAheadAgreement

/-! How long a skip takes. The counter of what is still to be stepped over comes down by one and
goes up by what a container says, so it bounds nothing. What does is the input: every round of the
loop reads a byte of it at least or is the last one, whatever the stream does in between, and the
cursor goes on within the buffer from one state to the next. -/
namespace MessagePack
namespace Unpacker

variable [Inlet σ]

/-! ### States on the way -/

/-- The states that a scan leads through. A request leads to one in which the bytes are there, or
are not to be had, and to another in which they have been read. -/
def visits : Scan α → Unpacker σ → List (Unpacker σ)
  | .done _, _ => []
  | .fail _, _ => []
  | .take count leading next, unpacker =>
    (unpacker.demand count leading).2 ::
      match unpacker.take count leading with
      | (.error _, _) => []
      | (.ok bytes, after) => after :: visits (next bytes) after

/-- The cursor is in the part of the buffer that holds bytes. -/
structure Inside (unpacker : Unpacker σ) : Prop where
  start_le : unpacker.buffer.start ≤ unpacker.buffer.current
  current_le : unpacker.buffer.current ≤ unpacker.buffer.stop
  stop_le : unpacker.buffer.stop ≤ unpacker.buffer.capacity

/-- From one unpacker through others to the last, with the cursor in bounds in every one, and the
offset never smaller than in the one before. -/
inductive Onward : Unpacker σ → List (Unpacker σ) → Unpacker σ → Prop where
  | here {unpacker : Unpacker σ} (inside : unpacker.Inside) : Onward unpacker [] unpacker
  | step {unpacker next last : Unpacker σ} {states : List (Unpacker σ)}
    (inside : unpacker.Inside) (forward : unpacker.offset ≤ next.offset)
    (rest : Onward next states last) : Onward unpacker (next :: states) last

variable {unpacker between last : Unpacker σ} {states others : List (Unpacker σ)}

omit [Inlet σ] in
theorem Onward.append (front : Onward unpacker states between)
    (back : Onward between others last) : Onward unpacker (states ++ others) last := by
  induction front with
  | here => exact back
  | step inside forward _ ih => exact .step inside forward (ih back)

variable {input : List UInt8} {holds : Incoming → σ → Prop} {ended : σ → Prop}

theorem inside_of_holds (keeps : Inlet.Maintains input holds ended)
    (held : holds unpacker.buffer unpacker.handler) : unpacker.Inside := by
  obtain ⟨_, window⟩ := keeps.window held
  exact ⟨window.start_le, window.current_le, window.stop_le⟩

theorem demand_of_take_error {count : Nat} {leading : Bool} {fault : Fault}
    (refused : unpacker.take count leading = (.error fault, between)) :
    (unpacker.demand count leading).2 = between := by
  unfold take at refused
  split at refused <;> cases refused
  rename_i demanded
  rw [demanded]

theorem onward_visits (keeps : Inlet.Maintains input holds ended) (scan : Scan α)
    (held : holds unpacker.buffer unpacker.handler) :
    Onward unpacker (visits scan unpacker) (perform scan unpacker).2 := by
  induction scan generalizing unpacker with
  | done value => exact .here (inside_of_holds keeps held)
  | fail fault => exact .here (inside_of_holds keeps held)
  | take count leading next ih =>
    obtain ⟨rests, _⟩ := keeps.demand held count leading
    obtain ⟨stays, read⟩ := keeps.take held count leading
    have asked := inside_of_holds keeps rests.holds
    rw [visits, perform]
    refine .step (inside_of_holds keeps held) (Nat.le_of_eq rests.offset.symm) ?_
    rcases taken : unpacker.take count leading with ⟨fault | bytes, after⟩
    · rw [demand_of_take_error taken] at asked ⊢
      exact .here asked
    · rw [taken] at stays read
      obtain ⟨_, _, moved⟩ := read bytes rfl
      refine .step asked ?_ (ih bytes stays.holds)
      rw [rests.offset, moved]
      exact Nat.le_add_right _ _

/-! ### Rounds -/

/-- A round of the loop begins with a counter and an unpacker. -/
structure Lap (σ : Type) where
  pending : Nat
  unpacker : Unpacker σ

/-- The number of nested items, or why the round breaks off, and what it leaves. -/
def Lap.step (lap : Lap σ) : Except Fault Nat × Unpacker σ :=
  perform (Extent.scan lap.unpacker.order) lap.unpacker

def Lap.visits (lap : Lap σ) : List (Unpacker σ) :=
  Unpacker.visits (Extent.scan lap.unpacker.order) lap.unpacker

/-- The rounds that the loop of a skip makes one after the other, and what it ends in. -/
inductive Laps :
    Nat → Unpacker σ → List (Lap σ) → Except Fault Skipped × Unpacker σ → Prop where
  | done (unpacker : Unpacker σ) : Laps 0 unpacker [] (.ok .whole, unpacker)
  | failed {pending : Nat} {unpacker after : Unpacker σ} {fault : Fault}
    (failed : Lap.step ⟨pending + 1, unpacker⟩ = (.error fault, after)) :
    Laps (pending + 1) unpacker [⟨pending + 1, unpacker⟩] (.error fault, after)
  | overflowed {pending items : Nat} {unpacker after : Unpacker σ}
    (stepped : Lap.step ⟨pending + 1, unpacker⟩ = (.ok items, after))
    (full : ¬pending + items < UInt64.size) :
    Laps (pending + 1) unpacker [⟨pending + 1, unpacker⟩] (.ok .overflow, after)
  | lap {pending items : Nat} {unpacker after : Unpacker σ} {laps : List (Lap σ)}
    {result : Except Fault Skipped × Unpacker σ}
    (stepped : Lap.step ⟨pending + 1, unpacker⟩ = (.ok items, after))
    (room : pending + items < UInt64.size) (rest : Laps (pending + items) after laps result) :
    Laps (pending + 1) unpacker (⟨pending + 1, unpacker⟩ :: laps) result

theorem exists_laps (pending : Nat) (unpacker : Unpacker σ) :
    ∃ laps, Laps pending unpacker laps (unpacker.skipPending pending) := by
  fun_induction skipPending pending unpacker with
  | case1 unpacker => exact ⟨[], .done unpacker⟩
  | case2 unpacker pending fault after failed => exact ⟨_, .failed failed⟩
  | case3 unpacker pending items after stepped room ih =>
    obtain ⟨laps, rest⟩ := ih
    exact ⟨_, .lap stepped room rest⟩
  | case4 unpacker pending items after stepped full => exact ⟨_, .overflowed stepped full⟩

/-- A round goes forward, and one that is not the last one reads its tag; what it adds to the
counter comes from one size field. -/
theorem Lap.forward (keeps : Inlet.Maintains input holds ended) (lap : Lap σ)
    (held : holds lap.unpacker.buffer lap.unpacker.handler) :
    holds lap.step.2.buffer lap.step.2.handler ∧
      Onward lap.unpacker lap.visits lap.step.2 ∧
      ∀ items after, lap.step = (.ok items, after) →
        lap.unpacker.offset < after.offset ∧ items ≤ 2 * 0xffffffff := by
  obtain ⟨stays, read⟩ := keeps.perform (Extent.scan lap.unpacker.order) held
  refine ⟨stays.holds, onward_visits keeps _ held, fun items after stepped => ?_⟩
  rw [show perform _ _ = _ from stepped] at read
  obtain ⟨taken, answered, moved⟩ := read items rfl
  have tag : 1 ≤ taken := Scan.le_of_read_take (answered .endOfInput)
  dsimp only at moved
  exact ⟨by omega, yields_perform (Extent.yields_scan _) stepped⟩

namespace Laps

variable {pending : Nat} {laps : List (Lap σ)} {result : Except Fault Skipped × Unpacker σ}

/-- It does so in one way. -/
theorem unique (run : Laps pending unpacker laps result) {others : List (Lap σ)}
    {other : Except Fault Skipped × Unpacker σ} (again : Laps pending unpacker others other) :
    others = laps ∧ other = result := by
  induction run generalizing others with
  | done =>
    cases again
    exact ⟨rfl, rfl⟩
  | failed failed =>
    cases again with
    | failed same =>
      cases failed.symm.trans same
      exact ⟨rfl, rfl⟩
    | overflowed stepped => cases failed.symm.trans stepped
    | lap stepped => cases failed.symm.trans stepped
  | overflowed stepped full =>
    cases again with
    | failed failed => cases stepped.symm.trans failed
    | overflowed same =>
      cases stepped.symm.trans same
      exact ⟨rfl, rfl⟩
    | lap same room =>
      cases stepped.symm.trans same
      exact absurd room full
  | lap stepped room _ ih =>
    cases again with
    | failed failed => cases stepped.symm.trans failed
    | overflowed same full =>
      cases stepped.symm.trans same
      exact absurd room full
    | lap same _ rest =>
      cases stepped.symm.trans same
      obtain ⟨rfl, rfl⟩ := ih rest
      exact ⟨rfl, rfl⟩

theorem held_of_mem (run : Laps pending unpacker laps result)
    (keeps : Inlet.Maintains input holds ended) (held : holds unpacker.buffer unpacker.handler) :
    ∀ lap ∈ laps, holds lap.unpacker.buffer lap.unpacker.handler := by
  induction run with
  | done => exact fun _ member => nomatch member
  | failed | overflowed => exact List.forall_mem_singleton.mpr held
  | @lap pending items unpacker after laps result stepped room rest ih =>
    obtain ⟨still, _⟩ := Lap.forward keeps ⟨pending + 1, unpacker⟩ held
    rw [stepped] at still
    exact List.forall_mem_cons.mpr ⟨held, ih still⟩

theorem pending_lt_of_mem (run : Laps pending unpacker laps result)
    (word : pending < UInt64.size) : ∀ lap ∈ laps, lap.pending < UInt64.size := by
  induction run with
  | done => exact fun _ member => nomatch member
  | failed | overflowed => exact List.forall_mem_singleton.mpr word
  | lap stepped room rest ih => exact List.forall_mem_cons.mpr ⟨word, ih room⟩

theorem onward (run : Laps pending unpacker laps result)
    (keeps : Inlet.Maintains input holds ended) (held : holds unpacker.buffer unpacker.handler) :
    Onward unpacker (laps.flatMap Lap.visits) result.2 := by
  induction run with
  | done => exact .here (inside_of_holds keeps held)
  | @failed pending unpacker after fault failed =>
    obtain ⟨_, path, _⟩ := Lap.forward keeps ⟨pending + 1, unpacker⟩ held
    rw [failed] at path
    rwa [List.flatMap_singleton]
  | @overflowed pending items unpacker after stepped full =>
    obtain ⟨_, path, _⟩ := Lap.forward keeps ⟨pending + 1, unpacker⟩ held
    rw [stepped] at path
    rwa [List.flatMap_singleton]
  | @lap pending items unpacker after laps result stepped room rest ih =>
    obtain ⟨still, path, _⟩ := Lap.forward keeps ⟨pending + 1, unpacker⟩ held
    rw [stepped] at still path
    rw [List.flatMap_cons]
    exact path.append (ih still)

/-- There are no more rounds than bytes that they read, but for the last one. -/
theorem offset_add_length_le (run : Laps pending unpacker laps result)
    (keeps : Inlet.Maintains input holds ended) (held : holds unpacker.buffer unpacker.handler) :
    unpacker.offset + laps.length ≤ input.length + 1 := by
  have within {unpacker : Unpacker σ} (held : holds unpacker.buffer unpacker.handler) :
      unpacker.offset ≤ input.length := by
    obtain ⟨_, window⟩ := keeps.window held
    have whole := window.offset_add
    simp only [offset]
    omega
  induction run with
  | done => exact Nat.le_succ_of_le (within held)
  | failed | overflowed => exact Nat.succ_le_succ (within held)
  | @lap pending items unpacker after laps result stepped room rest ih =>
    obtain ⟨still, _, gains⟩ := Lap.forward keeps ⟨pending + 1, unpacker⟩ held
    rw [stepped] at still
    have fewer := ih still
    have gain := (gains items after stepped).1
    dsimp only at gain
    rw [List.length_cons]
    omega

end Laps

/-! ### Skips -/

/-- A skip ends after these rounds, which the bytes of the input are enough for. Where a fault
stands it answers that and makes none of them. -/
structure Skips (input : List UInt8) (count : UInt64) (unpacker : Unpacker σ)
    (laps : List (Lap σ)) : Prop where
  /-- The rounds are those of the loop, and the skip answers what the loop ends in. The cursor
  stays in bounds on the way there, and never goes back. -/
  ends : ∃ result, Laps count.toNat { unpacker with last := none } laps result ∧
    Onward { unpacker with last := none } (laps.flatMap Lap.visits) result.2 ∧
    unpacker.skip count = unpacker.attempt fun _ => result
  few : unpacker.offset + laps.length ≤ input.length + 1
  words : ∀ lap ∈ laps, lap.pending < UInt64.size
  gains : ∀ lap ∈ laps, ∀ items after, lap.step = (.ok items, after) →
    lap.unpacker.offset < after.offset ∧ items ≤ 2 * 0xffffffff

theorem exists_skips (keeps : Inlet.Maintains input holds ended)
    (held : holds unpacker.buffer unpacker.handler) (count : UInt64) :
    ∃ laps, unpacker.Skips input count laps := by
  have same : holds ({ unpacker with last := none } : Unpacker σ).buffer unpacker.handler := held
  obtain ⟨laps, run⟩ := exists_laps count.toNat { unpacker with last := none }
  refine ⟨laps, ⟨_, run, run.onward keeps same, rfl⟩, run.offset_add_length_le keeps same,
    run.pending_lt_of_mem count.toNat_lt_size, ?_⟩
  exact fun lap member => (Lap.forward keeps lap (run.held_of_mem keeps same lap member)).2.2

end Unpacker

open Unpacker in
/-- Skips end. In memory and on any stream, after any requests and for any count, the loop makes no
more rounds than there are bytes ahead, and one. The counter can come out of a round larger by two
for every entry that a map can have; but a round that does not break off has read a byte. In every
state on the way, also to where a round breaks off, the cursor is within the buffered bytes, and the
offset is not behind that of the state before. -/
theorem skip_ends (front : List UInt8) (input : Input) {capacity : Nat}
    (short : capacity < Position.modulus) (fits : front.length < Position.modulus)
    (ceiling : Nat) (order : ByteOrder) (requests : List Request) (count : UInt64) :
    (∃ laps, ((ofBytes front order).pursue requests).Skips front count laps) ∧
      (∃ laps, (((ofInput input capacity order).withCeiling ceiling).pursue requests).Skips
        input.pending count laps) ∧
      ∃ laps, (((new (.ofBytes front) (Source.mk input) order).withCeiling ceiling).pursue
        requests).Skips (front ++ input.pending) count laps := by
  refine ⟨?_, ?_, ?_⟩
  · have keeps := Exhausted.maintains front
    exact exists_skips keeps (keeps.pursue (.ofBytes front) requests).1 count
  · have keeps := Source.maintains [] input ceiling
    exact exists_skips keeps
      (keeps.pursue (covers_ofInput input ceiling order short) requests).1 count
  · have keeps := Source.maintains front input ceiling
    exact exists_skips keeps
      (keeps.pursue (covers_ofBytes input ceiling order fits) requests).1 count

open Unpacker in
/-- Behind a number a map with as many entries as can be said, cut off before the first of them.
Of its bytes three are brought one by one. The counter grows by all it can, and there are two
rounds. -/
theorem skip_ends_largestMap :
    let input := Input.ofBytes [0xff, 0xff, 0xff] (.paced (fun _ => 1) true none)
    let unpacker := ((Unpacker.new (.ofBytes [0x05, 0xdf, 0xff]) (Source.mk input)
      .native).withCeiling 32).pursue [.call .next]
    (0 < Position.modulus ∧ [0x05, 0xdf, 0xff].length < Position.modulus) ∧
      ∃ laps, unpacker.Skips ([0x05, 0xdf, 0xff] ++ input.pending) 1 laps ∧
        laps.map (·.pending) = [1, 2 * 0xffffffff] ∧
        laps.map (·.step.1) = [.ok (2 * 0xffffffff), .error .endOfInput] := by
  intro input unpacker
  obtain ⟨_, _, laps, skips⟩ := skip_ends [0x05, 0xdf, 0xff] input
    (show 0 < Position.modulus by decide) (by decide) 32 .native [.call .next] 1
  -- Of any unpacker, since this one would be evaluated at every step of the check.
  have rounds (begun : Unpacker Source) :
      let inner := (Lap.step ⟨1, begun⟩).2
      (Lap.step ⟨1, begun⟩).1 = .ok (2 * 0xffffffff) →
        (Lap.step ⟨2 * 0xffffffff, inner⟩).1 = .error .endOfInput →
        Laps 1 begun [⟨1, begun⟩, ⟨2 * 0xffffffff, inner⟩]
          (.error .endOfInput, (Lap.step ⟨2 * 0xffffffff, inner⟩).2) :=
    fun opened missed => .lap (Prod.ext opened rfl) (by decide) (.failed (Prod.ext missed rfl))
  let begun := { unpacker with last := none }
  have opened : (Lap.step ⟨1, begun⟩).1 = .ok (2 * 0xffffffff) := by cbv
  have missed (pending : Nat) :
      (Lap.step ⟨pending, (Lap.step ⟨1, begun⟩).2⟩).1 = .error .endOfInput := by cbv
  obtain ⟨_, run, _⟩ := skips.ends
  obtain ⟨rfl, _⟩ := (rounds begun opened (missed _)).unique run
  refine ⟨by decide, _, skips, rfl, ?_⟩
  rw [List.map_cons, List.map_cons, opened, missed, List.map_nil]

end MessagePack
