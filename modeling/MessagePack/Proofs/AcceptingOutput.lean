import MessagePack.Pack.Sink
import MessagePack.Proofs.PackingCalls

/-! Packing into an output stream that accepts. Whatever the stream takes at a time, and
however the buffer is drained, grown and passed by, the bytes that the stream has received
and those still in the buffer are the text that is packed in memory. -/
namespace MessagePack

/-- Every call that offers bytes has some of them accepted, and no flush fails. -/
def Output.Accepts (output : Output) : Prop :=
  (∀ call received offered, 0 < offered →
    ∃ atMost, 0 < atMost ∧ output.plan.beat call received offered = .accept atMost) ∧
  ∀ flush, output.plan.flushFailure flush = none

namespace Output

theorem accepts_steady : (ofPlan .steady).Accepts :=
  ⟨fun _ _ offered some => ⟨offered, some, rfl⟩, fun _ => rfl⟩

theorem toList_foldl_push (bytes : List UInt8) (received : Array UInt8) :
    (bytes.foldl .push received).toList = received.toList ++ bytes := by
  induction bytes generalizing received with
  | nil => simp
  | cons byte bytes ih => rw [List.foldl_cons, ih, Array.toList_push, List.append_assoc]; rfl

theorem Accepts.write {output : Output} (accepts : output.Accepts) {bytes : List UInt8}
    (some : bytes ≠ []) :
    ∃ count next, output.write bytes = (.ok (count + 1), next) ∧ next.Accepts ∧
      next.received.toList = output.received.toList ++ bytes.take (count + 1) := by
  have positive := List.length_pos_iff.mpr some
  obtain ⟨atMost, progress, beat⟩ :=
    accepts.1 output.call output.received.size bytes.length positive
  obtain ⟨count, least⟩ : ∃ count, min atMost bytes.length = count + 1 :=
    ⟨min atMost bytes.length - 1, by omega⟩
  simp only [Output.write]
  rw [beat]
  dsimp only
  rw [least]
  refine ⟨count, _, rfl, accepts, ?_⟩
  rw [toList_foldl_push, ← least, List.take_eq_take_min]

theorem Accepts.writeAll {output : Output} (accepts : output.Accepts) (bytes : List UInt8) :
    (output.writeAll bytes).1 = .ok () ∧ (output.writeAll bytes).2.Accepts ∧
      (output.writeAll bytes).2.received.toList = output.received.toList ++ bytes := by
  fun_induction Output.writeAll output bytes with
  | case1 output => exact ⟨rfl, accepts, by simp⟩
  | case2 output bytes more text next refused =>
    obtain ⟨count, _, wrote, _⟩ := accepts.write more
    rw [refused] at wrote
    cases wrote
  | case3 output bytes more next stuck =>
    obtain ⟨count, _, wrote, _⟩ := accepts.write more
    rw [stuck] at wrote
    cases wrote
  | case4 output bytes more count next took ih =>
    obtain ⟨_, _, wrote, goesOn, received⟩ := accepts.write more
    rw [took] at wrote
    cases wrote
    obtain ⟨answered, stays, whole⟩ := ih goesOn
    refine ⟨answered, stays, ?_⟩
    rw [whole, received, List.append_assoc, List.take_append_drop]

end Output

namespace Sink

variable {sink : Sink} {buffer : Outgoing}

/-- Draining passes on the packed bytes before the barrier, all of them without one. -/
theorem drain_keeps (sound : buffer.Sound) (accepts : sink.output.Accepts) :
    (sink.drain buffer).KeepsText buffer sink.output.received.toList
        (sink.drain buffer).handler.output.received.toList ∧
      (sink.drain buffer).handler.output.Accepts ∧ (sink.drain buffer).status = .ok () ∧
      (sink.drain buffer).buffer.packed.length ≤ buffer.packed.length ∧
      (buffer.barrier = none → (sink.drain buffer).buffer.packed = []) := by
  simp only [drain]
  have upto_le : buffer.barrier.getD buffer.current ≤ buffer.current := by
    cases set : buffer.barrier with
    | none => exact Nat.le_refl _
    | some barrier => exact (sound.barrier_bounds barrier set).2
  by_cases nothing : buffer.barrier.getD buffer.current ≤ buffer.start
  · rw [if_pos nothing]
    refine ⟨⟨sound, rfl, rfl, rfl, rfl⟩, accepts, rfl, Nat.le_refl _, fun unmarked => ?_⟩
    rw [unmarked] at nothing
    exact Region.slice_of_le nothing
  rw [if_neg nothing]
  obtain ⟨answered, stays, received⟩ :=
    accepts.writeAll (buffer.region.slice buffer.start (buffer.barrier.getD buffer.current))
  generalize sink.output.writeAll _ = result at answered stays received ⊢
  obtain ⟨answer, output⟩ := result
  dsimp only at answered stays received
  subst answered
  obtain ⟨sound', packed, mark, front, stop, ceiling⟩ :=
    sound.discardFront (Nat.le_of_not_le nothing) upto_le
  have lead := Region.take_slice buffer.region (Nat.le_of_not_le nothing) upto_le sound.current_le
  have length : (buffer.region.slice buffer.start (buffer.barrier.getD buffer.current)).length =
      buffer.barrier.getD buffer.current - buffer.start :=
    Region.length_slice_of_le (Nat.le_trans upto_le sound.current_le)
  refine ⟨⟨sound', front, ceiling, ?_, ?_⟩, stays, rfl, ?_, fun unmarked => ?_⟩
  · dsimp only
    rw [received, packed, ← lead, List.append_assoc]
    exact congrArg _ (List.take_append_drop ..)
  · dsimp only
    rw [mark, received, List.length_append, length]
    cases set : buffer.barrier with
    | none => simp [Outgoing.mark, set]
    | some barrier =>
      have := sound.barrier_bounds barrier set
      simp only [Outgoing.mark, set, Option.map_some, Option.getD_some, Option.some.injEq]
      omega
  · dsimp only
    rw [packed, List.length_drop]
    exact Nat.sub_le _ _
  · dsimp only
    rw [packed, unmarked, Option.getD_none, ← sound.length_packed, List.drop_length]

end Sink

theorem Outlet.Reply.KeepsText.trans {first second : Outlet.Reply σ} {buffer : Outgoing}
    {before between after : List UInt8} (one : first.KeepsText buffer before between)
    (two : second.KeepsText first.buffer between after) : second.KeepsText buffer before after where
  sound := two.sound
  front := two.front.trans one.front
  ceiling := two.ceiling.trans one.ceiling
  text := two.text.trans one.text
  mark := two.mark.trans one.mark

/-- A sink passes bytes on when its buffer is full, and when it is told to. -/
instance : Channel Sink where
  delivered sink := sink.output.received.toList
  Faithful sink := sink.output.Accepts
  makeRoom {sink buffer needed} sound front accepts short := by
    obtain ⟨keeps, stays, status, shorter, _⟩ := Sink.drain_keeps sound accepts
    dsimp only [Outlet.makeRoom, Sink.makeRoom]
    rw [status]
    dsimp only
    by_cases enough : needed ≤ (sink.drain buffer).buffer.remaining
    · rw [if_pos enough]
      exact ⟨keeps, stays, .inl ⟨status, enough⟩⟩
    · rw [if_neg enough]
      obtain ⟨grows, made⟩ := Outgoing.keeps_growFor keeps.sound (keeps.front.trans front)
        (Nat.lt_of_not_le enough) (sink.drain buffer).handler
        (sink.drain buffer).handler.output.received.toList
      refine ⟨keeps.trans grows, stays, made.imp_right fun refused => ?_⟩
      refine ⟨refused.1, fun granted => ?_⟩
      rw [keeps.ceiling] at refused
      exact refused.2 (granted.mono (Nat.add_le_add_right shorter needed))
  flush {sink buffer} sound accepts _ := by
    obtain ⟨keeps, stays, status, _, empty⟩ := Sink.drain_keeps sound accepts
    dsimp only [Outlet.flush, Sink.flush]
    rw [status]
    have none := stays.2 (sink.drain buffer).handler.output.flushes
    simp only [Output.flush, none, Sink.reply]
    exact ⟨⟨keeps.sound, keeps.front, keeps.ceiling, keeps.text, keeps.mark⟩, stays, trivial,
      rfl, empty⟩
  write {sink} buffer bytes accepts _ := by
    obtain ⟨answered, stays, received⟩ := accepts.writeAll bytes
    dsimp only [Outlet.write, Sink.write]
    rw [answered]
    exact ⟨rfl, rfl, stays, received⟩

namespace Packer

theorem holds_toOutput {plan : Output.Plan} (accepts : (Output.ofPlan plan).Accepts)
    (capacity ceiling : Nat) (dialect : Dialect) :
    ((toOutput (.ofPlan plan) capacity dialect).withCeiling ceiling).Holds (.start dialect)
      ceiling :=
  Holds.new ((Outgoing.Sound.ofSize _).withCeiling ceiling) rfl rfl accepts
    (Region.slice_self _ 0) dialect

theorem Holds.finish {packer : Packer Sink} {draft : Draft} {ceiling : Nat}
    (holds : packer.Holds draft ceiling) (clean : draft.fault = none) :
    packer.finish.1 = .ok () ∧ packer.finish.2.handler.output.received.toList = draft.text := by
  have unpinned := holds.clearBarrier
  obtain ⟨keeps, faithful, status, _, empty⟩ := Channel.flush unpinned.sound unpinned.faithful rfl
  have text := keeps.text.trans unpinned.text
  rw [empty rfl, List.append_nil] at text
  dsimp only at status text
  simp only [Packer.finish, Packer.flush, Packer.attempt, Packer.settle]
  rw [holds.fault, clean]
  dsimp only
  rw [if_pos (show Outlet.canFlush packer.handler = true from rfl), status]
  exact ⟨rfl, text⟩

section

variable {plan : Output.Plan} {dialect : Dialect} {capacity granted ceiling : Nat}
  {calls : List Call}

theorem holds_memory
    (clean : (((growable capacity dialect).withCeiling granted).run
      (calls.filter (· ≠ .flush))).2.fault = none) :
    (((growable capacity dialect).withCeiling granted).run
      (calls.filter (· ≠ .flush))).2.Holds ((Draft.start dialect).run calls).2 granted := by
  have outcome := (holds_growable capacity granted dialect).run (calls.filter (· ≠ .flush))
    (by simp)
  rcases outcome with ⟨_, holds⟩ | ⟨failed, _⟩
  · rwa [Draft.run_filter_flush] at holds
  · rw [failed] at clean
    cases clean

theorem holds_sink (size : Nat) (accepts : (Output.ofPlan plan).Accepts)
    (allocation : Granted ceiling ((Draft.start dialect).run calls).2.text.length) :
    (((toOutput (.ofPlan plan) size dialect).withCeiling ceiling).run calls).1 =
        ((Draft.start dialect).run calls).1 ∧
      (((toOutput (.ofPlan plan) size dialect).withCeiling ceiling).run calls).2.Holds
        ((Draft.start dialect).run calls).2 ceiling := by
  have outcome := (holds_toOutput accepts size ceiling dialect).run calls fun _ _ => rfl
  rcases outcome with holds | ⟨_, short⟩
  · exact holds
  · exact absurd allocation short

/-- Output. What memory takes without fault a stream takes, flushed at any time: nothing is
lost, doubled or out of order on the way, at any step, and in the end the stream has
received what memory holds. -/
theorem sink_matches_memory (size : Nat) (accepts : (Output.ofPlan plan).Accepts)
    (clean : (((growable capacity dialect).withCeiling granted).run
      (calls.filter (· ≠ .flush))).2.fault = none)
    (allocation : Granted ceiling (((growable capacity dialect).withCeiling granted).run
      (calls.filter (· ≠ .flush))).2.buffer.packed.length) :
    let memory := (growable capacity dialect).withCeiling granted
    let sink := (toOutput (.ofPlan plan) size dialect).withCeiling ceiling
    (sink.run calls).1 = calls.map (fun _ => .ok ()) ∧ (sink.run calls).2.status = .ok () ∧
      (sink.run calls).2.finish.1 = .ok () ∧
      (sink.run calls).2.finish.2.handler.output.received.toList =
        (memory.run (calls.filter (· ≠ .flush))).2.buffer.packed ∧
      ∀ front, front <+: calls →
        let before := (memory.run (front.filter (· ≠ .flush))).2
        let after := (sink.run front).2
        after.handler.output.received.toList ++ after.buffer.packed = before.buffer.packed ∧
          after.buffer.pinned = before.buffer.pinned := by
  dsimp only
  have memory := holds_memory clean
  rw [memory.packed_eq] at allocation
  have fault := memory.fault.symm.trans clean
  obtain ⟨answers, sink⟩ := holds_sink size accepts allocation
  obtain ⟨finished, received⟩ := sink.finish fault
  refine ⟨answers.trans (Draft.run_eq_ok fault).2, ?_, finished,
    received.trans memory.packed_eq.symm, ?_⟩
  · rw [Packer.status, sink.fault, fault]
  rintro front ⟨back, rfl⟩
  rw [List.filter_append, run_append] at clean
  rw [Draft.run_append] at allocation
  have sound : (((growable capacity dialect).withCeiling granted).run
      (front.filter (· ≠ .flush))).2.fault = none := by
    cases failed : (((growable capacity dialect).withCeiling granted).run
      (front.filter (· ≠ .flush))).2.fault with
    | none => rfl
    | some fault => rw [fault_run failed] at clean; cases clean
  have memory := holds_memory sound
  have shorter := Draft.length_run_le back ((Draft.start dialect).run front).2
  obtain ⟨_, sink⟩ := holds_sink size accepts (allocation.mono shorter)
  exact ⟨sink.text.trans memory.packed_eq.symm, sink.pinned_eq.trans memory.pinned_eq.symm⟩

/-- A stream that takes one byte at a time, from a buffer of two bytes that is flushed,
outgrown, passed by and patched. -/
theorem sink_matches_memory_bytewise :
    let plan : Output.Plan := ⟨fun _ _ _ => .accept 1, fun _ => none⟩
    let calls : List Call := [.pack (.unsigned 300), .flush, .setBarrier, .pack (.strSize 3),
      .insert [0x61, 0x62, 0x63], .patch 1 [0x78], .flush, .clearBarrier, .insert [0xc0]]
    ((((toOutput (.ofPlan plan) 2 ⟨false, .portable⟩).withCeiling 16).run
      calls).2.finish.2.handler.output.received.toList) =
        [0xcd, 0x01, 0x2c, 0xa3, 0x78, 0x62, 0x63, 0xc0] := by
  intro plan calls
  have accepts : (Output.ofPlan plan).Accepts :=
    ⟨fun _ _ _ _ => ⟨1, Nat.one_pos, rfl⟩, fun _ => rfl⟩
  have clean : (((growable 16 ⟨false, .portable⟩).withCeiling 16).run
      (calls.filter (· ≠ .flush))).2.fault = none := by decide
  have allocation : Granted 16 (((growable 16 ⟨false, .portable⟩).withCeiling 16).run
      (calls.filter (· ≠ .flush))).2.buffer.packed.length := by decide
  obtain ⟨_, _, _, received, _⟩ := sink_matches_memory 2 accepts clean allocation
  exact received.trans (by decide)

end

end Packer
end MessagePack
