import MessagePack.Proofs.DumpAlike

/-! Dumps into an output that has room for a number of bytes, and of an input that arrives at some
pace. What a dump writes is settled by the bytes of its input. So an output that stops short has
received the front of the dump, as far as it goes, and the pace of either stream leaves no trace. -/
namespace MessagePack

namespace Output

/-- The text that a call fails with when it offers something. Accepting nothing is a failure. -/
def Beat.refusal? : Beat → Option String
  | .fail text => some text
  | .accept 0 => some "failed to write whole buffer"
  | .accept (_ + 1) => none

/-- Accepts `limit` bytes in all, some of them in every call, and fails for all that is more. -/
structure Plan.Limits (plan : Plan) (limit : Nat) : Prop where
  accepts : ∀ call received offered, 0 < offered → received < limit →
    ∃ atMost, 0 < atMost ∧ received + min atMost offered ≤ limit ∧
      plan.beat call received offered = .accept atMost
  refuses : ∀ call offered, 0 < offered →
    ∃ text, (plan.beat call limit offered).refusal? = some text
  flushes : ∀ flush, plan.flushFailure flush = none

theorem Plan.limits_bounded {chunk : Nat} (positive : 0 < chunk) (limit : Nat) {full : Beat}
    {text : String} (refusal : full.refusal? = some text) :
    (bounded (some chunk) (some limit) full none).Limits limit where
  accepts call received offered _ room := by
    have some : min chunk (limit - received) ≠ 0 := by omega
    exact ⟨min chunk (limit - received), by omega, by omega, if_neg some⟩
  refuses call offered _ := by
    have none : min chunk (limit - limit) = 0 := by omega
    refine ⟨text, ?_⟩
    simp only [bounded, Option.getD_some, Option.map_some, none]
    exact refusal
  flushes _ := rfl

/-- A call fails with the text once `limit` bytes have been received. -/
def Plan.Refuses (plan : Plan) (limit : Nat) (text : String) : Prop :=
  ∃ call offered, 0 < offered ∧ (plan.beat call limit offered).refusal? = some text

/-- Of `bytes` as many have been received as there was room for, and if that was not all of them
there has been a failure. -/
structure Cuts (output : Output) (limit : Nat) (bytes : List UInt8)
    (result : Except String Unit × Output) : Prop where
  plan : result.2.plan = output.plan
  received : result.2.received.toList = (output.received.toList ++ bytes).take limit
  fits : output.received.size + bytes.length ≤ limit → result.1 = .ok ()
  exceeds : limit < output.received.size + bytes.length →
    ∃ text, result.1 = .error text ∧ output.plan.Refuses limit text

variable {output : Output} {limit : Nat}

theorem cuts_nil (begun : output.received.size ≤ limit) :
    output.Cuts limit [] (.ok (), output) where
  plan := rfl
  received := by rw [List.append_nil, List.take_of_length_le begun]
  fits _ := rfl
  exceeds more := absurd begun (Nat.not_le_of_lt more)

theorem cuts_full {bytes : List UInt8} {text : String} {next : Output}
    (full : output.received.size = limit) (some : bytes ≠ []) (plan : next.plan = output.plan)
    (same : next.received.toList = output.received.toList)
    (refuses : output.plan.Refuses limit text) :
    output.Cuts limit bytes (.error text, next) where
  plan := plan
  received := by
    rw [same, List.take_append_of_le_length (Nat.le_of_eq full.symm),
      List.take_of_length_le (Nat.le_of_eq full)]
  fits within := by
    have := List.length_pos_iff.mpr some
    omega
  exceeds _ := ⟨text, rfl, refuses⟩

/-- One after the other, the second of which there is none if the first fails. -/
theorem Cuts.trans {front back : List UInt8} {answer : Except String Unit} {next : Output}
    {result : Except String Unit × Output} (first : output.Cuts limit front (answer, next))
    (failed : ∀ text, answer = .error text → result = (.error text, next))
    (passed : output.received.size + front.length ≤ limit → next.Cuts limit back result) :
    output.Cuts limit (front ++ back) result := by
  have total : (output.received.toList ++ front).length = output.received.size + front.length :=
    List.length_append
  by_cases within : output.received.size + front.length ≤ limit
  · have second := passed within
    have received := first.received
    dsimp only at received
    rw [List.take_of_length_le (by omega)] at received
    have size : next.received.size = output.received.size + front.length := by
      rw [← total, ← received]
      rfl
    constructor
    · exact second.plan.trans first.plan
    · rw [second.received, received, List.append_assoc]
    · intro fits
      rw [List.length_append] at fits
      exact second.fits (by omega)
    · intro exceeds
      rw [List.length_append] at exceeds
      rw [← first.plan]
      exact second.exceeds (by omega)
  · obtain ⟨text, rfl, refuses⟩ := first.exceeds (Nat.lt_of_not_le within)
    obtain rfl := failed text rfl
    refine ⟨first.plan, ?_, fun fits => ?_, fun _ => ⟨text, rfl, refuses⟩⟩
    · rw [first.received, ← List.append_assoc]
      exact (List.take_append_of_le_length (total ▸ Nat.le_of_not_le within)).symm
    · rw [List.length_append] at fits
      omega

theorem Plan.Limits.write {bytes : List UInt8} (limits : output.plan.Limits limit)
    (begun : output.received.size < limit) (some : bytes ≠ []) :
    ∃ count next, output.write bytes = (.ok (count + 1), next) ∧ next.plan = output.plan ∧
      next.received.toList = output.received.toList ++ bytes.take (count + 1) ∧
      next.received.size ≤ limit := by
  have positive := List.length_pos_iff.mpr some
  obtain ⟨atMost, progress, within, beat⟩ :=
    limits.accepts output.call output.received.size bytes.length positive begun
  obtain ⟨count, least⟩ : ∃ count, min atMost bytes.length = count + 1 :=
    ⟨min atMost bytes.length - 1, by omega⟩
  have received := output.received_write bytes
  simp only [Output.write] at received ⊢
  rw [beat] at received ⊢
  dsimp only at received ⊢
  rw [least] at received ⊢
  refine ⟨count, _, rfl, rfl, received, ?_⟩
  rw [← Array.length_toList, received, List.length_append, List.length_take, Array.length_toList]
  omega

theorem Plan.Limits.write_full {bytes : List UInt8} (limits : output.plan.Limits limit)
    (full : output.received.size = limit) (some : bytes ≠ []) :
    ∃ text next, output.plan.Refuses limit text ∧ next.plan = output.plan ∧
      next.received.toList = output.received.toList ∧
      (output.write bytes = (.error text, next) ∨
        output.write bytes = (.ok 0, next) ∧ text = "failed to write whole buffer") := by
  have positive := List.length_pos_iff.mpr some
  obtain ⟨text, refusal⟩ := limits.refuses output.call bytes.length positive
  refine ⟨text, { output with call := output.call + 1 }, ⟨_, _, positive, refusal⟩, rfl, rfl, ?_⟩
  simp only [Output.write, full]
  cases beat : output.plan.beat output.call limit bytes.length with
  | fail other =>
    rw [beat] at refusal
    cases refusal
    exact .inl rfl
  | accept atMost =>
    rw [beat] at refusal
    cases atMost with
    | zero =>
      cases refusal
      dsimp only
      rw [Nat.zero_min]
      exact .inr ⟨rfl, rfl⟩
    | succ => cases refusal

theorem Plan.Limits.writeAll (limits : output.plan.Limits limit)
    (begun : output.received.size ≤ limit) (bytes : List UInt8) :
    output.Cuts limit bytes (output.writeAll bytes) := by
  -- Where no call can go well, there is no room left.
  have full {output : Output} {bytes : List UInt8} (limits : output.plan.Limits limit)
      (begun : output.received.size ≤ limit) (some : bytes ≠ [])
      (stuck : ∀ count next, output.write bytes ≠ (.ok (count + 1), next)) :
      output.received.size = limit := by
    by_contra room
    obtain ⟨count, next, wrote, _⟩ := limits.write (by omega) some
    exact stuck count next wrote
  fun_induction Output.writeAll output bytes with
  | case1 output => exact cuts_nil begun
  | case2 output bytes more text next refused =>
    have room := full limits begun more fun count next wrote => by cases refused.symm.trans wrote
    obtain ⟨_, _, refuses, plan, same, failed | ⟨failed, _⟩⟩ := limits.write_full room more
    · cases refused.symm.trans failed
      exact cuts_full room more plan same refuses
    · cases refused.symm.trans failed
  | case3 output bytes more next stuck =>
    have room := full limits begun more fun count next wrote => by cases stuck.symm.trans wrote
    obtain ⟨_, _, refuses, plan, same, failed | ⟨failed, rfl⟩⟩ := limits.write_full room more
    · cases stuck.symm.trans failed
    · cases stuck.symm.trans failed
      exact cuts_full room more plan same refuses
  | case4 output bytes more count next took ih =>
    have room : output.received.size < limit := by
      by_contra none
      obtain ⟨_, _, _, _, _, failed | ⟨failed, _⟩⟩ := limits.write_full (by omega) more
      · cases took.symm.trans failed
      · cases took.symm.trans failed
    obtain ⟨_, _, wrote, plan, received, within⟩ := limits.write room more
    cases took.symm.trans wrote
    have first : output.Cuts limit (bytes.take (count + 1)) (.ok (), next) := {
      plan := plan
      received := by rw [← received, List.take_of_length_le within]
      fits := fun _ => rfl
      exceeds := fun more => by
        have size := congrArg List.length received
        rw [List.length_append, Array.length_toList, Array.length_toList] at size
        omega }
    have both := first.trans (fun _ failed => by cases failed) fun _ => ih (plan ▸ limits) within
    rwa [List.take_append_drop] at both

theorem Plan.Limits.perform (limits : output.plan.Limits limit)
    (begun : output.received.size ≤ limit) (requests : List Request) :
    output.Cuts limit (requests.flatMap Request.bytes) (output.perform requests) := by
  induction requests generalizing output with
  | nil => exact cuts_nil begun
  | cons request requests ih =>
    have first : output.Cuts limit request.bytes (output.answer request) := by
      cases request with
      | write bytes => exact limits.writeAll begun bytes
      | flush =>
        have none := cuts_nil begun
        simp only [answer, flush, limits.flushes]
        exact ⟨rfl, none.received, none.fits, none.exceeds⟩
    rw [List.flatMap_cons, Output.perform]
    generalize output.answer request = result at first
    obtain ⟨answer, next⟩ := result
    have within : next.received.size ≤ limit := by
      rw [← Array.length_toList, first.received]
      exact List.length_take_le _ _
    refine first.trans (fun text failed => by rw [failed]) fun fits => ?_
    obtain rfl : answer = .ok () := first.fits fits
    exact ih (first.plan ▸ limits) within

end Output

/-- The two streams are one, or they bring the same bytes, at any pace, and end in the same way. -/
def Input.Alike (input other : Input) : Prop :=
  other = input ∨
    ∃ closing, input.Delivers closing ∧ other.Delivers closing ∧ other.pending = input.pending

namespace Dump

theorem Course.of_alike {options : Options} {input other : Input}
    {stages : List (Stage (Unpacker Source))} {fault : Fault}
    (course : Course options (.start input) stages fault) (alike : input.Alike other) :
    ∃ others, Course options (.start other) others fault ∧
      texts options others = texts options stages := by
  rcases alike with rfl | ⟨closing, delivers, also, same⟩
  · exact ⟨stages, course, rfl⟩
  have short : inputCapacity < Position.modulus := by decide
  have traces := Unpacker.traces_ofInput also short .native
  rw [same] at traces
  have both : Stage.Tied (fun unpacker other => ∃ reading : Reading,
      unpacker.Traces reading ∧ other.Traces reading) (.start input) (.start other) :=
    ⟨rfl, _, Unpacker.traces_ofInput delivers short .native, traces⟩
  obtain ⟨others, arrives, pairs⟩ := course.along Unpacker.alike_both both
  exact ⟨others, arrives, texts_tied Unpacker.alike_both pairs options⟩

/-- Truncation. An output that the dump does not fit into has received as much of its front as
there was room for, and the failure is what is answered. One that it fits into is left with all
of it, and the answer is as without a limit. Neither the pieces that an output accepts nor the
pace of the input make a difference. -/
theorem dump_truncates (input : Input) (options : Options) {output : Output}
    (accepts : output.Accepts) :
    let whole := dump input output options
    ∀ other, input.Alike other → ∀ own : Output, own.received = output.received →
      let dumped := dump other own options
      (own.Accepts → dumped.1 = whole.1 ∧ dumped.2.received = whole.2.received) ∧
      ∀ limit, own.plan.Limits limit → own.received.size ≤ limit →
        (whole.2.received.size ≤ limit →
          dumped.1 = whole.1 ∧ dumped.2.received = whole.2.received) ∧
        (limit < whole.2.received.size →
          (∃ text, dumped.1 = .error text ∧ own.plan.Refuses limit text) ∧
            dumped.2.received.toList = whole.2.received.toList.take limit) := by
  intro whole other alike own same dumped
  obtain ⟨fault, course⟩ := course_dump input accepts options
  obtain ⟨others, also, written⟩ := course.of_alike alike
  obtain ⟨code, text⟩ := dump_of_accepts accepts course
  refine ⟨fun accepting => ?_, fun limit limits begun => ?_⟩
  · obtain ⟨answer, received⟩ := dump_of_accepts accepting also
    rw [written, same, ← text] at received
    exact ⟨answer.trans code.symm, Array.toList_inj.mp received⟩
  have cuts := limits.perform begun (requests options others fault)
  have size : whole.2.received.size = own.received.size +
      ((requests options others fault).flatMap Output.Request.bytes).length := by
    rw [← Array.length_toList, text, List.length_append, bytes_requests, written, same]
    rfl
  have received := cuts.received
  rw [bytes_requests, written, same, ← text] at received
  have made := dump_of_course also own
  generalize own.perform (requests options others fault) = result at cuts received made
  obtain ⟨answer, after⟩ := result
  refine ⟨fun fits => ?_, fun exceeds => ?_⟩
  · obtain rfl : answer = .ok () := cuts.fits (size ▸ fits)
    rw [List.take_of_length_le fits] at received
    rw [show dumped = _ from made]
    exact ⟨code.symm, Array.toList_inj.mp received⟩
  · obtain ⟨failure, refused, refuses⟩ := cuts.exceeds (size ▸ exceeds)
    obtain rfl : answer = .error failure := refused
    rw [show dumped = _ from made]
    exact ⟨⟨failure, rfl, refuses⟩, received⟩

/-- Five bytes that come one by one, and a dump of them into room for ten. -/
theorem dump_truncates_bytewise :
    let bytes : List UInt8 := [0x93, 0x01, 0xc3, 0xa1, 0x6e]
    let input := Input.ofBytes bytes (.paced (fun _ => 5) false none)
    let other := Input.ofBytes bytes (.paced (fun _ => 1) true none)
    let output := Output.ofPlan ⟨fun _ _ offered => .accept offered, fun _ => none⟩
    let own := Output.ofPlan (.bounded (some 3) (some 10) (.accept 0) none)
    (output.Accepts ∧ input.Alike other ∧ own.plan.Limits 10) ∧
      (dump input output ⟨2, false⟩).2.received.toList = asciiString
        "\n     0  [\n     1    1\n     2    true\n     3    \"n\"\n     5  ]\n     5  \n" ∧
      (dump other own ⟨2, false⟩).1 = .error "failed to write whole buffer" ∧
      (dump other own ⟨2, false⟩).2.received.toList = asciiString "\n     0  [" := by
  intro bytes input other output own
  have accepts : output.Accepts := ⟨fun _ _ offered some => ⟨offered, some, rfl⟩, fun _ => rfl⟩
  have delivers : input.Delivers .endOfInput :=
    Input.delivers_paced bytes (fun _ => by decide) false
  have alike : input.Alike other := .inr ⟨.endOfInput, delivers,
    Input.delivers_paced bytes (fun _ => Nat.one_pos) true, rfl⟩
  have limits : own.plan.Limits 10 := Output.Plan.limits_bounded (by decide) 10 rfl
  have printed : printout? ⟨2, false⟩ input.pending .endOfInput 9 = some ⟨.endOfInput, asciiString
      "\n     0  [\n     1    1\n     2    true\n     3    \"n\"\n     5  ]\n     5  \n",
      [0, 5], []⟩ := by cbv
  have text := (dump_of_printout printed delivers accepts).2.1
  have long : 10 < (dump input output ⟨2, false⟩).2.received.size := by
    rw [← Array.length_toList, text]
    decide
  obtain ⟨⟨failure, failed, refuses⟩, front⟩ := ((dump_truncates input ⟨2, false⟩ accepts other
    alike own rfl).2 10 limits (by decide)).2 long
  obtain ⟨_, offered, some, refusal⟩ := refuses
  cases refusal
  rw [text] at front
  exact ⟨⟨accepts, alike, limits⟩, text, failed, front⟩

end Dump
end MessagePack
