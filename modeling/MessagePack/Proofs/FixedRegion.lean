import MessagePack.Proofs.PayloadPieces

/-! A region of fixed size beside memory that grows. Calls that only write leave the same bytes in
both, as long as these fit. The first call past the end is refused whole, and so is all that comes
after it. What lies behind the cursor is nobody's: no call touches it. -/
namespace MessagePack

theorem Region.drop_toList (region : Region) (low : Nat) :
    region.toList.drop low = region.slice low region.size := by
  rw [slice_eq, List.take_of_length_le (by simp)]

/-! ### Behind the cursor -/

namespace Outgoing

/-- The cursor has not gone back, and no byte behind it is another. -/
structure Advances (before after : Outgoing) : Prop where
  current : before.current ≤ after.current
  beyond : after.region.toList.drop after.current = before.region.toList.drop after.current

namespace Advances

theorem refl (buffer : Outgoing) : buffer.Advances buffer := ⟨Nat.le_refl _, rfl⟩

theorem trans {before between after : Outgoing} (first : before.Advances between)
    (second : between.Advances after) : before.Advances after where
  current := Nat.le_trans first.current second.current
  beyond := by
    obtain ⟨more, gap⟩ := Nat.exists_eq_add_of_le second.current
    have same := congrArg (List.drop more) first.beyond
    simp only [List.drop_drop, ← gap] at same
    exact second.beyond.trans same

theorem overwrite {buffer : Outgoing} {position current : Nat} {bytes : List UInt8}
    (forward : buffer.current ≤ current) (before : position + bytes.length ≤ current)
    (inside : current ≤ buffer.stop) :
    buffer.Advances
      { buffer with region := buffer.region.overwrite position bytes, current := current } where
  current := forward
  beyond := by
    have room : position + bytes.length ≤ buffer.region.size := Nat.le_trans before inside
    simp only [Region.drop_toList, Region.size_overwrite]
    exact Region.slice_overwrite_after room before

end Advances

namespace Sound

variable {buffer : Outgoing} (sound : buffer.Sound)
include sound

theorem advances_append {bytes : List UInt8} (room : bytes.length ≤ buffer.remaining) :
    buffer.Advances (buffer.append bytes) := by
  have current_le := sound.current_le
  have inside : buffer.current + bytes.length ≤ buffer.stop := by
    unfold remaining at room
    omega
  exact .overwrite (Nat.le_add_right _ _) (Nat.le_refl _) inside

theorem advances_patch? (position : Nat) (bytes : List UInt8) :
    buffer.Advances ((buffer.patch? position bytes).getD buffer) := by
  have bound : buffer.barrier.getD buffer.current ≤ buffer.current := by
    cases set : buffer.barrier with
    | none => exact Nat.le_refl _
    | some barrier => exact (sound.barrier_bounds barrier set).2
  simp only [Outgoing.patch?]
  split
  · exact .overwrite (Nat.le_refl _) (by omega) sound.current_le
  · exact .refl buffer

end Sound
end Outgoing

/-! ### Writing until the end -/

namespace Packer

/-- Values and bytes, in front of nothing but what has been packed before them. -/
def Call.Fills : Call → Prop
  | .pack _ | .insert _ => True
  | _ => False

instance (call : Call) : Decidable call.Fills :=
  match call with
  | .pack _ | .insert _ => inferInstanceAs (Decidable True)
  | .flush | .setCompatible _ | .setBarrier | .clearBarrier | .patch _ _ =>
    inferInstanceAs (Decidable False)

theorem Call.Writes.fills {call : Call} {dialect : Dialect} (writes : call.Writes dialect) :
    call.Fills := by
  cases call with
  | pack | insert => trivial
  | flush | setCompatible | setBarrier | clearBarrier | patch => exact writes.elim

end Packer

namespace Draft

theorem writes_of_call {draft : Draft} {call : Packer.Call} (fills : call.Fills)
    (taken : (draft.call call).1 = .ok ()) :
    call.Writes draft.dialect ∧ (draft.call call).2.dialect = draft.dialect := by
  have attempt {answer : Except Fault (List UInt8)} (taken : (draft.attempt answer).1 = .ok ()) :
      (∃ bytes, answer = .ok bytes) ∧ (draft.attempt answer).2.dialect = draft.dialect := by
    simp only [Draft.attempt] at taken ⊢
    split at taken
    · cases taken
    · cases answer with
      | error fault => cases taken
      | ok bytes => exact ⟨⟨bytes, rfl⟩, rfl⟩
  cases call with
  | pack value =>
    obtain ⟨⟨bytes, encoded⟩, speaks⟩ := attempt taken
    refine ⟨?_, speaks⟩
    simp only [Packer.Call.Writes, Value.bytes, encoded]
  | insert bytes => exact ⟨trivial, (attempt taken).2⟩
  | flush | setCompatible | setBarrier | clearBarrier | patch => exact fills.elim

theorem writes_of_run {calls : List Packer.Call} {draft : Draft}
    (fills : ∀ call ∈ calls, call.Fills)
    (taken : ∀ answer ∈ (draft.run calls).1, answer = .ok ()) :
    ∀ call ∈ calls, call.Writes draft.dialect := by
  induction calls generalizing draft with
  | nil => simp
  | cons call calls ih =>
    simp only [run, List.forall_mem_cons] at fills taken ⊢
    obtain ⟨writes, speaks⟩ := writes_of_call fills.1 taken.1
    refine ⟨writes, ?_⟩
    rw [← speaks]
    exact ih fills.2 taken.2

end Draft

namespace Packer

section

variable [Outlet σ]

theorem answers_append (packer : Packer σ) (front back : List Call) :
    (packer.run (front ++ back)).1 =
      (packer.run front).1 ++ ((packer.run front).2.run back).1 := by
  induction front generalizing packer with
  | nil => rfl
  | cons call front ih => simp only [List.cons_append, run, ih]

theorem call_of_fault {packer : Packer σ} {call : Call} {fault : Fault} (fills : call.Fills)
    (standing : packer.fault = some fault) : packer.call call = (.error fault, packer) := by
  cases call with
  | pack | insert => simp only [Packer.call, pack, insert, attempt_of_fault standing]
  | flush | setCompatible | setBarrier | clearBarrier | patch => exact fills.elim

theorem clean_of_taken {packer : Packer σ} {calls : List Call} (some : calls ≠ [])
    (fills : ∀ call ∈ calls, call.Fills)
    (taken : ∀ answer ∈ (packer.run calls).1, answer = .ok ()) : packer.fault = none := by
  obtain ⟨first, rest, rfl⟩ := List.exists_cons_of_ne_nil some
  cases standing : packer.fault with
  | none => rfl
  | some fault =>
    simp only [run, List.forall_mem_cons] at fills taken
    rw [call_of_fault fills.1 standing] at taken
    cases taken.1

theorem clean_of_answers {packer : Packer σ} {calls : List Call} (clean : packer.fault = none)
    (taken : ∀ answer ∈ (packer.run calls).1, answer = .ok ()) :
    (packer.run calls).2.fault = none := by
  have none (answers : List Status) (taken : ∀ answer ∈ answers, answer = .ok ()) :
      firstFault answers = .ok () := by
    induction answers with
    | nil => rfl
    | cons answer answers ih =>
      simp only [List.forall_mem_cons] at taken
      rw [taken.1]
      exact ih taken.2
  have status := packer.status_run calls
  rw [none _ taken] at status
  simp only [Packer.status, clean] at status
  cases ended : (packer.run calls).2.fault with
  | none => rfl
  | some fault =>
    rw [ended] at status
    cases status

end

theorem writes_of_growable {capacity ceiling : Nat} {dialect : Dialect} {calls : List Call}
    (clean : (growable capacity dialect).fault = none) (fills : ∀ call ∈ calls, call.Fills)
    (taken : ∀ answer ∈ (((growable capacity dialect).withCeiling ceiling).run calls).1,
      answer = .ok ()) :
    (∀ call ∈ calls, call.Writes dialect) ∧
      (((growable capacity dialect).withCeiling ceiling).run calls).2.buffer.packed =
        calls.flatMap (·.bytes dialect) := by
  have able : .flush ∈ calls → ∀ handler : Growable, Outlet.canFlush handler = true :=
    fun member => (fills _ member).elim
  rcases (holds_growable capacity ceiling dialect).run calls able with
    ⟨answers, holds⟩ | ⟨failed, _⟩
  · rw [answers] at taken
    have writes := Draft.writes_of_run fills taken
    refine ⟨writes, ?_⟩
    have text := holds.packed_eq
    rwa [Draft.run_writes writes clean rfl] at text
  · have begun : ((growable capacity dialect).withCeiling ceiling).fault = none := clean
    cases (clean_of_answers begun taken).symm.trans failed

section

variable {packer : Packer Fixed}

/-- The call that runs past the end is refused and leaves the buffer as it is, and so is every call
that comes later. -/
theorem refused_fixed {front : List Call} {call : Call} (sound : packer.buffer.Sound)
    (clean : packer.fault = none)
    (writes : ∀ other ∈ front ++ [call], other.Writes packer.dialect)
    (short : packer.buffer.remaining <
      ((front ++ [call]).flatMap (·.bytes packer.dialect)).length) :
    let region := (packer.run front).2
    (region.call call).1 = .error .bufferOverflow ∧
      (region.call call).2.buffer = region.buffer := by
  induction front generalizing packer with
  | nil =>
    have first := call_fixed clean (writes call (by simp))
    simp only [List.nil_append, List.flatMap_singleton] at short
    rw [if_neg (Nat.not_le_of_lt short)] at first
    simp only [run, first, true_and]
  | cons first front ih =>
    rw [List.cons_append] at writes
    obtain ⟨own, others⟩ := List.forall_mem_cons.mp writes
    simp only [List.cons_append, List.flatMap_cons, List.length_append] at short
    have made := call_fixed clean own
    split at made
    · rename_i room
      let next := { packer with buffer := packer.buffer.append (first.bytes packer.dialect) }
      have sound : next.buffer.Sound := sound.append room
      have short : next.buffer.remaining <
          ((front ++ [call]).flatMap (·.bytes next.dialect)).length := by
        simp only [next, Outgoing.remaining_append]
        omega
      simp only [run, made]
      exact ih sound clean others short
    · simp only [run, made]
      have fills : call.Fills := (others call (by simp)).fills
      rw [call_of_fault fills (fault_run rfl front)]
      exact ⟨rfl, rfl⟩

/-- What lies behind the cursor is left alone by a call, -/
theorem advances_call (sound : packer.buffer.Sound) (call : Call) :
    packer.buffer.Advances (packer.call call).2.buffer := by
  have attempt {body : Packer Fixed → Status × Packer Fixed}
      (advances : packer.buffer.Advances (body packer).2.buffer) :
      packer.buffer.Advances (packer.attempt body).2.buffer := by
    unfold Packer.attempt
    split
    · exact .refl _
    · split <;> rename_i made <;> rw [made] at advances <;> exact advances
  have emit (bytes : List UInt8) : packer.buffer.Advances (packer.emit bytes).2.buffer := by
    by_cases room : bytes.length ≤ packer.buffer.remaining
    · rw [emit_of_room room]
      exact sound.advances_append room
    · rw [emit_of_short (Nat.lt_of_not_le room)]
      exact .refl _
  cases call with
  | pack value =>
    change packer.buffer.Advances (packer.pack value).2.buffer
    rw [pack_eq]
    apply attempt
    split
    · exact .refl _
    · exact emit _
  | insert bytes => exact attempt (emit bytes)
  | flush => exact attempt (.refl _)
  | setCompatible | setBarrier | clearBarrier => exact ⟨Nat.le_refl _, rfl⟩
  | patch position bytes => exact sound.advances_patch? position bytes

theorem advances_run (sound : packer.buffer.Sound) (calls : List Call) :
    packer.buffer.Advances (packer.run calls).2.buffer := by
  induction calls generalizing packer with
  | nil => exact .refl _
  | cons call calls ih =>
    exact (advances_call sound call).trans (ih (sound_fixed sound [call]))

end

/-- A hard edge. Where memory that grows takes values and bytes one after another, a region of
fixed size takes them as long as all their bytes so far fit, and holds the same. It refuses the
first call past that, and any after it, with its buffer as it was before. No call at all touches
what lies behind the cursor. -/
theorem hard_edge (size capacity ceiling : Nat) (dialect : Dialect) :
    (∀ front call back,
      let memory := (growable capacity dialect).withCeiling ceiling
      let region := ((fixed size dialect).run front).2
      let calls := front ++ [call]
      let text := calls.flatMap (·.bytes dialect)
      (∀ call ∈ calls ++ back, call.Fills) →
      (∀ answer ∈ (memory.run (calls ++ back)).1, answer = .ok ()) →
      ((region.call call).1 = .ok () ↔ text.length ≤ size) ∧
      (text.length ≤ size →
        (region.call call).2.buffer.packed = text ∧
          (memory.run calls).2.buffer.packed = text) ∧
      (size < text.length →
        (region.call call).1 = .error .bufferOverflow ∧
          (region.call call).2.buffer = region.buffer)) ∧
    ∀ front back,
      let region := ((fixed size dialect).run front).2
      region.buffer.Advances (region.run back).2.buffer := by
  constructor
  · intro front call back memory region calls text fills taken
    have fills : ∀ call ∈ calls, call.Fills :=
      fun call member => fills call (List.mem_append_left back member)
    have taken : ∀ answer ∈ (memory.run calls).1, answer = .ok () := by
      rw [answers_append] at taken
      exact fun answer member => taken answer (List.mem_append_left _ member)
    have clean : (fixed size dialect).fault = none :=
      show memory.fault = none from clean_of_taken (by simp [calls]) fills taken
    obtain ⟨writes, packed⟩ := writes_of_growable clean fills taken
    have sound : (fixed size dialect).buffer.Sound := .ofSize size
    have room : (fixed size dialect).buffer.remaining = size := Array.size_replicate
    by_cases fits : text.length ≤ size
    · have outcome : if text.length ≤ (fixed size dialect).buffer.remaining then
          Packer.Adds (·.buffer.packed) (fixed size dialect) calls text else _ :=
        adds_fixed sound clean writes
      rw [room, if_pos fits] at outcome
      obtain ⟨answers, _, adds⟩ := outcome
      have blank : (fixed size dialect).buffer.packed = [] := Region.slice_self _ 0
      have answer : (region.call call).1 = .ok () := by
        have all : ∀ answer ∈ ((fixed size dialect).run calls).1, answer = .ok () := by
          simp [answers]
        exact all _ (by simp [calls, answers_append, run, region])
      refine ⟨⟨fun _ => fits, fun _ => answer⟩, fun _ => ⟨?_, packed⟩, fun short => ?_⟩
      · simpa [calls, run_append, run, blank] using adds
      · exact absurd fits (Nat.not_le_of_lt short)
    · have short : (fixed size dialect).buffer.remaining < text.length := by omega
      obtain ⟨answer, same⟩ := refused_fixed sound clean writes short
      refine ⟨⟨fun done => ?_, fun fits' => absurd fits' fits⟩, fun fits' => absurd fits' fits,
        fun _ => ⟨answer, same⟩⟩
      cases answer.symm.trans done
  · intro front back region
    exact advances_run (sound_fixed (.ofSize size) front) back

/-- Three bytes and then two for a region of four, where memory of two grows. -/
theorem hard_edge_four :
    let dialect : Dialect := ⟨false, .portable⟩
    let memory := (growable 2 dialect).withCeiling 16
    let region := ((fixed 4 dialect).run [.pack (.unsigned 300)]).2
    let calls : List Call := [.pack (.unsigned 300), .pack (.str [0x61])]
    (∀ call ∈ calls, call.Fills) ∧ (∀ answer ∈ (memory.run calls).1, answer = .ok ()) ∧
      region.buffer.packed = [0xcd, 0x01, 0x2c] ∧
      (region.call (.pack (.str [0x61]))).1 = .error .bufferOverflow ∧
      (region.call (.pack (.str [0x61]))).2.buffer = region.buffer ∧
      (region.call (.insert [0xc0])).2.buffer.packed = [0xcd, 0x01, 0x2c, 0xc0] := by
  intro dialect memory region calls
  have fills : ∀ call ∈ calls, call.Fills := by decide
  have answers : (memory.run calls).1 = [.ok (), .ok ()] := by cbv
  have taken : ∀ answer ∈ (memory.run calls).1, answer = .ok () := by simp [answers]
  have edge := (hard_edge 4 2 16 dialect).1 [.pack (.unsigned 300)] (.pack (.str [0x61])) []
    fills taken
  obtain ⟨answer, same⟩ := edge.2.2 (by decide)
  exact ⟨fills, taken, by decide, answer, same, by decide⟩

end Packer
end MessagePack
