import MessagePack.Proofs.CallInvariants
import MessagePack.Proofs.PackingCalls

/-! The first fault is the last thing that happens. The status is that of the byte order until
a call answers a fault, and is that fault from then on. Whatever is asked for then is refused
with it and leaves all as it is: the buffer, and the handler too, though it be one that counts
how often it is called. -/
namespace MessagePack

def firstFault : List (Except Fault α) → Status
  | [] => .ok ()
  | .ok _ :: answers => firstFault answers
  | .error fault :: _ => .error fault

def ByteOrder.status (order : ByteOrder) : Status := order.verify.mapError BytesFault.toFault

/-! ### Packing -/

namespace Packer

theorem status_new (buffer : Outgoing) (handler : σ) (dialect : Dialect) :
    (new buffer handler dialect).status = dialect.order.status := by
  simp only [status, new, ByteOrder.status]
  cases dialect.order.verify <;> rfl

/-- Nothing has changed but what a handler has a hand in. -/
structure Spares (before after : Packer σ) : Prop where
  dialect : after.dialect = before.dialect
  fault : after.fault = before.fault

theorem Spares.refl (packer : Packer σ) : packer.Spares packer := ⟨rfl, rfl⟩

theorem Spares.trans {before between after : Packer σ} (first : before.Spares between)
    (second : between.Spares after) : before.Spares after :=
  ⟨second.dialect.trans first.dialect, second.fault.trans first.fault⟩

theorem spares_settle (packer : Packer σ) (reply : Outlet.Reply σ) :
    packer.Spares (packer.settle reply).2 := ⟨rfl, rfl⟩

variable [Outlet σ]

theorem spares_reserve (packer : Packer σ) (needed : Nat) :
    packer.Spares (packer.reserve needed).2 := by
  have settled := packer.spares_settle (Outlet.makeRoom packer.handler packer.buffer needed)
  unfold reserve
  split
  · exact .refl packer
  · split <;> rename_i made <;> rw [made] at settled
    · exact settled
    · split <;> exact settled

theorem spares_emit (packer : Packer σ) (bytes : List UInt8) :
    packer.Spares (packer.emit bytes).2 := by
  have made := packer.spares_reserve bytes.length
  rw [emit_eq]
  split <;> rename_i reserved <;> rw [reserved] at made
  · exact made
  · exact ⟨made.dialect, made.fault⟩

/-- A call that can fail is attempted; one that cannot leaves the fault and the order alone. -/
theorem call_cases (call : Call) (packer : Packer σ) :
    (∃ body, packer.Spares (body packer).2 ∧ packer.call call = packer.attempt body) ∨
    (packer.call call).1 = .ok () ∧ (packer.call call).2.fault = packer.fault ∧
      (packer.call call).2.dialect.order = packer.dialect.order := by
  cases call with
  | pack value =>
    rw [Packer.call, pack_eq]
    refine .inl ⟨_, ?_, rfl⟩
    split
    · exact .refl packer
    · exact packer.spares_emit _
  | insert bytes =>
    unfold Packer.call Packer.insert
    refine .inl ⟨_, ?_, rfl⟩
    have flushed := packer.spares_settle (Outlet.flush packer.handler packer.buffer)
    split
    · split <;> rename_i made <;> rw [made] at flushed
      · exact flushed
      · exact flushed.trans (spares_settle _ _)
    · exact packer.spares_emit _
  | flush =>
    unfold Packer.call Packer.flush
    refine .inl ⟨_, ?_, rfl⟩
    split
    · exact packer.spares_settle _
    · exact .refl packer
  | _ => exact .inr ⟨rfl, rfl, rfl⟩

/-- Whoever has this fault does nothing but answer it. -/
structure Refuses (fault : Fault) (packer : Packer σ) : Prop where
  pack : ∀ value, packer.pack value = (.error fault, packer)
  insert : ∀ bytes, packer.insert bytes = (.error fault, packer)
  flush : packer.flush = (.error fault, packer)

omit [Outlet σ] in
theorem status_attempt (packer : Packer σ) {body : Packer σ → Status × Packer σ}
    (spares : packer.Spares (body packer).2) :
    (packer.attempt body).2.status = (do packer.status; (packer.attempt body).1) := by
  have kept := spares.fault
  unfold attempt
  cases clean : packer.fault with
  | some fault =>
    simp only [status, clean]
    rfl
  | none =>
    rw [clean] at kept
    generalize body packer = result at kept ⊢
    obtain ⟨answer, after⟩ := result
    dsimp only at kept
    cases answer <;> simp only [status, clean, kept] <;> rfl

theorem status_call (call : Call) (packer : Packer σ) :
    (packer.call call).2.status = (do packer.status; (packer.call call).1) := by
  obtain ⟨body, spares, same⟩ | ⟨answer, fault, _⟩ := packer.call_cases call
  · rw [same]
    exact packer.status_attempt spares
  · rw [answer]
    unfold status
    rw [fault]
    cases packer.fault <;> rfl

theorem status_run (calls : List Call) (packer : Packer σ) :
    (packer.run calls).2.status = (do packer.status; firstFault (packer.run calls).1) := by
  induction calls generalizing packer with
  | nil =>
    simp only [run, firstFault]
    cases packer.status <;> rfl
  | cons call calls ih =>
    simp only [run]
    rw [ih, packer.status_call]
    cases packer.status with
    | error fault => rfl
    | ok _ => cases (packer.call call).1 <;> rfl

end Packer

/-! ### Unpacking -/

namespace Unpacker

theorem status_new (buffer : Incoming) (handler : σ) (order : ByteOrder) :
    (new buffer handler order).status = order.status := by
  simp only [status, new, ByteOrder.status]
  cases order.verify <;> rfl

/-- Where an answer leads: a fault is kept unless one stands already, and there is no item at
hand once there is a fault. -/
structure Heeds (before : Unpacker σ) (answer : Except Fault α) (after : Unpacker σ) : Prop where
  status : after.status = (do before.status; discard answer)
  blank : (before.fault ≠ none → before.last = none) → after.fault ≠ none → after.last = none

theorem Heeds.map {before after : Unpacker σ} {answer : Except Fault α}
    (heeds : before.Heeds answer after) (f : α → β) : before.Heeds (answer.map f) after := by
  refine ⟨heeds.status.trans ?_, heeds.blank⟩
  cases answer <;> rfl

theorem Heeds.of_fault_eq {before after : Unpacker σ} (fault : after.fault = before.fault)
    (last : before.fault ≠ none → after.last = before.last) (value : α) :
    before.Heeds (.ok value : Except Fault α) after where
  status := by
    unfold Unpacker.status
    rw [fault]
    cases before.fault <;> rfl
  blank blank failed := by
    rw [fault] at failed
    rw [last failed, blank failed]

theorem Heeds.settle {before after : Unpacker σ} (clean : before.fault = none)
    (still : after.fault = none) (answer : Except Fault α) :
    before.Heeds (after.settle answer).1 (after.settle answer).2 := by
  cases answer with
  | ok value => exact .of_fault_eq (still.trans clean.symm) (absurd clean) value
  | error fault =>
    refine ⟨?_, fun _ _ => rfl⟩
    simp only [Unpacker.status, Unpacker.settle, clean, still]
    rfl

theorem Heeds.refuse {unpacker : Unpacker σ} {fault : Fault}
    (failed : unpacker.fault = some fault) :
    unpacker.Heeds (.error fault : Except Fault α) unpacker where
  status := by
    simp only [Unpacker.status, failed]
    rfl
  blank := id

theorem Heeds.attempt {unpacker : Unpacker σ} {call : Unpacker σ → Except Fault α × Unpacker σ}
    (kept : (call unpacker).2.fault = unpacker.fault) :
    unpacker.Heeds (unpacker.attempt call).1 (unpacker.attempt call).2 := by
  cases clean : unpacker.fault with
  | some fault =>
    rw [attempt_of_fault clean]
    exact .refuse clean
  | none =>
    rw [Unpacker.attempt, clean]
    exact .settle clean (kept.trans clean) _

theorem heeds_rescan (unpacker : Unpacker σ) :
    unpacker.Heeds unpacker.rescan.1 unpacker.rescan.2 := by
  refine .attempt ?_
  split <;> rfl

theorem heeds_currentExt (unpacker : Unpacker σ) (read : ByteOrder → List UInt8 → Except Fault α) :
    unpacker.Heeds (unpacker.currentExt read).1 (unpacker.currentExt read).2 := by
  refine .attempt ?_
  split <;> rfl

/-- Nothing has changed but what a handler has a hand in. -/
structure Spares (before after : Unpacker σ) : Prop where
  order : after.order = before.order
  fault : after.fault = before.fault
  last : after.last = before.last

theorem Spares.refl (unpacker : Unpacker σ) : unpacker.Spares unpacker := ⟨rfl, rfl, rfl⟩

theorem Spares.trans {before between after : Unpacker σ} (first : before.Spares between)
    (second : between.Spares after) : before.Spares after :=
  ⟨second.order.trans first.order, second.fault.trans first.fault, second.last.trans first.last⟩

variable [Inlet σ] (unpacker : Unpacker σ)

theorem spares_refill (needed : Nat) : unpacker.Spares (unpacker.refill needed).2 :=
  ⟨rfl, rfl, rfl⟩

theorem spares_demand (needed : Nat) (leading : Bool) :
    unpacker.Spares (unpacker.demand needed leading).2 := by
  have spares := unpacker.spares_refill needed
  unfold demand
  split
  · exact .refl unpacker
  · split <;> rename_i refilled <;> rw [refilled] at spares
    · split <;> exact spares
    · exact spares
    · exact spares

theorem spares_take (count : Nat) (leading : Bool) :
    unpacker.Spares (unpacker.take count leading).2 := by
  have spares := unpacker.spares_demand count leading
  unfold take
  split <;> rename_i made <;> rw [made] at spares
  · exact spares
  · exact ⟨spares.order, spares.fault, spares.last⟩

theorem spares_peek (count : Nat) : unpacker.Spares (unpacker.peek count).2 := by
  have spares := unpacker.spares_demand count true
  unfold peek
  split <;> rename_i made <;> rw [made] at spares <;> exact spares

theorem spares_perform (scan : Scan α) : unpacker.Spares (perform scan unpacker).2 := by
  induction scan generalizing unpacker with
  | done value => exact .refl unpacker
  | fail fault => exact .refl unpacker
  | take count leading next ih =>
    have spares := unpacker.spares_take count leading
    rw [perform]
    split <;> rename_i made <;> rw [made] at spares
    · exact spares
    · exact spares.trans (ih _ _)

theorem spares_skipPending (pending : Nat) :
    unpacker.Spares (unpacker.skipPending pending).2 := by
  fun_induction skipPending pending unpacker with
  | case1 unpacker => exact .refl unpacker
  | case2 unpacker pending fault after stepped =>
    have spares := unpacker.spares_perform (Extent.scan unpacker.order)
    rwa [stepped] at spares
  | case3 unpacker pending items after stepped _ ih =>
    have spares := unpacker.spares_perform (Extent.scan unpacker.order)
    rw [stepped] at spares
    exact spares.trans ih
  | case4 unpacker pending items after stepped _ =>
    have spares := unpacker.spares_perform (Extent.scan unpacker.order)
    rwa [stepped] at spares

theorem spares_lookAhead : unpacker.Spares unpacker.lookAhead.2 := by
  unfold lookAhead
  split
  · exact .refl unpacker
  have spares := unpacker.spares_peek 1
  split <;> rename_i made <;> rw [made] at spares
  · exact spares
  split
  · exact spares
  all_goals
    rename_i after _ count _
    have again := after.spares_peek count
    split <;> rename_i made <;> rw [made] at again <;> exact spares.trans again

theorem fault_readPayload (header : Header) :
    (unpacker.readPayload header).2.fault = unpacker.fault := by
  unfold readPayload
  split
  · rfl
  · rename_i length _
    have kept := (unpacker.spares_take length false).fault
    split <;> rename_i made <;> rw [made] at kept <;> exact kept

theorem heeds_next : unpacker.Heeds unpacker.next.1 unpacker.next.2 := by
  refine .attempt ?_
  have kept := (spares_perform { unpacker with last := none } (Header.scan unpacker.order)).fault
  split <;> rename_i made <;> rw [made] at kept
  · exact kept
  · exact (fault_readPayload _ _).trans kept

theorem heeds_nextHeader : unpacker.Heeds unpacker.nextHeader.1 unpacker.nextHeader.2 := by
  refine .attempt ?_
  have kept := (spares_perform { unpacker with last := none } (Header.scan unpacker.order)).fault
  split <;> rename_i made <;> rw [made] at kept <;> exact kept

theorem heeds_skip (count : UInt64) :
    unpacker.Heeds (unpacker.skip count).1 (unpacker.skip count).2 :=
  .attempt (spares_skipPending { unpacker with last := none } count.toNat).fault

theorem heeds_nextAs (view : Item → Except Fault α) :
    unpacker.Heeds (unpacker.nextAs view).1 (unpacker.nextAs view).2 := by
  have heeds := unpacker.heeds_next
  unfold nextAs
  split <;> rename_i item after read <;> rw [read] at heeds
  · exact ⟨heeds.status, heeds.blank⟩
  · obtain ⟨clean, still⟩ : unpacker.fault = none ∧ after.fault = none := by
      have same := heeds.status
      cases clean : unpacker.fault with
      | some fault => cases (attempt_of_fault clean _).symm.trans read
      | none =>
        cases still : after.fault with
        | none => exact ⟨rfl, rfl⟩
        | some fault =>
          simp only [status, clean, still] at same
          cases same
    exact .settle clean still _

theorem heeds_lookAhead : unpacker.Heeds (.ok unpacker.lookAhead.1) unpacker.lookAhead.2 :=
  .of_fault_eq unpacker.spares_lookAhead.fault (fun _ => unpacker.spares_lookAhead.last) _

def reply (request : Request) : Except Fault Answer × Unpacker σ :=
  match request with
  | .call call => unpacker.call call
  | .extInteger => unpacker.extInteger.map (·.map .integer) id
  | .extFloat => unpacker.extFloat.map (·.map .float) id
  | .extDouble => unpacker.extDouble.map (·.map .double) id

def replies : List Request → Unpacker σ → List (Except Fault Answer) × Unpacker σ
  | [], unpacker => ([], unpacker)
  | request :: requests, unpacker =>
    let (answer, unpacker) := unpacker.reply request
    let (answers, unpacker) := unpacker.replies requests
    (answer :: answers, unpacker)

theorem heeds_reply (request : Request) :
    unpacker.Heeds (unpacker.reply request).1 (unpacker.reply request).2 := by
  have moved {after : Unpacker σ} (fault : after.fault = unpacker.fault)
      (last : after.last = unpacker.last) :
      unpacker.Heeds (.ok .done : Except Fault Answer) after :=
    .of_fault_eq fault (fun _ => last) _
  cases request with
  | extInteger | extFloat | extDouble => exact (unpacker.heeds_currentExt _).map _
  | call call =>
    cases call with
    | next => exact unpacker.heeds_next.map _
    | nextHeader => exact unpacker.heeds_nextHeader.map _
    | nextAs view => exact unpacker.heeds_nextAs _
    | skip count => exact (unpacker.heeds_skip count).map _
    | lookAhead => exact unpacker.heeds_lookAhead.map Answer.kind
    | setBarrier | clearBarrier => exact moved rfl rfl
    | rescan => exact unpacker.heeds_rescan.map _
    | status =>
      refine ⟨?_, id⟩
      simp only [reply, call]
      cases unpacker.status <;> rfl

theorem heeds_replies (requests : List Request) (unpacker : Unpacker σ)
    (blank : unpacker.fault ≠ none → unpacker.last = none) :
    (unpacker.replies requests).2.status =
        (do unpacker.status; firstFault (unpacker.replies requests).1) ∧
      ((unpacker.replies requests).2.fault ≠ none →
        (unpacker.replies requests).2.last = none) := by
  induction requests generalizing unpacker with
  | nil =>
    refine ⟨?_, blank⟩
    simp only [replies, firstFault]
    cases unpacker.status <;> rfl
  | cons request requests ih =>
    have heeds := unpacker.heeds_reply request
    obtain ⟨status, last⟩ := ih _ (heeds.blank blank)
    refine ⟨?_, last⟩
    simp only [replies]
    rw [status, heeds.status]
    cases unpacker.status with
    | error fault => rfl
    | ok _ => cases (unpacker.reply request).1 <;> rfl

/-- Whoever has this fault does nothing but answer it, has no item at hand and sees none. -/
structure Refuses (fault : Fault) (unpacker : Unpacker σ) : Prop where
  next : unpacker.next = (.error fault, unpacker)
  nextHeader : unpacker.nextHeader = (.error fault, unpacker)
  skip : ∀ count, unpacker.skip count = (.error fault, unpacker)
  nextAs : ∀ {α : Type} (view : Item → Except Fault α),
    unpacker.nextAs view = (.error fault, unpacker)
  extInteger : unpacker.extInteger = (.error fault, unpacker)
  extFloat : unpacker.extFloat = (.error fault, unpacker)
  extDouble : unpacker.extDouble = (.error fault, unpacker)
  rescan : unpacker.rescan = (.error fault, unpacker)
  lookAhead : unpacker.lookAhead = (.notAnItem, unpacker)
  item : unpacker.item? = none

end Unpacker

end MessagePack
