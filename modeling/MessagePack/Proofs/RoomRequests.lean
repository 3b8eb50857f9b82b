import MessagePack.Pack.Planned
import MessagePack.Proofs.ShortestForms

/-! How room is claimed. What a call packs is measured before anything is written, header and
payload together, and room for all of it is asked for in one request, or in none if there
is enough. Whatever the handler does to the buffer then, the bytes of the call are written
whole behind those that it has left, or nothing is written at all. A handler that reports a
failure is believed, even if it has made the room. -/
namespace MessagePack

namespace Outgoing

def Ordered (buffer : Outgoing) : Prop :=
  buffer.start ≤ buffer.current ∧ buffer.current ≤ buffer.stop

instance (buffer : Outgoing) : Decidable buffer.Ordered :=
  inferInstanceAs (Decidable (_ ∧ _))

/-- The bytes have been written at the cursor, and no other byte has been touched. -/
structure Gains (before : Outgoing) (bytes : List UInt8) (after : Outgoing) : Prop where
  region : after.region.toList = before.region.toList.take before.current ++ bytes ++
    before.region.toList.drop (before.current + bytes.length)
  current : after.current = before.current + bytes.length
  start : after.start = before.start
  barrier : after.barrier = before.barrier
  failure : after.failure = before.failure

theorem Ordered.gains {buffer : Outgoing} {bytes : List UInt8} (ordered : buffer.Ordered)
    (room : bytes.length ≤ buffer.remaining) :
    buffer.Gains bytes (buffer.append bytes) ∧ (buffer.append bytes).Ordered := by
  obtain ⟨start_le, current_le⟩ := ordered
  have within : buffer.current + bytes.length ≤ buffer.region.size := by
    unfold remaining stop at room
    unfold stop at current_le
    omega
  refine ⟨⟨Region.toList_overwrite within, rfl, rfl, rfl, rfl⟩, ?_, ?_⟩
  · exact Nat.le_trans start_le (Nat.le_add_right _ _)
  · simpa [append, stop] using within

end Outgoing

/-- A handler with a list of the requests for room that it has met. -/
structure Watched (σ : Type) where
  handler : σ
  requests : List Nat

instance [Outlet σ] : Outlet (Watched σ) where
  makeRoom watched buffer needed :=
    let reply := Outlet.makeRoom watched.handler buffer needed
    ⟨reply.status, ⟨reply.handler, watched.requests ++ [needed]⟩, reply.buffer⟩
  canFlush watched := Outlet.canFlush watched.handler
  flush watched buffer :=
    let reply := Outlet.flush watched.handler buffer
    ⟨reply.status, ⟨reply.handler, watched.requests⟩, reply.buffer⟩
  canWrite watched := Outlet.canWrite watched.handler
  write watched buffer bytes :=
    let reply := Outlet.write watched.handler buffer bytes
    ⟨reply.status, ⟨reply.handler, watched.requests⟩, reply.buffer⟩

namespace Packer

/-- The bytes for which a call has to find room in the buffer, none if it writes none there. -/
def buffered? [Outlet σ] (call : Call) (packer : Packer σ) : Option (List UInt8) :=
  match call with
  | .pack value => (value.encode packer.dialect).toOption
  | .insert bytes =>
    if Outlet.canFlush packer.handler ∧ Outlet.canWrite packer.handler ∧
        packer.buffer.barrier = none then none
    else some bytes
  | _ => none

/-- The number of bytes that a call claims, reckoned without them. -/
def Call.needed (dialect : Dialect) : Call → Nat
  | .pack value => value.needed dialect
  | .insert bytes => bytes.length
  | _ => 0

def watched (packer : Packer σ) : Packer (Watched σ) :=
  { packer with handler := ⟨packer.handler, []⟩ }

def unwatched (packer : Packer (Watched σ)) : Packer σ :=
  { packer with handler := packer.handler.handler }

variable [Outlet σ] {packer : Packer σ} {call : Call} {bytes : List UInt8}

theorem length_claim (claims : packer.buffered? call = some bytes) :
    bytes.length = call.needed packer.dialect := by
  cases call with
  | pack value =>
    simp only [buffered?] at claims
    cases encoded : value.encode packer.dialect with
    | error fault =>
      rw [encoded] at claims
      cases claims
    | ok output =>
      rw [encoded] at claims
      cases claims
      exact Value.length_encode encoded
  | insert output =>
    simp only [buffered?] at claims
    split at claims <;> cases claims
    rfl
  | _ => cases claims

theorem call_of_claim (claims : packer.buffered? call = some bytes) :
    packer.call call = packer.attempt (·.emit bytes) := by
  cases call with
  | pack value =>
    have encoded : value.encode packer.dialect = .ok bytes := by
      simp only [buffered?] at claims
      cases encoded : value.encode packer.dialect with
      | error fault =>
        rw [encoded] at claims
        cases claims
      | ok output =>
        rw [encoded] at claims
        exact congrArg Except.ok (Option.some.inj claims)
    simp only [Packer.call, pack_eq, attempt]
    rw [encoded]
  | insert output =>
    simp only [buffered?] at claims
    split at claims
    · cases claims
    · rename_i buffered
      cases claims
      simp only [Packer.call, Packer.insert, attempt, if_neg buffered]
  | _ => cases claims

omit [Outlet σ] in
theorem attempt_of_clean (clean : packer.fault = none) (body : Packer σ → Status × Packer σ) :
    packer.attempt body =
      match body packer with
      | (.ok _, after) => (.ok (), after)
      | (.error fault, after) => (.error fault, { after with fault := some fault }) := by
  obtain ⟨buffer, handler, dialect, fault⟩ := packer
  cases clean
  rfl

theorem emit_of_room (room : bytes.length ≤ packer.buffer.remaining) :
    packer.emit bytes = (.ok (), { packer with buffer := packer.buffer.append bytes }) := by
  rw [emit_eq, reserve, if_pos room]

theorem emit_of_short (short : packer.buffer.remaining < bytes.length) :
    packer.emit bytes =
      let reply := Outlet.makeRoom packer.handler packer.buffer bytes.length
      let left := { packer with handler := reply.handler, buffer := reply.buffer }
      match reply.status with
      | .error fault => (.error fault, left)
      | .ok _ =>
        if bytes.length ≤ reply.buffer.remaining then
          (.ok (), { left with buffer := reply.buffer.append bytes })
        else (.error .bufferOverflow, left) := by
  rw [emit_eq, reserve, if_neg (Nat.not_le_of_lt short), settle]
  generalize Outlet.makeRoom packer.handler packer.buffer bytes.length = reply
  obtain ⟨fault | _, handler, buffer⟩ := reply
  · rfl
  · dsimp only
    by_cases enough : bytes.length ≤ buffer.remaining
    · rw [if_pos enough, if_pos enough]
    · rw [if_neg enough, if_neg enough]

/-- A watcher is in nobody's way, and notes a request if there is too little room. -/
theorem emit_watched (packer : Packer σ) (bytes : List UInt8) :
    (packer.watched.emit bytes).1 = (packer.emit bytes).1 ∧
      (packer.watched.emit bytes).2.unwatched = (packer.emit bytes).2 ∧
      (packer.watched.emit bytes).2.handler.requests =
        if bytes.length ≤ packer.buffer.remaining then [] else [bytes.length] := by
  by_cases room : bytes.length ≤ packer.buffer.remaining
  · have stays : bytes.length ≤ packer.watched.buffer.remaining := room
    rw [emit_of_room room, emit_of_room stays, if_pos room]
    exact ⟨rfl, rfl, rfl⟩
  · have short := Nat.lt_of_not_le room
    have lacks : packer.watched.buffer.remaining < bytes.length := short
    have asked : Outlet.makeRoom packer.watched.handler packer.watched.buffer bytes.length =
      ⟨(Outlet.makeRoom packer.handler packer.buffer bytes.length).status,
        ⟨(Outlet.makeRoom packer.handler packer.buffer bytes.length).handler, [bytes.length]⟩,
        (Outlet.makeRoom packer.handler packer.buffer bytes.length).buffer⟩ := rfl
    rw [emit_of_short short, emit_of_short lacks, asked, if_neg room]
    generalize Outlet.makeRoom packer.handler packer.buffer bytes.length = reply
    obtain ⟨fault | _, handler, buffer⟩ := reply
    · exact ⟨rfl, rfl, rfl⟩
    · dsimp only
      by_cases enough : bytes.length ≤ buffer.remaining
      · rw [if_pos enough, if_pos enough]
        exact ⟨rfl, rfl, rfl⟩
      · rw [if_neg enough, if_neg enough]
        exact ⟨rfl, rfl, rfl⟩

theorem attempt_watched (clean : packer.fault = none) (bytes : List UInt8) :
    (packer.watched.attempt (·.emit bytes)).1 = (packer.attempt (·.emit bytes)).1 ∧
      (packer.watched.attempt (·.emit bytes)).2.unwatched =
        (packer.attempt (·.emit bytes)).2 ∧
      (packer.watched.attempt (·.emit bytes)).2.handler.requests =
        if bytes.length ≤ packer.buffer.remaining then [] else [bytes.length] := by
  have fresh : packer.watched.fault = none := clean
  obtain ⟨answer, same, requests⟩ := packer.emit_watched bytes
  rw [attempt_of_clean clean, attempt_of_clean fresh]
  generalize packer.watched.emit bytes = seen at answer same requests ⊢
  generalize packer.emit bytes = result at answer same ⊢
  obtain ⟨status, watched⟩ := seen
  obtain ⟨_, after⟩ := result
  cases answer
  cases same
  cases status with
  | error fault => exact ⟨rfl, rfl, requests⟩
  | ok => exact ⟨rfl, rfl, requests⟩

/-- What comes of a reply to a request for room for the bytes. -/
structure Settles (reply : Outlet.Reply σ) (bytes : List UInt8) (answer : Status)
    (after : Outgoing) : Prop where
  succeeds : answer = .ok () ↔ reply.status = .ok () ∧ bytes.length ≤ reply.buffer.remaining
  writes : answer = .ok () → reply.buffer.Gains bytes after
  /-- The handler's own fault, or an overflow where it has none. -/
  refuses : ∀ fault, answer = .error fault →
    (reply.status = .error fault ∨ reply.status = .ok () ∧ fault = .bufferOverflow) ∧
      after = reply.buffer

theorem settles_of_short (clean : packer.fault = none)
    (short : packer.buffer.remaining < bytes.length)
    (keeps : (Outlet.makeRoom packer.handler packer.buffer bytes.length).buffer.Ordered) :
    Settles (Outlet.makeRoom packer.handler packer.buffer bytes.length) bytes
        (packer.attempt (·.emit bytes)).1 (packer.attempt (·.emit bytes)).2.buffer ∧
      (packer.attempt (·.emit bytes)).2.buffer.Ordered := by
  rw [attempt_of_clean clean, emit_of_short short]
  generalize Outlet.makeRoom packer.handler packer.buffer bytes.length = reply at keeps ⊢
  obtain ⟨fault | _, handler, buffer⟩ := reply
  · refine ⟨⟨⟨nofun, fun made => nomatch made.1⟩, nofun, ?_⟩, keeps⟩
    rintro _ ⟨⟩
    exact ⟨.inl rfl, rfl⟩
  dsimp only at keeps ⊢
  by_cases enough : bytes.length ≤ buffer.remaining
  · obtain ⟨gains, after⟩ := keeps.gains enough
    rw [if_pos enough]
    exact ⟨⟨⟨fun _ => ⟨rfl, enough⟩, fun _ => rfl⟩, fun _ => gains, nofun⟩, after⟩
  · rw [if_neg enough]
    refine ⟨⟨⟨nofun, fun made => absurd made.2 enough⟩, nofun, ?_⟩, keeps⟩
    rintro _ ⟨⟩
    exact ⟨.inr ⟨rfl, rfl⟩, rfl⟩

/-- Reservation. A call with room for its bytes asks for none. Without, it makes one request, for
header and payload together, and then it is done whole at the cursor that the handler has left if
the handler reports success and there is room, or else it fails and leaves the buffer to the byte
as the handler did. Where a fault stands it asks for nothing and does nothing. -/
theorem room_claimed (ordered : packer.buffer.Ordered) (claims : packer.buffered? call = some bytes)
    (keeps : (Outlet.makeRoom packer.handler packer.buffer
      (call.needed packer.dialect)).buffer.Ordered) :
    let size := call.needed packer.dialect
    let reply := Outlet.makeRoom packer.handler packer.buffer size
    let after := packer.call call
    let watched := packer.watched.call call
    bytes.length = size ∧ watched.1 = after.1 ∧ watched.2.unwatched = after.2 ∧
      after.2.buffer.Ordered ∧
      (∀ fault, packer.fault = some fault →
        watched.2.handler.requests = [] ∧ after = (.error fault, packer)) ∧
      (packer.fault = none → size ≤ packer.buffer.remaining →
        watched.2.handler.requests = [] ∧ after.1 = .ok () ∧
          packer.buffer.Gains bytes after.2.buffer) ∧
      (packer.fault = none → packer.buffer.remaining < size →
        watched.2.handler.requests = [size] ∧ Settles reply bytes after.1 after.2.buffer) := by
  have length := length_claim claims
  have seen : packer.watched.buffered? call = some bytes := by cases call <;> exact claims
  dsimp only
  rw [← length] at keeps ⊢
  rw [call_of_claim claims, call_of_claim seen]
  cases standing : packer.fault with
  | some fault =>
    have same : packer.watched.fault = some fault := standing
    rw [attempt_of_fault standing, attempt_of_fault same]
    refine ⟨rfl, rfl, rfl, ordered, ?_, nofun, nofun⟩
    rintro _ ⟨⟩
    exact ⟨rfl, rfl⟩
  | none =>
    obtain ⟨answer, same, requests⟩ := attempt_watched standing bytes
    refine ⟨rfl, answer, same, ?_⟩
    by_cases room : bytes.length ≤ packer.buffer.remaining
    · obtain ⟨gains, after⟩ := ordered.gains room
      rw [if_pos room] at requests
      rw [requests, attempt_of_clean standing, emit_of_room room]
      exact ⟨after, nofun, fun _ _ => ⟨rfl, rfl, gains⟩,
        fun _ short => absurd room (Nat.not_le_of_lt short)⟩
    · obtain ⟨settles, after⟩ := settles_of_short standing (Nat.lt_of_not_le room) keeps
      rw [if_neg room] at requests
      exact ⟨after, nofun, fun _ enough => absurd enough room, fun _ _ => ⟨requests, settles⟩⟩

/-- Three bytes for which a handler drops the three that have been packed. -/
theorem room_claimed_dropping :
    let packer : Packer Planned :=
      ⟨⟨.ofList [0xc0, 0xc0, 0xc0, 0x00], 0, 3, none, none⟩, ⟨.drop, none, none, []⟩,
        ⟨false, .portable⟩, none⟩
    packer.buffer.Ordered ∧ packer.buffered? (.pack (.unsigned 300)) = some [0xcd, 0x01, 0x2c] ∧
      (packer.watched.call (.pack (.unsigned 300))).2.handler.requests = [3] ∧
      (packer.call (.pack (.unsigned 300))).1 = .ok () ∧
      (packer.call (.pack (.unsigned 300))).2.buffer.region.toList = [0xcd, 0x01, 0x2c, 0x00] := by
  intro packer
  have ordered : packer.buffer.Ordered := by decide
  have claims : packer.buffered? (.pack (.unsigned 300)) = some [0xcd, 0x01, 0x2c] := rfl
  have needed : (Call.pack (.unsigned 300)).needed packer.dialect = 3 := by decide
  have keeps : (Outlet.makeRoom packer.handler packer.buffer 3).buffer.Ordered := by decide
  have claimed := room_claimed ordered claims (needed ▸ keeps)
  dsimp only at claimed
  rw [needed] at claimed
  obtain ⟨_, _, _, _, _, _, claimed⟩ := claimed
  obtain ⟨requests, settles⟩ := claimed rfl (by decide)
  have done := settles.succeeds.mpr ⟨rfl, by decide⟩
  refine ⟨ordered, claims, requests, done, (settles.writes done).region.trans ?_⟩
  decide

end Packer

/-- Makes room and reports a failure nevertheless. -/
structure Grudging where
  deriving DecidableEq, Repr

instance : Outlet Grudging where
  makeRoom handler buffer needed :=
    ⟨.error .errorInHandler, handler, (buffer.resize (buffer.current + needed)).2⟩

namespace Packer

/-- A call fails for which a handler has made room, and then another for which there is room. -/
theorem room_not_taken :
    let packer : Packer Grudging := new (.ofSize 1) ⟨⟩ ⟨false, .portable⟩
    let first := packer.pack (.unsigned 300)
    let second := first.2.pack .nil
    (first.2.buffer.start = 0 ∧ first.2.buffer.current = 0 ∧ first.2.buffer.stop = 3) ∧
      (3 ≤ first.2.buffer.remaining ∧ first.1 = .error .errorInHandler) ∧
      (1 ≤ first.2.buffer.remaining ∧ second.1 = .error .errorInHandler) ∧
      first.2.buffer.packed = [] ∧ second.2.buffer.packed = [] := by
  exact ⟨⟨rfl, rfl, rfl⟩, ⟨by decide, rfl⟩, ⟨by decide, rfl⟩, rfl, rfl⟩

end Packer
end MessagePack
