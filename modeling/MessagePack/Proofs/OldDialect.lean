import MessagePack.Proofs.OldFormat
import MessagePack.Proofs.RoundTrip
import MessagePack.Proofs.AcceptingOutput

/-! Packing in the old dialect. A handler may pass bytes on, move or drop them, but if it keeps
what it is given together, then all that is written is made of values packed whole. Of the
others a bin goes the way of a str, and the rest is refused before a byte is written. -/
namespace MessagePack

/-! ### Handlers that keep a text together -/

/-- What is known of the bytes that a handler has passed on. -/
structure Account (σ : Type) where
  passed : σ → List UInt8
  /-- As long as it is so, what is known is right. -/
  Faithful : σ → Prop

namespace Account

def held (σ : Type) : Account σ := ⟨fun _ => [], fun _ => True⟩

def text (account : Account σ) (packer : Packer σ) : List UInt8 :=
  account.passed packer.handler ++ packer.buffer.packed

/-- The bytes passed on and those in the buffer, which has no barrier, are the text. -/
structure Shows (account : Account σ) (handler : σ) (buffer : Outgoing) (text : List UInt8) :
    Prop where
  sound : buffer.Sound
  front : buffer.start = 0
  unmarked : buffer.barrier = none
  faithful : account.Faithful handler
  text : account.passed handler ++ buffer.packed = text

/-- Whether it makes room or fails to, the handler keeps the whole text or drops the whole text. -/
def Careful [Outlet σ] (account : Account σ) : Prop :=
  ∀ {handler buffer text needed}, account.Shows handler buffer text → buffer.remaining < needed →
    let reply := Outlet.makeRoom handler buffer needed
    account.Shows reply.handler reply.buffer text ∨ account.Shows reply.handler reply.buffer []

namespace Shows

variable {account : Account σ} {handler : σ} {buffer : Outgoing} {text : List UInt8}

theorem ofSize (size : Nat) (faithful : account.Faithful handler)
    (none : account.passed handler = []) : account.Shows handler (.ofSize size) [] where
  sound := .ofSize size
  front := rfl
  unmarked := rfl
  faithful := faithful
  text := by rw [none, List.nil_append]; exact Region.slice_self _ 0

theorem withCeiling (shows : account.Shows handler buffer text) (ceiling : Nat) :
    account.Shows handler (buffer.withCeiling ceiling) text where
  sound := shows.sound.withCeiling ceiling
  front := shows.front
  unmarked := shows.unmarked
  faithful := shows.faithful
  text := shows.text

theorem of_keeps {reply : Outlet.Reply σ} (shows : account.Shows handler buffer text)
    (keeps : reply.KeepsText buffer (account.passed handler) (account.passed reply.handler))
    (faithful : account.Faithful reply.handler) :
    account.Shows reply.handler reply.buffer text where
  sound := keeps.sound
  front := keeps.front.trans shows.front
  unmarked := by
    have mark := keeps.mark
    rw [Outgoing.mark, Outgoing.mark, shows.unmarked] at mark
    simpa using mark
  faithful := faithful
  text := keeps.text.trans shows.text

theorem append (shows : account.Shows handler buffer text) {bytes : List UInt8}
    (room : bytes.length ≤ buffer.remaining) :
    account.Shows handler (buffer.append bytes) (text ++ bytes) where
  sound := shows.sound.append room
  front := shows.front
  unmarked := shows.unmarked
  faithful := shows.faithful
  text := by rw [shows.sound.packed_append room, ← List.append_assoc, shows.text]

theorem growFor (shows : account.Shows handler buffer text) {needed : Nat}
    (short : buffer.remaining < needed) :
    account.Shows handler (buffer.growFor needed).2 text := by
  obtain ⟨keeps, _⟩ := Outgoing.keeps_growFor shows.sound shows.front short handler
    (account.passed handler)
  exact shows.of_keeps keeps shows.faithful

theorem resize (shows : account.Shows handler buffer text) {size : Nat}
    (larger : buffer.stop ≤ size) : account.Shows handler (buffer.resize size).2 text := by
  unfold Outgoing.resize
  split
  · rename_i region grown
    have grows : buffer.stop ≤ region.size := by rwa [Region.size_resize? grown]
    exact {
      sound := shows.sound.grow grows
      front := shows.front
      unmarked := shows.unmarked
      faithful := shows.faithful
      text := by
        have same : region.slice buffer.start buffer.current = buffer.packed :=
          Region.slice_resize? grown larger shows.sound.current_le
        rw [← shows.text, ← same]
        rfl }
  · exact shows

theorem discard (shows : (held σ).Shows handler buffer text) (other : σ) :
    (held σ).Shows other (buffer.discardFront buffer.current) [] := by
  obtain ⟨sound, packed, mark, front, _⟩ :=
    shows.sound.discardFront shows.sound.start_le (Nat.le_refl _)
  rw [← shows.sound.length_packed, List.drop_length] at packed
  rw [Outgoing.mark, Outgoing.mark, shows.unmarked] at mark
  exact {
    sound := sound
    front := front.trans shows.front
    unmarked := by simpa using mark
    faithful := trivial
    text := packed }

theorem withFailure (shows : (held σ).Shows handler buffer text) (other : σ)
    (failure : Option String) : (held σ).Shows other { buffer with failure } text where
  sound := ⟨shows.sound.start_le, shows.sound.current_le, shows.sound.barrier_bounds⟩
  front := shows.front
  unmarked := shows.unmarked
  faithful := trivial
  text := shows.text

theorem drain {sink : Sink} (shows : (held Sink).Shows sink buffer text) :
    (held Sink).Shows (sink.drain buffer).handler (sink.drain buffer).buffer text ∨
      (held Sink).Shows (sink.drain buffer).handler (sink.drain buffer).buffer [] := by
  have whole : buffer.barrier.getD buffer.current = buffer.current := by rw [shows.unmarked]; rfl
  simp only [Sink.drain, whole]
  split
  · exact .inl shows
  · split
    · exact .inr (shows.discard _)
    · exact .inl (shows.withFailure _ _)

end Shows

def delivered (σ : Type) [Outlet σ] [Channel σ] : Account σ :=
  ⟨Channel.delivered, Channel.Faithful⟩

end Account

/-! ### Runs -/

/-- The text is made of values that have been packed whole in the old dialect, which takes a byte
order that the host has. -/
def Formed (order : ByteOrder) (text : List UInt8) : Prop :=
  ∃ values : List Value, (values = [] ∨ order.verify = .ok ()) ∧
    (∀ value ∈ values, value.oldItem?.isSome) ∧ text = values.flatMap (Value.bytes ⟨true, order⟩)

namespace Formed

variable {order : ByteOrder} {text bytes : List UInt8}

theorem nil (order : ByteOrder) : Formed order [] := ⟨[], .inl rfl, nofun, rfl⟩

theorem append {value : Value} (formed : Formed order text) (native : order.verify = .ok ())
    (encoded : value.encode ⟨true, order⟩ = .ok bytes) (complete : ¬value.announces) :
    Formed order (text ++ bytes) := by
  obtain ⟨values, _, old, rfl⟩ := formed
  refine ⟨values ++ [value], .inr native, ?_, ?_⟩
  · intro other member
    rcases List.mem_append.mp member with among | last
    · exact old other among
    · obtain rfl := List.mem_singleton.mp last
      exact Value.oldItem?_of_encode encoded complete
  · rw [List.flatMap_append, List.flatMap_singleton, Value.bytes, encoded]

theorem walked (formed : Formed order text) : Unpacker.WalksOld order text := by
  obtain ⟨values, rfl | native, old, rfl⟩ := formed
  · exact Unpacker.walksOld_nil order
  · exact Unpacker.walksOld_flatMap native old

end Formed

namespace Packer

variable [Outlet σ] {account : Account σ} {packer : Packer σ} {order : ByteOrder}
  {text bytes : List UInt8}

/-- Bytes go behind the text, or behind nothing if it has been dropped, or nowhere. -/
theorem shows_emit (careful : account.Careful)
    (shows : account.Shows packer.handler packer.buffer text) (bytes : List UInt8) :
    ∃ kept, (kept = text ∨ kept = []) ∧
      (account.Shows (packer.emit bytes).2.handler (packer.emit bytes).2.buffer kept ∨
        account.Shows (packer.emit bytes).2.handler (packer.emit bytes).2.buffer
          (kept ++ bytes)) := by
  by_cases room : bytes.length ≤ packer.buffer.remaining
  · refine ⟨text, .inl rfl, .inr ?_⟩
    rw [emit_of_room room]
    exact shows.append room
  have short := Nat.lt_of_not_le room
  obtain ⟨kept, origin, shows⟩ : ∃ kept, (kept = text ∨ kept = []) ∧
      account.Shows (Outlet.makeRoom packer.handler packer.buffer bytes.length).handler
        (Outlet.makeRoom packer.handler packer.buffer bytes.length).buffer kept := by
    rcases careful shows short with shows | shows
    · exact ⟨text, .inl rfl, shows⟩
    · exact ⟨[], .inr rfl, shows⟩
  refine ⟨kept, origin, ?_⟩
  rw [emit_of_short short]
  generalize Outlet.makeRoom packer.handler packer.buffer bytes.length = reply at shows ⊢
  obtain ⟨fault | _, handler, buffer⟩ := reply
  · exact .inl shows
  dsimp only at shows ⊢
  split
  · exact .inr (shows.append ‹_›)
  · exact .inl shows

/-- What is held of the packer, and what has been passed on, keeps to the old format. -/
structure Conforms (account : Account σ) (order : ByteOrder) (packer : Packer σ) : Prop where
  dialect : packer.dialect = ⟨true, order⟩
  native : packer.fault = none → order.verify = .ok ()
  text : ∃ text, Formed order text ∧ account.Shows packer.handler packer.buffer text

/-- What one call preserves. -/
theorem Conforms.pack (conforms : packer.Conforms account order) (careful : account.Careful)
    {value : Value} (complete : ¬value.announces) :
    (packer.pack value).2.Conforms account order := by
  obtain ⟨dialect, native, text, formed, shows⟩ := conforms
  cases clean : packer.fault with
  | some fault =>
    rw [pack_eq, attempt_of_fault clean]
    exact ⟨dialect, native, text, formed, shows⟩
  | none =>
    have native := native clean
    rw [pack_eq, attempt_of_clean clean]
    cases encoded : value.encode packer.dialect with
    | error fault => exact ⟨dialect, fun _ => native, text, formed, shows⟩
    | ok bytes =>
      rw [dialect] at encoded
      have spares := packer.spares_emit bytes
      obtain ⟨kept, origin, shows⟩ := shows_emit careful shows bytes
      have kept : Formed order kept := by
        rcases origin with rfl | rfl
        · exact formed
        · exact .nil order
      have after : (packer.emit bytes).2.Conforms account order := by
        refine ⟨spares.dialect.trans dialect, fun _ => native, ?_⟩
        rcases shows with shows | shows
        · exact ⟨_, kept, shows⟩
        · exact ⟨_, kept.append native encoded complete, shows⟩
      dsimp only
      generalize packer.emit bytes = result at after ⊢
      obtain ⟨fault | _, packer⟩ := result
      · exact ⟨after.dialect, fun _ => native, after.text⟩
      · exact after

theorem Conforms.run (conforms : packer.Conforms account order) (careful : account.Careful)
    {values : List Value} (complete : ∀ value ∈ values, ¬value.announces) :
    (packer.run (values.map .pack)).2.Conforms account order := by
  induction values generalizing packer with
  | nil => exact conforms
  | cons value values ih =>
    obtain ⟨own, others⟩ := List.forall_mem_cons.mp complete
    exact ih (conforms.pack careful own) others

end Packer
end MessagePack
