import MessagePack.Proofs.ShortestForms
import MessagePack.Proofs.PayloadPieces
import MessagePack.Proofs.ItemRecall

/-! There and back. A value is packed behind what memory holds already, and its bytes are taken
somewhere else, where others follow them: to memory again, or to a stream of any pace. Whoever
reads on there finds the item that the value is, and stands right behind it. -/
namespace MessagePack

namespace Unpacker

theorem Follows.next_of_reads [Inlet σ] [Feed σ] {unpacker : Unpacker σ} {bytes rest : List UInt8}
    {closing : Fault} {order : ByteOrder} {item : Item}
    (follows : unpacker.Follows (.start (bytes ++ rest) closing order))
    (native : order.verify = .ok ()) (reads : (Item.scan order).Reads bytes item) :
    ∃ after, unpacker.next = (.ok item, after) ∧ after.order = order ∧
      after.offset = bytes.length := by
  have clean : (Reading.start (bytes ++ rest) closing order).fault = none := by
    simp only [Reading.start, native]
  obtain ⟨after, read, stays⟩ := follows.next.split
  rw [Reading.next_of_reads clean reads rfl] at read stays
  exact ⟨after, read, stays.order, stays.offset.trans (Nat.zero_add _)⟩

theorem onHonestSources {whole : List UInt8} {order : ByteOrder} {ceiling : Nat}
    (roomy : Roomy whole ceiling) {property : (σ : Type) → [Inlet σ] → Unpacker σ → Prop}
    (holds : ∀ (σ : Type) [Inlet σ] [Feed σ] [Inlet.Honest σ] (unpacker : Unpacker σ),
      unpacker.Follows (.start whole .endOfInput order) → property σ unpacker) :
    OnEverySource whole order ceiling property := by
  refine ⟨holds _ _ (follows_ofBytes whole order), ?_, ?_⟩
  · rintro input delivers rfl capacity
    exact holds _ _ (follows_ofInput delivers roomy capacity order)
  · rintro input front delivers rfl
    exact holds _ _ (follows_ofBytes_input front delivers roomy order)

end Unpacker

namespace Packer

open Unpacker

/-- Memory takes the value, and whoever has its bytes ahead, with any others behind them, `sees`
what it is, given how many bytes they are. -/
def Returns (packer : Packer Growable) (value : Value)
    (sees : Nat → (σ : Type) → [Inlet σ] → Unpacker σ → Prop) : Prop :=
  ∃ bytes, (packer.pack value).1 = .ok () ∧
    (packer.pack value).2.buffer.packed = packer.buffer.packed ++ bytes ∧
    ∀ order rest ceiling, order.verify = .ok () → Roomy (bytes ++ rest) ceiling →
      OnEverySource (bytes ++ rest) order ceiling (sees bytes.length)

variable {packer : Packer Growable} {draft : Draft} {ceiling : Nat}

theorem ready_growable {size : Nat} {dialect : Dialect} {calls : List Call}
    (clean : (((growable size dialect).withCeiling ceiling).run calls).2.fault = none) :
    (∃ draft, (((growable size dialect).withCeiling ceiling).run calls).2.Holds draft ceiling) ∧
      (((growable size dialect).withCeiling ceiling).run calls).2.dialect.order.verify =
        .ok () := by
  refine ⟨(holds_growable size ceiling dialect).run_clean clean, ?_⟩
  rw [order_run]
  exact native_of_clean clean

theorem Holds.returns (holds : packer.Holds draft ceiling) (clean : packer.fault = none)
    (native : packer.dialect.order.verify = .ok ()) {value : Value} {item : Item}
    {bytes : List UInt8} (encoded : value.encode packer.dialect = .ok bytes)
    (allocation : Granted ceiling (packer.buffer.packed.length + bytes.length))
    (reads : (Item.scan packer.dialect.order).Reads bytes item)
    {sees : Nat → (σ : Type) → [Inlet σ] → Unpacker σ → Prop}
    (seen : ∀ (σ : Type) [Inlet σ] [Inlet.Honest σ] (unpacker after : Unpacker σ) (whole pending),
      unpacker.buffer.Window whole pending → unpacker.next = (.ok item, after) →
      after.order.verify = .ok () → after.offset = bytes.length → sees bytes.length σ unpacker) :
    packer.Returns value sees := by
  have own : value.bytes packer.dialect = bytes := by simp only [Value.bytes, encoded]
  have together : [Call.pack value].flatMap (·.bytes packer.dialect) = bytes := by
    simp [Call.bytes, own]
  have writes : ∀ call ∈ [Call.pack value], call.Writes packer.dialect := by
    simp [Call.Writes, own, encoded]
  have adds := adds_growable holds clean writes (by rwa [together])
  rw [together] at adds
  refine ⟨bytes, (List.cons.inj adds.answers).1, adds.output, ?_⟩
  intro order rest ceiling alike roomy
  apply onHonestSources roomy
  intro σ _ _ _ unpacker follows
  rw [Item.scan_native native alike] at reads
  obtain ⟨after, read, same, place⟩ := follows.next_of_reads alike reads
  have host : after.order.verify = .ok () := same ▸ alike
  exact seen σ unpacker after _ _ follows.window read host place

end Packer
end MessagePack
