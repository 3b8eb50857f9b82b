import MessagePack.Proofs.ScanBounds

/-! Stepping over an item and reading it. Both look at the same tag and at the same length
field, if there is one; what is behind these is stepped over as so many bytes and read as
a type, a number or a payload. The two take the same bytes, and where they give up they
give up alike, but for extensions that are no timestamps though their type says so. -/
namespace MessagePack

def Item.nested : Item → Nat
  | .array size => size
  | .map size => 2 * size
  | _ => 0

def Item.scanPayload (header : Header) : Scan Item :=
  match header.payloadLength? with
  | none => .done (header.withPayload [])
  | some length => .take length false fun payload => .done (header.withPayload payload)

theorem Item.scan_eq (order : ByteOrder) : Item.scan order =
    .take 1 true fun bytes => (Header.scanAfter order (.ofByte (bytes.headD 0))).bind scanPayload :=
  rfl

def Extent.scanBytes (extent : Extent) : Scan Nat :=
  if extent.bytes = 0 then .done extent.items
  else .take extent.bytes false fun _ => .done extent.items

namespace Scan

def Covers (step : Scan Nat) (scan : Scan Item) : Prop :=
  ∀ closing bytes,
    match scan.read closing bytes with
    | (.ok item, taken) => step.read closing bytes = (.ok item.nested, taken)
    | (.error fault, _) =>
      fault = .wrongTimestampLength ∨ (step.read closing bytes).1 = .error fault

theorem Covers.take {count : Nat} {leading : Bool} {next : List UInt8 → Scan Item}
    {nextStep : List UInt8 → Scan Nat} (covers : ∀ bytes, (nextStep bytes).Covers (next bytes)) :
    (Scan.take count leading nextStep).Covers (.take count leading next) := by
  intro closing bytes
  by_cases complete : count ≤ bytes.length
  · have rest := covers (bytes.take count) closing (bytes.drop count)
    simp only [read, if_pos complete]
    generalize (next (bytes.take count)).read closing (bytes.drop count) = result at rest ⊢
    obtain ⟨answer, taken⟩ := result
    cases answer with
    | ok item =>
      dsimp only at rest ⊢
      rw [rest]
    | error fault => exact rest
  · simp only [read, if_neg complete]
    exact .inr trivial

/-- The scan takes the bytes of the extent, or gives up for want of them, or because of a
timestamp of no known form. -/
def Spans (extent : Extent) (scan : Scan Item) : Prop :=
  ∀ closing bytes,
    (scan.read closing bytes).1 = .error .wrongTimestampLength ∨
    if extent.bytes ≤ bytes.length then
      ∃ item, scan.read closing bytes = (.ok item, extent.bytes) ∧ item.nested = extent.items
    else (scan.read closing bytes).1 = .error (shortfall closing false)

theorem Spans.covers {extent : Extent} {scan : Scan Item} (spans : scan.Spans extent) :
    extent.scanBytes.Covers scan := by
  intro closing bytes
  have outcome := spans closing bytes
  simp only [Extent.scanBytes]
  generalize scan.read closing bytes = result at outcome ⊢
  obtain ⟨answer, taken⟩ := result
  dsimp only at outcome
  by_cases complete : extent.bytes ≤ bytes.length
  · rw [if_pos complete] at outcome
    rcases outcome with rfl | ⟨item, same, nested⟩
    · exact .inl rfl
    · cases same
      dsimp only
      by_cases none : extent.bytes = 0
      · rw [if_pos none, none, nested, read]
      · rw [if_neg none, read, if_pos complete, nested]
        rfl
  · rw [if_neg complete] at outcome
    rcases outcome with rfl | rfl
    · exact .inl rfl
    · rw [if_neg (by omega), read, if_neg complete]
      exact .inr rfl

theorem spans_done (item : Item) : (Scan.done item).Spans ⟨0, item.nested⟩ := by
  intro closing bytes
  rw [if_pos (Nat.zero_le _)]
  exact .inr ⟨item, rfl, rfl⟩

theorem spans_wrongTimestamp (extent : Extent) :
    (Scan.fail .wrongTimestampLength).Spans extent := fun _ _ => .inl rfl

theorem Spans.take {count : Nat} (extent : Extent) {next : List UInt8 → Scan Item}
    (spans : ∀ bytes, (next bytes).Spans extent) :
    (Scan.take count false next).Spans ⟨count + extent.bytes, extent.items⟩ := by
  intro closing bytes
  dsimp only
  by_cases complete : count ≤ bytes.length
  · have rest := spans (bytes.take count) closing (bytes.drop count)
    simp only [read, if_pos complete]
    have enough : extent.bytes ≤ (bytes.drop count).length ↔
        count + extent.bytes ≤ bytes.length := by rw [List.length_drop]; omega
    simp only [enough] at rest
    generalize (next (bytes.take count)).read closing (bytes.drop count) = result at rest ⊢
    apply rest.imp_right
    intro rest
    split
    · rw [if_pos ‹_›] at rest
      obtain ⟨item, rfl, nested⟩ := rest
      exact ⟨item, rfl, nested⟩
    · rw [if_neg ‹_›] at rest
      exact rest
  · rw [if_neg (by omega), read, if_neg complete]
    exact .inr rfl

theorem spans_take (count : Nat) {make : List UInt8 → Item}
    (plain : ∀ bytes, (make bytes).nested = 0) :
    (Scan.take count false fun bytes => .done (make bytes)).Spans ⟨count, 0⟩ := by
  apply Spans.take ⟨0, 0⟩
  intro bytes
  have spans := spans_done (make bytes)
  rwa [plain] at spans

end Scan

open Scan

theorem Item.spans_scanExt (order : ByteOrder) {tag : Tag} {length : Nat}
    (exact : ∀ i, tag = .fixExt i → length = Tag.width i.val) :
    ((Header.scanExt order tag length).bind scanPayload).Spans ⟨1 + length, 0⟩ := by
  apply Spans.take ⟨length, 0⟩
  intro bytes
  dsimp only [Scan.bind]
  by_cases timestamp : (bytes.headD 0).toInt8 = timestampType
  · rw [if_pos timestamp]
    simp only [Timestamp.scan]
    split
    · rw [exact 2 rfl]
      exact spans_take 4 fun _ => rfl
    · rw [exact 3 rfl]
      exact spans_take 8 fun _ => rfl
    · exact spans_take 12 fun _ => rfl
    · exact spans_wrongTimestamp _
  · rw [if_neg timestamp]
    exact spans_take length fun _ => rfl

/-- Every form of an item is stepped over as it is read. -/
theorem Extent.covers_scanAfter (order : ByteOrder) (tag : Tag) :
    ((scanAfter order tag).bind scanBytes).Covers
      ((Header.scanAfter order tag).bind Item.scanPayload) := by
  cases tag with
  | positive value => exact (spans_done (.integer _)).covers
  | negative value => exact (spans_done (.integer _)).covers
  | nil => exact (spans_done .nil).covers
  | boolean value => exact (spans_done (.boolean _)).covers
  | fixMap size => exact (spans_done (.map _)).covers
  | fixArray size => exact (spans_done (.array _)).covers
  | fixStr length => exact (spans_take length.val fun _ => rfl).covers
  | reserved => exact fun closing bytes => .inr rfl
  | unsigned i => exact (spans_take (Tag.width i.val) fun _ => rfl).covers
  | signed i => exact (spans_take (Tag.width i.val) fun _ => rfl).covers
  | float => exact (spans_take 4 fun _ => rfl).covers
  | double => exact (spans_take 8 fun _ => rfl).covers
  | str i => exact Covers.take fun bytes => (spans_take _ fun _ => rfl).covers
  | bin i => exact Covers.take fun bytes => (spans_take _ fun _ => rfl).covers
  | array i => exact Covers.take fun bytes => (spans_done (.array _)).covers
  | map i => exact Covers.take fun bytes => (spans_done (.map _)).covers
  | fixExt i =>
    refine (Item.spans_scanExt order ?_).covers
    rintro j ⟨⟩
    rfl
  | ext i =>
    apply Covers.take
    intro bytes
    have spans : Spans ⟨1 + order.load bytes, 0⟩
        ((Header.scanExt order (.ext i) (order.load bytes)).bind Item.scanPayload) :=
      Item.spans_scanExt order (by rintro j ⟨⟩)
    rw [Nat.add_comm] at spans
    exact spans.covers

theorem Extent.covers_scan (order : ByteOrder) : (scan order).Covers (Item.scan order) :=
  Covers.take fun bytes => covers_scanAfter order (.ofByte (bytes.headD 0))

end MessagePack
