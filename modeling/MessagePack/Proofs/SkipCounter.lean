import MessagePack.Proofs.StickyFaults
import MessagePack.Proofs.SkipWalks

/-! The counter of a skip. What is still to be stepped over is a number, and the counter of it
is a word: a count with what the containers add to it can pass the largest word, and there the
skip is aborted. One that is not has come to the end of the items asked for or has met a fault. -/
namespace MessagePack

/-! ### Numbers of nested items -/

namespace Scan

/-- Every answer is as `post` says, also where a request has been met by fewer bytes. -/
def Yields (post : α → Prop) : Scan α → Prop
  | .done value => post value
  | .fail _ => True
  | .take count _ next =>
    ∀ bytes : List UInt8, bytes.length ≤ count → (next bytes).Yields post

theorem Yields.bind {mid : α → Prop} {post : β → Prop} {scan : Scan α} {f : α → Scan β}
    (first : scan.Yields mid) (second : ∀ value, mid value → (f value).Yields post) :
    (scan.bind f).Yields post := by
  induction scan with
  | done value => exact second value first
  | fail fault => trivial
  | take count leading next ih => exact fun bytes length => ih bytes (first bytes length)

theorem yields_field (order : ByteOrder) {i : Nat} (narrow : i ≤ 2) :
    (Scan.field order (Tag.width i)).Yields (· ≤ 0xffffffff) := by
  intro bytes length
  have below := order.load_lt bytes
  have wide : wordCount bytes.length ≤ wordCount (Tag.width 2) :=
    wordCount_le (Nat.le_trans length (Tag.width_le narrow))
  have words : wordCount (Tag.width 2) = 0x100000000 := rfl
  exact show order.load bytes ≤ 0xffffffff by omega

end Scan

namespace Extent

theorem yields_scanAfter (order : ByteOrder) (tag : Tag) :
    (scanAfter order tag).Yields (·.items ≤ 2 * 0xffffffff) := by
  cases tag with
  | reserved => trivial
  | positive | negative | nil | boolean | fixStr | unsigned | signed | float | double | fixExt =>
    exact Nat.zero_le _
  | fixMap size | fixArray size =>
    have := size.isLt
    simp only [scanAfter, Scan.pure_eq, Scan.Yields]
    omega
  | str i | bin i | ext i =>
    exact (Scan.yields_field order (by omega)).bind fun _ _ => Nat.zero_le _
  | array i =>
    exact (Scan.yields_field order (by omega)).bind fun size small =>
      Nat.le_trans small (by decide)
  | map i =>
    exact (Scan.yields_field order (by omega)).bind fun size small => Nat.mul_le_mul_left 2 small

theorem yields_scan (order : ByteOrder) : (scan order).Yields (· ≤ 2 * 0xffffffff) := by
  refine fun bytes _ => (yields_scanAfter order _).bind fun extent small => ?_
  split
  · exact small
  · exact fun _ _ => small

end Extent

namespace Unpacker

variable [Inlet σ] {unpacker after : Unpacker σ}

theorem yields_perform {post : α → Prop} {scan : Scan α} (yields : scan.Yields post) {value : α}
    (answered : perform scan unpacker = (.ok value, after)) : post value := by
  induction scan generalizing unpacker with
  | done value =>
    cases answered
    exact yields
  | fail fault => cases answered
  | take count leading next ih =>
    rw [perform] at answered
    split at answered
    · cases answered
    · rename_i bytes between taken
      refine ih bytes (yields bytes ?_) answered
      unfold take at taken
      split at taken <;> cases taken
      rw [front, Region.slice_eq, List.length_take]
      omega

/-! ### Walks -/

/-- While the number of items still to come is `live`, one item is stepped over, and those
nested in it are added. -/
inductive Counts (live : Nat → Prop) : Nat → Unpacker σ → Nat → Unpacker σ → Prop where
  | here (pending : Nat) (unpacker : Unpacker σ) : Counts live pending unpacker pending unpacker
  | step {pending items left : Nat} {unpacker between after : Unpacker σ}
    (more : live (pending + 1))
    (stepped : perform (Extent.scan unpacker.order) unpacker = (.ok items, between))
    (rest : Counts live (pending + items) between left after) :
    Counts live (pending + 1) unpacker left after

/-- Between the two lie just `count` items with all that is nested in them. -/
inductive SteppedOver : (count : Nat) → Unpacker σ → Unpacker σ → Prop where
  | none (unpacker : Unpacker σ) : SteppedOver 0 unpacker unpacker
  | item {count items : Nat} {unpacker opened between after : Unpacker σ}
    (stepped : perform (Extent.scan unpacker.order) unpacker = (.ok items, opened))
    (nested : SteppedOver items opened between) (rest : SteppedOver count between after) :
    SteppedOver (count + 1) unpacker after

def Walks : Nat → Unpacker σ → Nat → Unpacker σ → Prop := Counts fun _ => True

/-- The same up to the first number that no word has room for. -/
def WalksInWords : Nat → Unpacker σ → Nat → Unpacker σ → Prop := Counts (· < UInt64.size)

/-- A word has room for the number of items still to come, all the way. -/
def Counted (unpacker : Unpacker σ) (pending : Nat) : Prop :=
  ∀ left between, Walks pending unpacker left between → left < UInt64.size

theorem Counts.trans {live : Nat → Prop} {pending left last : Nat} {between : Unpacker σ}
    (first : Counts live pending unpacker left between)
    (second : Counts live left between last after) : Counts live pending unpacker last after := by
  induction first with
  | here => exact second
  | step more stepped _ ih => exact .step more stepped (ih second)

theorem Counts.mono {live other : Nat → Prop} {pending left : Nat}
    (counts : Counts live pending unpacker left after)
    (weaker : ∀ left between, Counts live pending unpacker (left + 1) between → other (left + 1)) :
    Counts other pending unpacker left after := by
  induction counts with
  | here => exact .here _ _
  | step more stepped _ ih =>
    refine .step (weaker _ _ (.here _ _)) stepped (ih fun left between rest => ?_)
    exact weaker left between (.step more stepped rest)

theorem Walks.follow {live : Nat → Prop} {pending left last : Nat} {between : Unpacker σ}
    (walks : Walks pending unpacker left between)
    (counts : Counts live pending unpacker last after) :
    Counts live left between last after ∨ Walks last after left between := by
  induction walks generalizing last with
  | here => exact .inl counts
  | step _ stepped rest ih =>
    cases counts with
    | here => exact .inr (.step trivial stepped rest)
    | step _ again others =>
      rw [stepped] at again
      cases again
      exact ih others

theorem Walks.beside {pending left : Nat} (walks : Walks pending unpacker left after)
    (later : Nat) : Walks (pending + later) unpacker (left + later) after := by
  induction walks with
  | here => exact .here _ _
  | step _ stepped _ ih =>
    rw [Nat.add_right_comm] at ih ⊢
    exact .step trivial stepped ih

theorem SteppedOver.split {front back : Nat} (past : SteppedOver (front + back) unpacker after) :
    ∃ between, SteppedOver front unpacker between ∧ SteppedOver back between after := by
  induction front generalizing unpacker with
  | zero => exact ⟨unpacker, .none unpacker, by rwa [Nat.zero_add] at past⟩
  | succ front ih =>
    rw [Nat.add_right_comm] at past
    cases past with
    | item stepped nested rest =>
      obtain ⟨between, first, second⟩ := ih rest
      exact ⟨between, .item stepped nested first, second⟩

/-- The number comes to nothing just behind the items that it counts. -/
theorem steppedOver_iff {count : Nat} :
    SteppedOver count unpacker after ↔ Walks count unpacker 0 after := by
  constructor
  · intro past
    induction past with
    | none => exact .here _ _
    | item stepped _ _ inner rest =>
      rename_i count items _ _ _ _ _ _
      have opened := inner.beside count
      rw [Nat.zero_add, Nat.add_comm] at opened
      exact .step trivial stepped (opened.trans rest)
  · intro walks
    unfold Walks at walks
    generalize none : (0 : Nat) = left at walks
    induction walks with
    | here => exact none ▸ .none _
    | step _ stepped _ ih =>
      have rest := ih none
      rw [Nat.add_comm] at rest
      obtain ⟨between, nested, later⟩ := rest.split
      exact .item stepped nested later

theorem Walks.le {pending left : Nat} (walks : Walks pending unpacker left after) :
    left + 2 * 0xffffffff * after.supply ≤ pending + 2 * 0xffffffff * unpacker.supply := by
  induction walks with
  | here => exact Nat.le_refl _
  | step _ stepped =>
    have := supply_of_perform_take stepped
    have := yields_perform (Extent.yields_scan _) stepped
    omega

theorem counted_of_lt {pending : Nat}
    (small : pending + 2 * 0xffffffff * unpacker.supply < UInt64.size) :
    unpacker.Counted pending := by
  intro left between walks
  have := walks.le
  omega

/-! ### Skips -/

variable {pending left : Nat}

theorem WalksInWords.walks (walks : WalksInWords pending unpacker left after) :
    Walks pending unpacker left after :=
  walks.mono fun _ _ _ => trivial

theorem WalksInWords.lt (walks : WalksInWords pending unpacker left after)
    (room : left < UInt64.size) : pending < UInt64.size := by
  cases walks with
  | here => exact room
  | step more => exact more

theorem WalksInWords.eq_of_le (walks : WalksInWords pending unpacker left after)
    (large : UInt64.size ≤ pending) : after = unpacker := by
  cases walks with
  | here => rfl
  | step more => exact absurd more (Nat.not_lt_of_le large)

theorem Walks.first (walks : Walks pending unpacker left after) (begun : pending < UInt64.size)
    (large : UInt64.size ≤ left) : ∃ left after, UInt64.size ≤ left ∧
      WalksInWords pending unpacker left after := by
  induction walks with
  | here => exact absurd begun (Nat.not_lt_of_le large)
  | @step pending items _ _ _ _ _ stepped _ ih =>
    by_cases room : pending + items < UInt64.size
    · obtain ⟨last, found, beyond, first⟩ := ih room large
      exact ⟨last, found, beyond, .step begun stepped first⟩
    · exact ⟨_, _, Nat.le_of_not_lt room, .step begun stepped (.here _ _)⟩

theorem walksInWords_zero_iff : WalksInWords pending unpacker 0 after ↔
    SteppedOver pending unpacker after ∧ unpacker.Counted pending := by
  rw [steppedOver_iff]
  constructor
  · refine fun words => ⟨words.walks, fun left between walks => ?_⟩
    rcases walks.follow words with rest | rest
    · exact WalksInWords.lt rest (by decide)
    · cases rest
      decide
  · exact fun ⟨walks, counted⟩ =>
      walks.mono fun _ _ sofar => counted _ _ sofar

theorem skipPending_eq_whole_iff (begun : pending < UInt64.size) :
    unpacker.skipPending pending = (.ok .whole, after) ↔
      WalksInWords pending unpacker 0 after := by
  constructor
  · intro skipped
    fun_induction skipPending pending unpacker with
    | case1 unpacker =>
      cases skipped
      exact .here _ _
    | case2 => cases skipped
    | case3 unpacker pending items between stepped room ih =>
      exact .step begun stepped (ih room skipped)
    | case4 => cases skipped
  · intro walks
    unfold WalksInWords at walks
    generalize none : (0 : Nat) = left at walks
    induction walks with
    | here => rw [← none, skipPending_zero]
    | step _ stepped rest ih =>
      have room := WalksInWords.lt rest (by rw [← none]; decide)
      rw [skipPending_succ, stepped]
      dsimp only
      rw [if_pos room]
      exact ih room none

theorem skipPending_eq_overflow_iff (begun : pending < UInt64.size) :
    unpacker.skipPending pending = (.ok .overflow, after) ↔
      ∃ left, UInt64.size ≤ left ∧ WalksInWords pending unpacker left after := by
  constructor
  · intro skipped
    fun_induction skipPending pending unpacker with
    | case1 => cases skipped
    | case2 => cases skipped
    | case3 unpacker pending items between stepped room ih =>
      obtain ⟨left, beyond, walks⟩ := ih room skipped
      exact ⟨left, beyond, .step begun stepped walks⟩
    | case4 unpacker pending items between stepped full =>
      cases skipped
      exact ⟨_, Nat.le_of_not_lt full, .step begun stepped (.here _ _)⟩
  · rintro ⟨left, beyond, walks⟩
    induction walks with
    | here => exact absurd begun (Nat.not_lt_of_le beyond)
    | @step pending items _ _ _ _ _ stepped rest ih =>
      rw [skipPending_succ, stepped]
      dsimp only
      by_cases room : pending + items < UInt64.size
      · rw [if_pos room]
        exact ih room beyond
      · rw [if_neg room, WalksInWords.eq_of_le rest (Nat.le_of_not_lt room)]

theorem skip_eq_ok_iff {count : UInt64} {skipped : Skipped} :
    unpacker.skip count = (.ok skipped, after) ↔
      unpacker.fault = none ∧
        skipPending count.toNat { unpacker with last := none } = (.ok skipped, after) := by
  obtain ⟨buffer, handler, order, fault, last⟩ := unpacker
  cases fault with
  | some fault =>
    rw [skip, attempt_of_fault rfl]
    simp
  | none =>
    constructor
    · intro skipped
      have made := attempt_eq_ok skipped
      exact ⟨rfl, made⟩
    · rintro ⟨_, skipped⟩
      dsimp only [skip, attempt]
      rw [skipped]
      rfl

/-- Skipping by count. A skip succeeds just where the items that were asked for end, with all that
is nested in them, and where a word has had room all the way for the number of items still to come.
It is aborted just behind the header with which that number first has no room in a word, so it is
aborted somewhere if and only if the number outgrows the words and no fault stands. There is room
while the count and twice what a size field can say for every byte to come go into a word. -/
theorem skip_counts (unpacker : Unpacker σ) (count : UInt64) :
    let begun := { unpacker with last := none }
    (∀ after, unpacker.skip count = (.ok .whole, after) ↔ unpacker.fault = none ∧
      SteppedOver count.toNat begun after ∧ begun.Counted count.toNat) ∧
    (∀ after, unpacker.skip count = (.ok .overflow, after) ↔ unpacker.fault = none ∧
      ∃ left, UInt64.size ≤ left ∧ WalksInWords count.toNat begun left after) ∧
    ((unpacker.skip count).1 = .ok .overflow ↔
      unpacker.fault = none ∧ ¬begun.Counted count.toNat) ∧
    (count.toNat + 2 * 0xffffffff * unpacker.supply < UInt64.size →
      begun.Counted count.toNat) := by
  intro begun
  have word : count.toNat < UInt64.size := count.toNat_lt_size
  have aborts (after : Unpacker σ) : unpacker.skip count = (.ok .overflow, after) ↔
      unpacker.fault = none ∧
        ∃ left, UInt64.size ≤ left ∧ WalksInWords count.toNat begun left after := by
    rw [skip_eq_ok_iff, skipPending_eq_overflow_iff word]
  have supply : begun.supply = unpacker.supply := rfl
  refine ⟨fun after => ?_, aborts, ⟨fun aborted => ?_, fun ⟨clean, past⟩ => ?_⟩, fun room => ?_⟩
  · rw [skip_eq_ok_iff, skipPending_eq_whole_iff word, walksInWords_zero_iff]
  · obtain ⟨clean, left, beyond, words⟩ := (aborts _).mp (Prod.ext aborted rfl)
    exact ⟨clean, fun counted => Nat.not_lt_of_le beyond (counted _ _ words.walks)⟩
  · refine Classical.byContradiction fun other => past fun left between walks => ?_
    refine Nat.lt_of_not_le fun large => other ?_
    obtain ⟨left, after, beyond, words⟩ := walks.first word large
    rw [(aborts after).mpr ⟨clean, left, beyond, words⟩]
  · rw [← supply] at room
    exact counted_of_lt room

/-- An array of an array and a number, with a number behind it. -/
theorem skip_counts_nested :
    let unpacker := ofBytes [0x92, 0x91, 0xc0, 0x01, 0x02] .portable
    let begun := { unpacker with last := none }
    1 + 2 * 0xffffffff * unpacker.supply < UInt64.size ∧ begun.Counted 1 ∧
      ∃ after, unpacker.skip 1 = (.ok .whole, after) ∧ after.offset = 4 ∧
        SteppedOver 1 begun after := by
  intro unpacker begun
  have small : 1 + 2 * 0xffffffff * unpacker.supply < UInt64.size := by decide
  obtain ⟨skips, _, _, room⟩ := unpacker.skip_counts 1
  have counted : begun.Counted 1 := room small
  let reached (place : Nat) := { begun with buffer := begun.buffer.advance place }
  have outer : perform (Extent.scan begun.order) begun = (.ok 2, reached 1) := by cbv
  have inner : perform (Extent.scan begun.order) (reached 1) = (.ok 1, reached 2) := by cbv
  have nil : perform (Extent.scan begun.order) (reached 2) = (.ok 0, reached 3) := by cbv
  have one : perform (Extent.scan begun.order) (reached 3) = (.ok 0, reached 4) := by cbv
  have past : SteppedOver 1 begun (reached 4) :=
    .item outer (.item inner (.item nil (.none _) (.none _)) (.item one (.none _) (.none _)))
      (.none _)
  exact ⟨small, counted, _, (skips _).mpr ⟨rfl, past, counted⟩, rfl, past⟩

/-- All that a count can say, of an array of two. The byte of the array takes one off the counter
and calls for two more, which no word has room for. -/
theorem skip_overflows :
    let unpacker := ofBytes [0x92] .portable
    let begun := { unpacker with last := none }
    let after := { begun with buffer := begun.buffer.advance 1 }
    Walks 0xffffffffffffffff begun UInt64.size after ∧
      unpacker.skip 0xffffffffffffffff = (.ok .overflow, after) := by
  intro unpacker begun after
  have stepped : perform (Extent.scan begun.order) begun = (.ok 2, after) := by cbv
  have words : WalksInWords (0xfffffffffffffffe + 1) begun (0xfffffffffffffffe + 2) after :=
    .step (show 0xfffffffffffffffe + 1 < UInt64.size by decide) stepped (.here _ _)
  refine ⟨words.walks, skip_eq_ok_iff.mpr ⟨rfl, ?_⟩⟩
  exact (skipPending_eq_overflow_iff (by decide)).mpr ⟨_, Nat.le_refl _, words⟩

end Unpacker
end MessagePack
