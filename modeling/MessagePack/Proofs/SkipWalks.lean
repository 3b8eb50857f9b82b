import MessagePack.Proofs.StreamArrival
import MessagePack.Proofs.ItemExtents
import MessagePack.Proofs.DocumentTrees

/-! Walking over items by reading them. A walk counts the items that are still to come, in
a number without bounds, and reads one after another. Skipping goes the same way without
reading, in a counter that is a word, and comes out at the same place as long as no sizes
that the input can announce are too much for the counter. -/
namespace MessagePack

namespace Unpacker

variable [Inlet σ]

def walk (count : Nat) (unpacker : Unpacker σ) : Status × Unpacker σ :=
  match count with
  | 0 => (.ok (), unpacker)
  | count + 1 =>
    match _step : unpacker.next with
    | (.error fault, after) => (.error fault, after)
    | (.ok item, after) => walk (count + item.nested) after
termination_by unpacker.supply
decreasing_by exact supply_next_lt _step

theorem walk_succ (count : Nat) (unpacker : Unpacker σ) :
    unpacker.walk (count + 1) =
      match unpacker.next with
      | (.error fault, after) => (.error fault, after)
      | (.ok item, after) => after.walk (count + item.nested) := by
  rw [walk]
  split <;> rename_i step <;> rw [step]

/-- Skipping comes out where the walk does, and gives up for the same cause, unless that is
a timestamp of no known form. -/
def SkipsAsWalked (count : UInt64) (unpacker : Unpacker σ) : Prop :=
  match unpacker.walk count.toNat with
  | (.ok _, after) =>
    (unpacker.skip count).1 = .ok .whole ∧ (unpacker.skip count).2.offset = after.offset
  | (.error fault, _) => fault ≠ .wrongTimestampLength → (unpacker.skip count).1 = .error fault

end Unpacker

namespace Reading

theorem next_eq_ok {reading after : Reading} {item : Item}
    (h : reading.next = (.ok item, after)) :
    reading.perform (Item.scan reading.order) = (.ok item, after) := by
  cases failed : reading.fault with
  | some fault =>
    rw [next, attempt, failed] at h
    cases h
  | none =>
    rw [next, attempt_of_clean failed] at h
    generalize reading.perform (Item.scan reading.order) = result at h
    rcases result with ⟨fault | item, between⟩
    · cases h
    · exact h

theorem next_eq_error {reading after : Reading} {fault : Fault} (clean : reading.fault = none)
    (h : reading.next = (.error fault, after)) :
    (reading.perform (Item.scan reading.order)).1 = .error fault := by
  rw [next, attempt_of_clean clean] at h
  have answered := congrArg Prod.fst h
  rwa [fst_settle] at answered

theorem length_rest_next_lt {reading after : Reading} {item : Item}
    (h : reading.next = (.ok item, after)) : after.rest.length < reading.rest.length :=
  length_rest_lt (next_eq_ok h)

theorem nested_le {reading after : Reading} {item : Item}
    (h : reading.next = (.ok item, after)) : item.nested ≤ 2 * 0xffffffff := by
  obtain ⟨answered, _⟩ := Prod.mk.inj (next_eq_ok h)
  have fits : item.header.Fits := (Item.obeys_scan reading.order).read (Prod.ext answered rfl)
  cases item with
  | array size => exact Nat.le_trans (Nat.le_of_lt_succ fits) (by decide)
  | map size => exact Nat.mul_le_mul_left 2 (Nat.le_of_lt_succ fits)
  | _ => exact Nat.zero_le _

def walk (count : Nat) (reading : Reading) : Status × Reading :=
  match count with
  | 0 => (.ok (), reading)
  | count + 1 =>
    match _step : reading.next with
    | (.error fault, after) => (.error fault, after)
    | (.ok item, after) => walk (count + item.nested) after
termination_by reading.rest.length
decreasing_by exact length_rest_next_lt _step

theorem walk_succ (count : Nat) (reading : Reading) :
    reading.walk (count + 1) =
      match reading.next with
      | (.error fault, after) => (.error fault, after)
      | (.ok item, after) => after.walk (count + item.nested) := by
  rw [walk]
  split <;> rename_i step <;> rw [step]

theorem step_of_next {reading after : Reading} {item : Item}
    (h : reading.next = (.ok item, after)) :
    reading.perform (Extent.scan reading.order) = (.ok item.nested, after) := by
  obtain ⟨answered, rfl⟩ := Prod.mk.inj (next_eq_ok h)
  have covers := Extent.covers_scan reading.order reading.closing reading.rest
  generalize (Item.scan reading.order).read reading.closing reading.rest = result
    at answered covers ⊢
  obtain ⟨answer, taken⟩ := result
  dsimp only at answered
  subst answered
  simp only [perform]
  rw [covers]

theorem step_of_next_error {reading after : Reading} {fault : Fault} (clean : reading.fault = none)
    (h : reading.next = (.error fault, after)) (other : fault ≠ .wrongTimestampLength) :
    (reading.perform (Extent.scan reading.order)).1 = .error fault := by
  have answered := next_eq_error clean h
  have covers := Extent.covers_scan reading.order reading.closing reading.rest
  simp only [perform] at answered ⊢
  generalize (Item.scan reading.order).read reading.closing reading.rest = result at answered covers
  obtain ⟨answer, taken⟩ := result
  dsimp only at answered ⊢
  subst answered
  exact covers.resolve_left other

/-- The counter of the items to come and the bytes that are left bound one another. -/
theorem skipPending_of_walk {reading : Reading} (clean : reading.fault = none) {count : Nat}
    (bound : count + 2 * 0xffffffff * reading.rest.length < UInt64.size) :
    match reading.walk count with
    | (.ok _, after) => reading.skipPending count = (.ok .whole, after)
    | (.error fault, _) =>
      fault ≠ .wrongTimestampLength → (reading.skipPending count).1 = .error fault := by
  induction count, reading using walk.induct with
  | case1 reading =>
    rw [walk]
    exact reading.skipPending_zero
  | case2 reading count fault after failed =>
    rw [walk_succ, failed]
    intro other
    have step := step_of_next_error clean failed other
    rw [skipPending_succ]
    generalize reading.perform (Extent.scan reading.order) = result at step ⊢
    rcases result with ⟨_, between⟩
    dsimp only at step
    subst step
    rfl
  | case3 reading count item after stepped ih =>
    have shorter := length_rest_next_lt stepped
    have nested := nested_le stepped
    have stays : after.fault = none := by
      obtain ⟨_, rfl⟩ := Prod.mk.inj (next_eq_ok stepped)
      exact clean
    rw [walk_succ, stepped, skipPending_succ, step_of_next stepped]
    dsimp only
    rw [if_pos (by omega)]
    exact ih stays (by omega)

end Reading

theorem Unpacker.Follows.walk [Inlet σ] [Feed σ] {unpacker : Unpacker σ} {reading : Reading}
    (follows : unpacker.Follows reading) (count : Nat) :
    Agrees (unpacker.walk count) (reading.walk count) := by
  induction count, unpacker using Unpacker.walk.induct generalizing reading with
  | case1 unpacker =>
    rw [Unpacker.walk, Reading.walk]
    exact ⟨rfl, follows⟩
  | case2 unpacker count fault between failed =>
    have agrees := follows.next
    rw [failed] at agrees
    rw [Unpacker.walk_succ, Reading.walk_succ, failed]
    generalize reading.next = expected at agrees ⊢
    obtain ⟨answer, after⟩ := expected
    obtain ⟨rfl, stays⟩ := agrees
    exact ⟨rfl, stays⟩
  | case3 unpacker count item between stepped ih =>
    have agrees := follows.next
    rw [stepped] at agrees
    rw [Unpacker.walk_succ, Reading.walk_succ, stepped]
    generalize reading.next = expected at agrees ⊢
    obtain ⟨answer, after⟩ := expected
    obtain ⟨rfl, stays⟩ := agrees
    exact ih stays

/-! ### Skipping trees -/

theorem Tree.nested_item (tree : Tree) : tree.item.nested = tree.children.length := by
  cases tree with
  | leaf scalar => cases scalar <;> rfl
  | array elements => rfl
  | map entries =>
    change 2 * entries.length = (entries.flatMap fun entry => [entry.1, entry.2]).length
    induction entries with
    | nil => rfl
    | cons entry entries ih =>
      rw [List.flatMap_cons, List.length_append, ← ih]
      simp only [List.length_cons, List.length_nil]
      omega

theorem Scan.Reads.step {order : ByteOrder} {bytes : List UInt8} {item : Item}
    (reads : (Item.scan order).Reads bytes item) :
    (Extent.scan order).Reads bytes item.nested := by
  intro closing rest
  have covers := Extent.covers_scan order closing (bytes ++ rest)
  rwa [reads closing rest] at covers

theorem Scan.Reads.length_pos {order : ByteOrder} {bytes : List UInt8} {item : Item}
    (reads : (Item.scan order).Reads bytes item) : 0 < bytes.length :=
  Scan.le_of_read_take (reads .endOfInput [])

theorem Tree.length_le (order : ByteOrder) {forest : List Tree}
    (fits : ∀ tree ∈ forest, tree.Fits) :
    forest.length ≤ (forest.flatMap (bytes order)).length := by
  induction forest with
  | nil => exact Nat.le_refl _
  | cons tree forest ih =>
    have rest := ih fun tree member => fits tree (List.mem_cons_of_mem _ member)
    have some := (reads_opening (fits tree List.mem_cons_self).size_lt order).length_pos
    rw [List.flatMap_cons, List.length_append, List.length_cons, bytes_eq, List.length_append]
    omega

/-- Trees that lie ahead are stepped over with all that is in them. The counter is the
number of the trees that are still to come, siblings and children together, and these have
a byte each at least. -/
theorem Reading.skipPending_forest {reading : Reading} {forest : List Tree} {more : List UInt8}
    (fits : ∀ tree ∈ forest, tree.Fits)
    (ahead : reading.rest = forest.flatMap (Tree.bytes reading.order) ++ more)
    (size : (forest.flatMap (Tree.bytes reading.order)).length < UInt64.size) :
    reading.skipPending forest.length =
      (.ok .whole, reading.advance (forest.flatMap (Tree.bytes reading.order)).length) := by
  generalize count : (forest.flatMap Tree.nodes).length = total
  induction total generalizing reading forest with
  | zero =>
    cases forest with
    | nil => exact reading.skipPending_zero
    | cons tree forest =>
      rw [List.flatMap_cons, Tree.nodes_eq] at count
      simp at count
  | succ total ih =>
    cases forest with
    | nil => cases count
    | cons tree forest =>
      have own := fits tree List.mem_cons_self
      have every : ∀ tree' ∈ tree.children ++ forest, tree'.Fits := by
        intro child member
        rcases List.mem_append.mp member with inside | beside
        · exact own.children inside
        · exact fits child (List.mem_cons_of_mem _ beside)
      have below := Tree.length_le reading.order every
      have split : (tree :: forest).flatMap (Tree.bytes reading.order) =
          tree.opening reading.order ++
            (tree.children ++ forest).flatMap (Tree.bytes reading.order) := by
        rw [List.flatMap_cons, Tree.bytes_eq, List.flatMap_append, List.append_assoc]
      rw [split] at ahead size ⊢
      rw [List.append_assoc] at ahead
      have step := perform_of_reads (Tree.reads_opening own.size_lt reading.order).step ahead
      have counter : forest.length + tree.children.length = (tree.children ++ forest).length := by
        rw [List.length_append, Nat.add_comm]
      rw [List.length_cons, skipPending_succ, step, tree.nested_item]
      have total : (tree.opening reading.order ++
          (tree.children ++ forest).flatMap (Tree.bytes reading.order)).length = _ :=
        List.length_append
      dsimp only
      rw [total] at size
      rw [counter, if_pos (by omega), total, ← advance_advance]
      refine ih every ?_ (Nat.lt_of_le_of_lt (Nat.le_add_left _ _) size) ?_
      · rw [rest_advance, ahead, List.drop_left]
        rfl
      · rw [List.flatMap_cons, Tree.nodes_eq] at count
        rw [List.flatMap_append, List.length_append]
        rw [List.length_append, List.length_cons] at count
        omega

namespace Unpacker

variable [Inlet σ] [Feed σ] {unpacker : Unpacker σ} {reading : Reading}

theorem Follows.skipsAsWalked (follows : unpacker.Follows reading) (clean : reading.fault = none)
    {count : UInt64}
    (bound : count.toNat + 2 * 0xffffffff * reading.rest.length < UInt64.size) :
    unpacker.SkipsAsWalked count := by
  obtain ⟨after, walked, stays⟩ := (follows.walk count.toNat).split
  have skipped := follows.skip count
  have flat := Reading.skipPending_of_walk clean bound
  rw [Reading.skip, Reading.attempt_of_clean clean] at skipped
  rw [SkipsAsWalked, walked]
  generalize reading.walk count.toNat = expected at stays flat ⊢
  rcases expected with ⟨fault | _, after'⟩
  · intro other
    rw [skipped.1, Reading.fst_settle]
    exact flat other
  · dsimp only at flat ⊢
    rw [flat] at skipped
    exact ⟨skipped.1, skipped.2.offset.trans stays.offset.symm⟩

theorem Follows.skip_tree (follows : unpacker.Follows reading) (clean : reading.fault = none)
    {tree : Tree} {more : List UInt8} (fits : tree.Fits)
    (ahead : reading.rest = tree.bytes reading.order ++ more)
    (size : (tree.bytes reading.order).length < UInt64.size) :
    (unpacker.skip 1).1 = .ok .whole ∧
      (unpacker.skip 1).2.offset = reading.position + (tree.bytes reading.order).length := by
  have alone : [tree].flatMap (Tree.bytes reading.order) = tree.bytes reading.order := by simp
  have flat : reading.skipPending (1 : UInt64).toNat =
      (.ok .whole, reading.advance (tree.bytes reading.order).length) := by
    have forest : reading.skipPending [tree].length = _ :=
      Reading.skipPending_forest (by simpa using fits) (by rw [alone]; exact ahead)
        (by rw [alone]; exact size)
    rwa [alone] at forest
  have skipped := follows.skip 1
  rw [Reading.skip, Reading.attempt_of_clean clean, flat] at skipped
  exact ⟨skipped.1, skipped.2.offset⟩

/-- Skipping. It comes out where a walk that reads every item comes out, and gives up for
the cause that the walk gives up for; a tree is stepped over to the first byte behind it. -/
theorem skip_agrees_with_walk {order : ByteOrder} (native : order.verify = .ok ()) :
    (∀ (whole : List UInt8) (count : UInt64),
      count.toNat + 2 * 0xffffffff * whole.length < 0x10000000000000000 →
      OnEverySource whole order Region.addressSpace fun _ _ unpacker =>
        unpacker.SkipsAsWalked count) ∧
    ∀ (tree : Tree) (more : List UInt8) (ceiling : Nat), tree.Fits →
      (tree.bytes order ++ more).length ≤ longest →
      2 * max (tree.bytes order ++ more).length 1 ≤ ceiling →
      OnEverySource (tree.bytes order ++ more) order ceiling fun _ _ unpacker =>
        (unpacker.skip 1).1 = .ok .whole ∧
          (unpacker.skip 1).2.offset = (tree.bytes order).length := by
  have clean (whole : List UInt8) : (Reading.start whole .endOfInput order).fault = none := by
    rw [Reading.start, native]
  constructor
  · intro whole count bound
    have roomy : Roomy whole Region.addressSpace :=
      roomy_of_le (by unfold longest; omega) (by unfold Region.addressSpace; omega)
    apply onEverySource roomy
    intro σ _ _ unpacker follows
    exact follows.skipsAsWalked (clean whole) bound
  · intro tree more ceiling fits size allocation
    apply onEverySource (roomy_of_le size allocation)
    intro σ _ _ unpacker follows
    have length : (tree.bytes order).length ≤ (tree.bytes order ++ more).length := by simp
    have landed := follows.skip_tree (clean _) fits rfl
      (Nat.lt_of_le_of_lt (Nat.le_trans length size) (by decide))
    rwa [Reading.start, Nat.zero_add] at landed

/-- A tree of every kind of node, with a byte behind it. -/
theorem skip_agrees_with_walk_nested :
    let whole : List UInt8 := [0x92, 0xc0, 0x81, 0xa1, 0x6b, 0x01, 0xc3]
    (ofBytes whole .portable).SkipsAsWalked 2 ∧
      ((ofBytes whole .portable).skip 1).2.offset = 6 := by
  let key : Tree := .leaf (.str [0x6b] (by decide))
  let tree : Tree := .array [.leaf .nil, .map [(key, .leaf (.unsigned 1))]]
  have fits : tree.Fits := by decide
  obtain ⟨walked, landed⟩ :=
    skip_agrees_with_walk (rfl : ByteOrder.portable.verify = .ok ())
  exact ⟨(walked _ 2 (by decide)).1, (landed tree [0xc3] 14 fits (by decide) (by decide)).1.2⟩

end Unpacker
end MessagePack
