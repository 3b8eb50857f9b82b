import MessagePack.Buffer.Region

/-! What the slices of a region show after a write, a move and a change of size. A write
shows in the slices that it falls into and in no other, so a buffer may be described by
the slices that it holds and never by its cells. -/
namespace MessagePack.Region

theorem length_slice (region : Region) (low high : Nat) :
    (region.slice low high).length = min high region.size - low := by
  rw [slice_eq, List.length_take, List.length_drop, length_toList]
  omega

theorem length_slice_of_le {region : Region} {low high : Nat} (h : high ≤ region.size) :
    (region.slice low high).length = high - low := by
  rw [length_slice, Nat.min_eq_left h]

theorem slice_of_le {region : Region} {low high : Nat} (h : high ≤ low) :
    region.slice low high = [] := by
  rw [slice_eq, Nat.sub_eq_zero_of_le h, List.take_zero]

@[simp] theorem slice_self (region : Region) (position : Nat) :
    region.slice position position = [] := slice_of_le (Nat.le_refl _)

theorem slice_append_slice (region : Region) {low mid high : Nat} (lower : low ≤ mid)
    (upper : mid ≤ high) :
    region.slice low mid ++ region.slice mid high = region.slice low high := by
  obtain ⟨a, rfl⟩ := Nat.exists_eq_add_of_le lower
  obtain ⟨b, rfl⟩ := Nat.exists_eq_add_of_le upper
  have right : low + a + b - (low + a) = b := by omega
  have whole : low + a + b - low = a + b := by omega
  simp only [slice_eq, right, whole, Nat.add_sub_cancel_left]
  rw [List.take_add, List.drop_drop]

theorem drop_slice (region : Region) {low mid high : Nat} (lower : low ≤ mid) (upper : mid ≤ high)
    (inside : high ≤ region.size) :
    (region.slice low high).drop (mid - low) = region.slice mid high := by
  rw [← slice_append_slice region lower upper]
  exact List.drop_left' (length_slice_of_le (Nat.le_trans upper inside))

theorem take_slice (region : Region) {low mid high : Nat} (lower : low ≤ mid) (upper : mid ≤ high)
    (inside : high ≤ region.size) :
    (region.slice low high).take (mid - low) = region.slice low mid := by
  rw [← slice_append_slice region lower upper]
  exact List.take_left' (length_slice_of_le (Nat.le_trans upper inside))

theorem slice_slice (region : Region) (first : Nat) {low high last : Nat}
    (inside : low + last ≤ high) :
    ((region.slice low high).drop first).take (last - first) =
      region.slice (low + first) (low + last) := by
  have rest : min (last - first) (high - low - first) = last - first := by omega
  have span : low + last - (low + first) = last - first := by omega
  simp only [slice_eq, List.drop_take, List.take_take, List.drop_drop, rest, span]

theorem slice_overwrite_before {region : Region} {low high position : Nat} {new : List UInt8}
    (room : position + new.length ≤ region.size) (before : high ≤ position) :
    (region.overwrite position new).slice low high = region.slice low high := by
  have inside : high ≤ (region.toList.take position).length := by
    rw [List.length_take, length_toList]; omega
  rw [slice_eq, slice_eq, toList_overwrite room, List.append_assoc]
  by_cases order : low ≤ high
  · rw [List.drop_append_of_le_length (by omega),
      List.take_append_of_le_length (by rw [List.length_drop]; omega), List.drop_take,
      List.take_take]
    congr 1
    omega
  · rw [Nat.sub_eq_zero_of_le (by omega), List.take_zero, List.take_zero]

theorem slice_overwrite_after {region : Region} {low high position : Nat} {new : List UInt8}
    (room : position + new.length ≤ region.size) (after : position + new.length ≤ low) :
    (region.overwrite position new).slice low high = region.slice low high := by
  have front : (region.toList.take position ++ new).length = position + new.length := by
    rw [List.length_append, List.length_take, length_toList]; omega
  rw [slice_eq, slice_eq, toList_overwrite room, List.drop_append, front,
    List.drop_eq_nil_of_le (by omega), List.nil_append, List.drop_drop]
  congr 2
  omega

theorem slice_overwrite_self {region : Region} {position : Nat} {new : List UInt8}
    (room : position + new.length ≤ region.size) :
    (region.overwrite position new).slice position (position + new.length) = new := by
  have front : (region.toList.take position).length = position := by
    rw [List.length_take, length_toList]; omega
  rw [slice_eq, toList_overwrite room, List.append_assoc, List.drop_left' front,
    Nat.add_sub_cancel_left, List.take_left' rfl]

theorem slice_overwrite {region : Region} {low high position : Nat} {new : List UInt8}
    (lower : low ≤ position) (upper : position + new.length ≤ high) (inside : high ≤ region.size) :
    (region.overwrite position new).slice low high =
      region.slice low position ++ new ++ region.slice (position + new.length) high := by
  have room : position + new.length ≤ region.size := by omega
  rw [← slice_append_slice _ (Nat.le_add_right position new.length |> Nat.le_trans lower) upper,
    ← slice_append_slice _ lower (Nat.le_add_right position new.length),
    slice_overwrite_before room (Nat.le_refl _), slice_overwrite_self room,
    slice_overwrite_after room (Nat.le_refl _)]

theorem slice_move {region : Region} {low high target : Nat} (order : low ≤ high)
    (inside : high ≤ region.size) (left : target ≤ low) :
    (region.move low high target).slice target (target + (high - low)) = region.slice low high := by
  have length : (region.slice low high).length = high - low := length_slice_of_le inside
  simp only [move]
  conv => lhs; rw [← length]
  exact slice_overwrite_self (by rw [length]; omega)

@[simp] theorem ceiling_move (region : Region) (low high target : Nat) :
    (region.move low high target).ceiling = region.ceiling := ceiling_overwrite ..

theorem slice_move_front {region : Region} {low high first last : Nat} (order : low ≤ high)
    (inside : high ≤ region.size) (bound : low + last ≤ high) :
    (region.move low high 0).slice first last = region.slice (low + first) (low + last) := by
  have moved := slice_move order inside (Nat.zero_le low)
  have within : 0 + last ≤ 0 + (high - low) := by omega
  have part := slice_slice (region.move low high 0) first within
  rw [moved, slice_slice region first bound, Nat.zero_add, Nat.zero_add] at part
  exact part.symm

theorem move_self {region : Region} {low high : Nat} (order : low ≤ high)
    (inside : high ≤ region.size) : region.move low high low = region := by
  have length : (region.slice low high).length = high - low := length_slice_of_le inside
  have cells : (region.move low high low).toList = region.toList := by
    rw [move, toList_overwrite (by omega), length, slice_eq, List.append_assoc,
      ← List.drop_drop, List.take_append_drop, List.take_append_drop]
  have bytes : (region.move low high low).bytes = region.bytes := Array.toList_inj.mp cells
  have ceiling := ceiling_move region low high low
  cases h : region.move low high low
  cases region
  simp_all

theorem toList_resize? {region grown : Region} {count : Nat}
    (h : region.resize? count = some grown) (larger : region.size ≤ count) :
    ∃ added, grown.toList = region.toList ++ added := by
  unfold resize? at h
  split at h
  · cases h
    have same : count = region.bytes.size := Nat.le_antisymm ‹_› larger
    exact ⟨[], by simp [toList, same]⟩
  · split at h
    · cases h
      exact ⟨_, Array.toList_append⟩
    · cases h

theorem slice_resize? {region grown : Region} {count low high : Nat}
    (h : region.resize? count = some grown) (larger : region.size ≤ count)
    (inside : high ≤ region.size) : grown.slice low high = region.slice low high := by
  obtain ⟨added, grows⟩ := toList_resize? h larger
  rw [slice_eq, slice_eq, grows]
  by_cases order : low ≤ high
  · rw [List.drop_append_of_le_length (by rw [length_toList]; omega),
      List.take_append_of_le_length (by rw [List.length_drop, length_toList]; omega)]
  · rw [Nat.sub_eq_zero_of_le (by omega), List.take_zero, List.take_zero]

theorem ceiling_resize? {region grown : Region} {size : Nat}
    (h : region.resize? size = some grown) : grown.ceiling = region.ceiling := by
  unfold resize? at h
  split at h
  · cases h; rfl
  · split at h <;> cases h
    rfl

theorem resize?_isSome {region : Region} {size : Nat} (h : size ≤ region.ceiling) :
    (region.resize? size).isSome := by
  simp only [resize?, if_pos h]
  split <;> rfl

end MessagePack.Region
