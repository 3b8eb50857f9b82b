import Mathlib.Algebra.Group.Nat.Defs
import Mathlib.Order.Bounds.Basic
import MessagePack.Proofs.PackedBytes
import MessagePack.Proofs.InputWindow

/-! Growth. An output buffer is doubled as often as it takes and no more often, in a loop that ends
since it runs out of words if it does not run out of need. An input buffer is doubled once at a
time and goes no further than what is asked for, so that asking again and again comes there.
Both keep what they hold where it is, and a refusal leaves them as they were. -/
namespace MessagePack

theorem double_mul_pow (size rounds : Nat) : 2 * size * 2 ^ rounds = size * 2 ^ (rounds + 1) := by
  rw [Nat.pow_succ', ← Nat.mul_assoc, Nat.mul_comm 2 size]

namespace Region

/-- One region is the other with zeros behind it. -/
structure Extends (before after : Region) : Prop where
  size_le : before.size ≤ after.size
  contents : after.toList = before.toList ++ .replicate (after.size - before.size) 0
  ceiling : after.ceiling = before.ceiling

theorem Extends.refl (region : Region) : region.Extends region :=
  ⟨Nat.le_refl _, by simp, rfl⟩

theorem Extends.trans {before between after : Region} (first : before.Extends between)
    (second : between.Extends after) : before.Extends after where
  size_le := Nat.le_trans first.size_le second.size_le
  contents := by
    have lower := first.size_le
    have upper := second.size_le
    have sum : between.size - before.size + (after.size - between.size) =
        after.size - before.size := by omega
    rw [second.contents, first.contents, List.append_assoc, List.replicate_append_replicate, sum]
  ceiling := second.ceiling.trans first.ceiling

theorem extends_of_resize? {region grown : Region} {count : Nat}
    (granted : region.resize? count = some grown) (larger : region.size ≤ count) :
    region.Extends grown := by
  have size := size_resize? granted
  refine ⟨by omega, ?_, ceiling_resize? granted⟩
  rw [size]
  unfold resize? at granted
  split at granted
  · cases granted
    have same : count = region.size := Nat.le_antisymm ‹_› larger
    simp [toList, Region.size, same]
  · split at granted
    · cases granted
      simp [toList]
    · cases granted

theorem resize?_self (region : Region) : region.resize? region.size = some region := by
  simp [resize?, size]

end Region

namespace Outgoing

theorem doubled_of_le {required size : Nat} (enough : required ≤ size) :
    doubled required size = size := by
  rw [doubled, if_neg (by omega)]

theorem doubled_of_lt {required size : Nat} (positive : 0 < size) (short : size < required) :
    doubled required size = doubled required (2 * size) := by
  rw [doubled, if_pos (And.intro positive short)]

/-- Sizes are doubled until one of them is enough; this takes the least number of doublings. -/
theorem doubled_eq_pow (required : Nat) {size : Nat} (positive : 0 < size) :
    ∃ rounds, IsLeast {rounds | required ≤ size * 2 ^ rounds} rounds ∧
      doubled required size = size * 2 ^ rounds := by
  fun_induction doubled required size with
  | case1 size more ih =>
    obtain ⟨rounds, ⟨enough, least⟩, same⟩ := ih (by omega)
    rw [double_mul_pow] at same
    refine ⟨rounds + 1, ⟨?_, fun others reach => ?_⟩, same⟩
    · exact (double_mul_pow size rounds).subst enough
    · cases others with
      | zero =>
        have short : size < required := more.2
        exact absurd reach (by simpa using short)
      | succ others =>
        have again := double_mul_pow size others
        exact Nat.succ_le_succ (least (again.symm.subst reach))
  | case2 size done =>
    have enough : required ≤ size := by omega
    exact ⟨0, ⟨by simpa using enough, fun _ _ => Nat.zero_le _⟩, by simp⟩

/-! ### Doubling on a machine -/

/-- The loop on words. Every doubling is checked, and after `rounds` tests it is cut off, with
nothing to show. -/
def doubling? (required : Nat) : (rounds size : Nat) → Option (Except Fault Nat)
  | 0, _ => none
  | rounds + 1, size =>
    if required ≤ size then some (.ok size)
    else if Position.modulus ≤ 2 * size then some (.error .allocationError)
    else doubling? required rounds (2 * size)

def growFor? (rounds : Nat) (buffer : Outgoing) (needed : Nat) : Option (Status × Outgoing) :=
  if Position.modulus ≤ buffer.current + needed then some (.error .allocationError, buffer)
  else
    (doubling? (buffer.current + needed) rounds (max buffer.stop 1)).map fun
      | .ok size => if size = buffer.stop then (.ok (), buffer) else buffer.resize size
      | .error fault => (.error fault, buffer)

theorem doubling?_of_end {required size : Nat} (positive : 0 < size)
    (word : size < Position.modulus) (last : required ≤ size ∨ Position.modulus ≤ 2 * size)
    (rounds : Nat) :
    doubling? required (rounds + 1) size =
      some (if Position.modulus ≤ doubled required size then .error .allocationError
        else .ok (doubled required size)) := by
  rw [doubling?]
  by_cases enough : required ≤ size
  · rw [if_pos enough, doubled_of_le enough, if_neg (by omega)]
  · have beyond : Position.modulus ≤ 2 * size := last.resolve_left enough
    have double : 0 < 2 * size := by omega
    have larger := (doubled_bounds required double).2.1
    rw [if_neg enough, if_pos beyond, doubled_of_lt positive (by omega), if_pos (by omega)]

/-- Doublings past the top of the words are not missed: there is a last test before them. -/
theorem doubling?_eq {required rounds size : Nat} (positive : 0 < size)
    (word : size < Position.modulus) (long : Position.modulus ≤ size * 2 ^ (rounds + 1)) :
    doubling? required (rounds + 1) size =
      some (if Position.modulus ≤ doubled required size then .error .allocationError
        else .ok (doubled required size)) := by
  induction rounds generalizing size with
  | zero => exact doubling?_of_end positive word (.inr (by omega)) 0
  | succ rounds ih =>
    by_cases last : required ≤ size ∨ Position.modulus ≤ 2 * size
    · exact doubling?_of_end positive word last (rounds + 1)
    · rw [not_or] at last
      rw [doubling?, if_neg last.1, if_neg last.2, doubled_of_lt positive (by omega)]
      refine ih (by omega) (by omega) ?_
      rwa [double_mul_pow]

theorem growFor?_eq {buffer : Outgoing} (word : buffer.stop < Position.modulus) (needed : Nat) :
    buffer.growFor? 64 needed = some (buffer.growFor needed) := by
  have large : 1 < Position.modulus := by decide
  have long : Position.modulus ≤ max buffer.stop 1 * 2 ^ 64 :=
    Nat.le_mul_of_pos_left _ (by omega)
  have ends : doubling? (buffer.current + needed) 64 (max buffer.stop 1) = _ :=
    doubling?_eq (by omega) (by omega) long
  simp only [growFor?, growFor]
  by_cases wide : Position.modulus ≤ buffer.current + needed
  · rw [if_pos wide, if_pos (.inl wide)]
  · rw [if_neg wide, ends, Option.map_some]
    by_cases beyond :
        Position.modulus ≤ doubled (buffer.current + needed) (max buffer.stop 1)
    · rw [if_pos beyond, if_pos (.inr beyond)]
    · rw [if_neg beyond, if_neg (by omega)]

/-- Growth to `size` cannot be had: the sum or the size is no word, or it is more than the
allocator grants. -/
def Refused (buffer : Outgoing) (needed size : Nat) : Prop :=
  Position.modulus ≤ buffer.current + needed ∨ Position.modulus ≤ size ∨
    buffer.region.resize? size = none

/-- Growth for `needed` bytes, with the number of doublings that it takes. -/
structure Grows (buffer : Outgoing) (needed rounds : Nat) : Prop where
  least : IsLeast {rounds | buffer.current + needed ≤ max buffer.stop 1 * 2 ^ rounds} rounds
  ends : buffer.stop < Position.modulus →
    buffer.growFor? 64 needed = some (buffer.growFor needed)
  granted : ¬buffer.Refused needed (max buffer.stop 1 * 2 ^ rounds) →
    ∃ region, buffer.growFor needed = (.ok (), { buffer with region }) ∧
      buffer.region.Extends region ∧ region.size = max buffer.stop 1 * 2 ^ rounds ∧
      needed ≤ ({ buffer with region } : Outgoing).remaining
  refused : buffer.Refused needed (max buffer.stop 1 * 2 ^ rounds) →
    buffer.growFor needed = (.error .allocationError, buffer)

/-- A region that is large enough is no exception: it is made as large as it is. -/
theorem growFor_eq_resize (buffer : Outgoing) (needed : Nat) :
    buffer.growFor needed =
      if Position.modulus ≤ buffer.current + needed ∨
          Position.modulus ≤ doubled (buffer.current + needed) (max buffer.stop 1) then
        (.error .allocationError, buffer)
      else buffer.resize (doubled (buffer.current + needed) (max buffer.stop 1)) := by
  simp only [growFor]
  split
  · rfl
  · split
    · next same =>
      have still : buffer.region.resize? buffer.stop = some buffer.region :=
        buffer.region.resize?_self
      simp only [same, resize, still]
    · rfl

theorem grows (buffer : Outgoing) (needed : Nat) : ∃ rounds, buffer.Grows needed rounds := by
  have positive : 0 < max buffer.stop 1 := by omega
  obtain ⟨rounds, least, size⟩ := doubled_eq_pow (buffer.current + needed) positive
  have enough : buffer.current + needed ≤ max buffer.stop 1 * 2 ^ rounds := least.1
  have larger : buffer.stop ≤ max buffer.stop 1 * 2 ^ rounds :=
    Nat.le_trans (Nat.le_max_left _ _) (Nat.le_mul_of_pos_right _ (Nat.two_pow_pos _))
  have grown := buffer.growFor_eq_resize needed
  rw [size] at grown
  refine ⟨rounds, least, fun word => growFor?_eq word needed, fun free => ?_, fun refused => ?_⟩
  · unfold Refused at free
    rw [not_or, not_or] at free
    obtain ⟨narrow, within, some⟩ := free
    obtain ⟨region, resized⟩ := Option.ne_none_iff_exists'.mp some
    have length := Region.size_resize? resized
    rw [if_neg (not_or.mpr ⟨narrow, within⟩)] at grown
    simp only [resize, resized] at grown
    have room : needed ≤ region.size - buffer.current := by omega
    exact ⟨region, grown, Region.extends_of_resize? resized larger, length, room⟩
  · rw [grown]
    split
    · rfl
    · next word =>
      have none := (refused.resolve_left fun wide => word (.inl wide)).resolve_left
        fun beyond => word (.inr beyond)
      simp only [resize, none]

end Outgoing

namespace Incoming

/-- Growth asked for again and again, as long as it is granted. -/
def growOften (needed : Nat) : (calls : Nat) → Incoming → Status × Incoming
  | 0, buffer => (.ok (), buffer)
  | calls + 1, buffer =>
    match buffer.growToward needed with
    | (.ok _, grown) => growOften needed calls grown
    | refused => refused

def aim (buffer : Incoming) (needed : Nat) : Nat :=
  min (2 * max buffer.capacity 1) (buffer.current + needed)

/-- Growth for `needed` bytes cannot be had: there is no such position, or more is called for than
the allocator grants. -/
def Refused (buffer : Incoming) (needed : Nat) : Prop :=
  Position.modulus ≤ buffer.current + needed ∨
    buffer.capacity < buffer.current + needed ∧
      buffer.region.resize? (buffer.aim needed) = none

/-- Growth for `needed` bytes, once and again. -/
structure Grows (buffer : Incoming) (needed : Nat) : Prop where
  enough : buffer.current + needed ≤ buffer.capacity → buffer.capacity < Position.modulus →
    buffer.growToward needed = (.ok (), buffer)
  granted : ¬buffer.Refused needed → buffer.capacity < buffer.current + needed →
    ∃ region, buffer.growToward needed = (.ok (), { buffer with region }) ∧
      buffer.region.Extends region ∧ region.size = buffer.aim needed ∧
      buffer.capacity < region.size
  refused : buffer.Refused needed → buffer.growToward needed = (.error .allocationError, buffer)
  /-- Also where a call is refused in the end. -/
  keeps : ∀ calls, ∃ region, (growOften needed calls buffer).2 = { buffer with region } ∧
    buffer.region.Extends region
  reaches : (growOften needed 64 buffer).1 = .ok () →
    buffer.current + needed ≤ (growOften needed 64 buffer).2.capacity
  allowed : buffer.current + needed < Position.modulus →
    buffer.current + needed ≤ buffer.region.ceiling →
      ∀ calls, (growOften needed calls buffer).1 = .ok ()

section

variable {buffer : Incoming} {needed : Nat}

theorem growToward_of_refused (refused : buffer.Refused needed) :
    buffer.growToward needed = (.error .allocationError, buffer) := by
  unfold growToward
  dsimp only
  split
  · rfl
  · next word =>
    obtain ⟨short, none⟩ := refused.resolve_left word
    rw [if_neg (Nat.not_le_of_lt short)]
    simp only [aim] at none
    rw [none]

theorem growToward_of_enough (enough : buffer.current + needed ≤ buffer.capacity)
    (word : buffer.current + needed < Position.modulus) :
    buffer.growToward needed = (.ok (), buffer) := by
  simp only [growToward, if_neg (Nat.not_le_of_lt word), if_pos enough]

theorem growToward_of_short (free : ¬buffer.Refused needed)
    (short : buffer.capacity < buffer.current + needed) :
    ∃ region, buffer.growToward needed = (.ok (), { buffer with region }) ∧
      buffer.region.Extends region ∧ region.size = buffer.aim needed ∧
      buffer.capacity < region.size := by
  unfold Refused at free
  rw [not_or, not_and] at free
  obtain ⟨word, some⟩ := free
  obtain ⟨region, resized⟩ := Option.ne_none_iff_exists'.mp (some short)
  have size := Region.size_resize? resized
  have larger : buffer.capacity < buffer.aim needed := by
    unfold aim
    omega
  refine ⟨region, ?_, Region.extends_of_resize? resized (Nat.le_of_lt larger), size, by omega⟩
  simp only [aim] at resized
  simp only [growToward, if_neg word, if_neg (Nat.not_le_of_lt short), resized]

theorem growToward_of_free (free : ¬buffer.Refused needed) :
    ∃ region, buffer.growToward needed = (.ok (), { buffer with region }) ∧
      buffer.region.Extends region ∧ buffer.aim needed ≤ region.size := by
  by_cases enough : buffer.current + needed ≤ buffer.capacity
  · have within : buffer.aim needed ≤ buffer.capacity := Nat.le_trans (Nat.min_le_right _ _) enough
    have word : buffer.current + needed < Position.modulus :=
      Nat.lt_of_not_le fun wide => free (.inl wide)
    exact ⟨buffer.region, growToward_of_enough enough word, .refl _, within⟩
  · obtain ⟨region, grown, extends', size, _⟩ := growToward_of_short free (by omega)
    exact ⟨region, grown, extends', Nat.le_of_eq size.symm⟩

/-! ### Call after call -/

theorem growOften_of_refused (refused : buffer.Refused needed) (calls : Nat) :
    growOften needed (calls + 1) buffer = (.error .allocationError, buffer) := by
  simp only [growOften, growToward_of_refused refused]

theorem growOften_keeps (buffer : Incoming) (needed calls : Nat) :
    ∃ region, (growOften needed calls buffer).2 = { buffer with region } ∧
      buffer.region.Extends region := by
  induction calls generalizing buffer with
  | zero => exact ⟨buffer.region, rfl, .refl _⟩
  | succ calls ih =>
    by_cases refused : buffer.Refused needed
    · exact ⟨buffer.region, by rw [growOften_of_refused refused], .refl _⟩
    · obtain ⟨region, grown, first, _⟩ := growToward_of_free refused
      obtain ⟨last, same, others⟩ := ih { buffer with region }
      refine ⟨last, ?_, first.trans others⟩
      simp only [growOften, grown, same]

theorem min_double_le {size required grown : Nat} (reach : min (2 * size) required ≤ grown)
    (rounds : Nat) :
    min (size * 2 ^ (rounds + 1)) required ≤ min (grown * 2 ^ rounds) required := by
  refine Nat.le_min.mpr ⟨?_, Nat.min_le_right _ _⟩
  by_cases capped : required ≤ grown
  · calc min (size * 2 ^ (rounds + 1)) required
      _ ≤ required := Nat.min_le_right _ _
      _ ≤ grown := capped
      _ ≤ grown * 2 ^ rounds := Nat.le_mul_of_pos_right _ (Nat.two_pow_pos _)
  · have doubled : 2 * size ≤ grown := by omega
    calc min (size * 2 ^ (rounds + 1)) required
      _ ≤ size * 2 ^ (rounds + 1) := Nat.min_le_left _ _
      _ = 2 * size * 2 ^ rounds := (double_mul_pow size rounds).symm
      _ ≤ grown * 2 ^ rounds := Nat.mul_le_mul_right _ doubled

theorem free_of_growOften {calls : Nat}
    (ok : (growOften needed (calls + 1) buffer).1 = .ok ()) : ¬buffer.Refused needed := by
  intro refused
  rw [growOften_of_refused refused] at ok
  cases ok

/-- Each call that is granted doubles the region, or brings it to what is asked for. -/
theorem growOften_reaches {calls : Nat}
    (ok : (growOften needed (calls + 1) buffer).1 = .ok ()) :
    min (max buffer.capacity 1 * 2 ^ (calls + 1)) (buffer.current + needed) ≤
      (growOften needed (calls + 1) buffer).2.capacity := by
  induction calls generalizing buffer with
  | zero =>
    obtain ⟨region, grown, _, reach⟩ := growToward_of_free (free_of_growOften ok)
    simp only [growOften, grown, Nat.zero_add, Nat.pow_one, Nat.mul_comm _ 2]
    exact reach
  | succ calls ih =>
    obtain ⟨region, grown, _, reach⟩ := growToward_of_free (free_of_growOften ok)
    rw [growOften, grown] at ok ⊢
    have reach : min (2 * max buffer.capacity 1) (buffer.current + needed) ≤
        max region.size 1 := Nat.le_trans reach (Nat.le_max_left _ _)
    exact Nat.le_trans (min_double_le reach (calls + 1)) (ih ok)

theorem growOften_allowed (word : buffer.current + needed < Position.modulus)
    (grants : buffer.current + needed ≤ buffer.region.ceiling) (calls : Nat) :
    (growOften needed calls buffer).1 = .ok () := by
  induction calls generalizing buffer with
  | zero => rfl
  | succ calls ih =>
    have free : ¬buffer.Refused needed := by
      rintro (wide | ⟨_, none⟩)
      · omega
      · have aim := Nat.min_le_right (2 * max buffer.capacity 1) (buffer.current + needed)
        have some := Region.resize?_isSome (Nat.le_trans aim grants)
        simp only [Incoming.aim] at none
        rw [none] at some
        cases some
    obtain ⟨region, grown, extends', _⟩ := growToward_of_free free
    rw [growOften, grown]
    exact ih word (by rw [extends'.ceiling]; exact grants)

theorem grows (buffer : Incoming) (needed : Nat) : buffer.Grows needed where
  enough inside word := growToward_of_enough inside (Nat.lt_of_le_of_lt inside word)
  granted := growToward_of_short
  refused := growToward_of_refused
  keeps := growOften_keeps buffer needed
  reaches ok := by
    have word : buffer.current + needed < Position.modulus :=
      Nat.lt_of_not_le fun wide => free_of_growOften ok (.inl wide)
    -- A word has been filled by then, however small the region was.
    have long : Position.modulus ≤ max buffer.capacity 1 * 2 ^ 64 :=
      Nat.le_mul_of_pos_left _ (by omega)
    have reach : min (max buffer.capacity 1 * 2 ^ 64) (buffer.current + needed) ≤
        (growOften needed 64 buffer).2.capacity := growOften_reaches ok
    omega
  allowed := growOften_allowed

end

end Incoming

/-- Growth. Whatever is asked of a buffer, and however large it is: an output buffer has as many
bytes free when its loop ends, by the least number of doublings, or is as it was; an input buffer
gets longer with every call until it is long enough, which it is after as many calls as a word has
bits. All that is in them is where it was, and a refusal is due to the size or to the allocator. -/
theorem growth_reaches :
    (∀ (buffer : Outgoing) (needed : Nat), ∃ rounds, buffer.Grows needed rounds) ∧
      (∀ (buffer : Incoming) (needed : Nat), buffer.Grows needed) :=
  ⟨Outgoing.grows, Incoming.grows⟩

/-- A barrier and three bytes in a region of four, and a region of none. -/
theorem growth_reaches_nine :
    let packed : Outgoing := ⟨⟨#[1, 2, 3, 0], 64⟩, 0, 3, some 1, none⟩
    let fresh : Incoming := .ofCapacity 0
    (∃ rounds, packed.Grows 9 rounds) ∧ fresh.Grows 9 ∧
      (packed.growFor 9).2.region.toList = [1, 2, 3, 0] ++ .replicate 12 0 ∧
      (Incoming.growOften 9 4 fresh).2.capacity = 9 ∧
      packed.growFor 62 = (.error .allocationError, packed) ∧
      packed.growFor 0xffffffffffffffff = (.error .allocationError, packed) := by
  intro packed fresh
  obtain ⟨outgoing, incoming⟩ := growth_reaches
  obtain ⟨rounds, large⟩ := outgoing packed 62
  obtain ⟨_, wide⟩ := outgoing packed 0xffffffffffffffff
  have beyond : packed.region.ceiling < 4 * 2 ^ rounds := large.least.1
  have above : packed.region.size < 4 * 2 ^ rounds := Nat.lt_trans (by decide) beyond
  have none : packed.region.resize? (4 * 2 ^ rounds) = none := by
    rw [Region.resize?, if_neg (Nat.not_le_of_lt above), if_neg (Nat.not_le_of_lt beyond)]
  exact ⟨outgoing packed 9, incoming fresh 9, by decide +kernel, by decide +kernel,
    large.refused (.inr (.inr none)), wide.refused (.inl (by decide))⟩

end MessagePack
