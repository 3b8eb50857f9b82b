import MessagePack.Unpack.Skip

/-! What a scan makes of bytes that all lie there: its answer, and how many of them it
takes before it has one. `Obeys` bounds what a scan asks for at once and says what it
answers; lengths and sizes are fields of four bytes at most, so no request is larger than
`Scan.largest`. -/
namespace MessagePack

namespace Scan

/-- What a request ends in when the input has too few bytes for it and its handler says
`closing` there. -/
def shortfall (closing : Fault) (leading : Bool) : Fault :=
  if closing = .endOfInput then shortage leading else closing

def read (closing : Fault) : Scan α → List UInt8 → Except Fault α × Nat
  | .done value, _ => (.ok value, 0)
  | .fail fault, _ => (.error fault, 0)
  | .take count leading next, bytes =>
    if count ≤ bytes.length then
      let rest := (next (bytes.take count)).read closing (bytes.drop count)
      (rest.1, count + rest.2)
    else (.error (shortfall closing leading), 0)

theorem read_bind (closing : Fault) (scan : Scan α) (f : α → Scan β) (bytes : List UInt8) :
    (scan.bind f).read closing bytes =
      match scan.read closing bytes with
      | (.error fault, taken) => (.error fault, taken)
      | (.ok value, taken) =>
        (((f value).read closing (bytes.drop taken)).1,
          taken + ((f value).read closing (bytes.drop taken)).2) := by
  induction scan generalizing bytes with
  | done value => simp [bind, read]
  | fail fault => rfl
  | take count leading next ih =>
    simp only [bind, read]
    split
    · rw [ih]
      generalize (next (bytes.take count)).read closing (bytes.drop count) = result
      obtain ⟨answer, taken⟩ := result
      cases answer with
      | error fault => rfl
      | ok value => simp [List.drop_drop, Nat.add_assoc]
    · rfl

theorem read_le (closing : Fault) (scan : Scan α) (bytes : List UInt8) :
    (scan.read closing bytes).2 ≤ bytes.length := by
  induction scan generalizing bytes with
  | done value => exact Nat.zero_le _
  | fail fault => exact Nat.zero_le _
  | take count leading next ih =>
    simp only [read]
    split
    · have rest := ih (bytes.take count) (bytes.drop count)
      rw [List.length_drop] at rest
      dsimp only
      omega
    · exact Nat.zero_le _

theorem le_of_read_take {closing : Fault} {count taken : Nat} {leading : Bool}
    {next : List UInt8 → Scan α} {bytes : List UInt8} {value : α}
    (h : (Scan.take count leading next).read closing bytes = (.ok value, taken)) :
    count ≤ taken := by
  simp only [read] at h
  split at h
  · obtain ⟨_, rfl⟩ := Prod.mk.inj h
    exact Nat.le_add_right _ _
  · cases h

/-- The largest number of bytes that one request asks for. -/
def largest : Nat := 0x100000000

/-- Every request is for `limit` bytes at most, and every answer is as `post` says. -/
def Obeys (limit : Nat) (post : α → Prop) : Scan α → Prop
  | .done value => post value
  | .fail _ => True
  | .take count _ next => count ≤ limit ∧
      ∀ bytes : List UInt8, bytes.length = count → (next bytes).Obeys limit post

theorem Obeys.bind {limit : Nat} {mid : α → Prop} {post : β → Prop} {scan : Scan α}
    {f : α → Scan β} (first : scan.Obeys limit mid)
    (second : ∀ value, mid value → (f value).Obeys limit post) :
    (scan.bind f).Obeys limit post := by
  induction scan with
  | done value => exact second value first
  | fail fault => trivial
  | take count leading next ih =>
    exact ⟨first.1, fun bytes length => ih bytes (first.2 bytes length)⟩

theorem Obeys.mono {limit : Nat} {mid post : α → Prop} {scan : Scan α}
    (obeys : scan.Obeys limit mid) (weaker : ∀ value, mid value → post value) :
    scan.Obeys limit post := by
  induction scan with
  | done value => exact weaker value obeys
  | fail fault => trivial
  | take count leading next ih =>
    exact ⟨obeys.1, fun bytes length => ih bytes (obeys.2 bytes length)⟩

theorem Obeys.read {limit : Nat} {post : α → Prop} {scan : Scan α} {closing : Fault}
    {bytes : List UInt8} {value : α} {taken : Nat} (obeys : scan.Obeys limit post)
    (h : scan.read closing bytes = (.ok value, taken)) : post value := by
  induction scan generalizing bytes taken with
  | done value => cases h; exact obeys
  | fail fault => cases h
  | take count leading next ih =>
    simp only [Scan.read] at h
    split at h
    · obtain ⟨same, _⟩ := Prod.mk.inj h
      exact ih _ (obeys.2 _ (List.length_take_of_le ‹_›)) (Prod.ext same rfl)
    · cases h

end Scan

theorem wordCount_le {a b : Nat} (h : a ≤ b) : wordCount a ≤ wordCount b := by
  induction h with
  | refl => exact Nat.le_refl _
  | step _ ih => rw [wordCount_succ]; omega

theorem ByteOrder.load_lt (order : ByteOrder) (bytes : List UInt8) :
    order.load bytes < wordCount bytes.length := by
  cases order with
  | little =>
    have := ofBigEndian_lt (toBigEndian bytes.length (Layout.host.load bytes)).reverse
    rwa [List.length_reverse, length_toBigEndian] at this
  | big =>
    have := ofBigEndian_lt bytes.reverse
    rwa [List.length_reverse] at this
  | portable =>
    rw [load, Bytewise.load_eq]
    exact ofBigEndian_lt bytes

theorem Tag.width_le {i j : Nat} (h : i ≤ j) : Tag.width i ≤ Tag.width j := by
  simp only [Tag.width, Nat.shiftLeft_eq, Nat.one_mul]
  exact Nat.pow_le_pow_right (by decide) h

theorem Scan.obeys_field (order : ByteOrder) {width limit : Nat} (h : width ≤ limit) :
    (Scan.field order width).Obeys limit (· < wordCount width) :=
  ⟨h, fun bytes length => by
    have := order.load_lt bytes
    rwa [length] at this⟩

namespace Header

def Fits : Header → Prop
  | .str length | .bin length | .ext _ length => length < 0x100000000
  | .array size | .map size => size < 0x100000000
  | _ => True

theorem obeys_field (order : ByteOrder) {i : Nat} (h : i ≤ 2) :
    (Scan.field order (Tag.width i)).Obeys Scan.largest (· < 0x100000000) := by
  have narrow : Tag.width i ≤ 4 := Tag.width_le h
  exact (Scan.obeys_field order (Nat.le_trans narrow (by decide))).mono fun value below =>
    Nat.lt_of_lt_of_le below (wordCount_le narrow)

theorem obeys_timestamp (order : ByteOrder) (tag : Tag) (length : Nat) :
    (Timestamp.scan order tag length).Obeys Scan.largest fun _ => True := by
  simp only [Timestamp.scan]
  split
  · exact (Scan.obeys_field order (by decide)).bind fun _ _ => trivial
  · exact (Scan.obeys_field order (by decide)).bind fun _ _ => trivial
  · exact ⟨by decide, fun _ _ => trivial⟩
  · trivial

theorem obeys_scanExt (order : ByteOrder) (tag : Tag) {length : Nat} (h : length < 0x100000000) :
    (scanExt order tag length).Obeys Scan.largest Fits := by
  refine ⟨by decide, fun bytes _ => ?_⟩
  dsimp only [Scan.bind]
  split
  · exact (obeys_timestamp order tag length).bind fun _ _ => trivial
  · exact h

theorem obeys_scanAfter (order : ByteOrder) (tag : Tag) :
    (scanAfter order tag).Obeys Scan.largest Fits := by
  cases tag with
  | positive | nil | boolean | negative => trivial
  | reserved => trivial
  | fixMap size => exact Nat.lt_trans size.isLt (by decide)
  | fixArray size => exact Nat.lt_trans size.isLt (by decide)
  | fixStr length => exact Nat.lt_trans length.isLt (by decide)
  | bin i => exact (obeys_field order (by omega)).bind fun _ below => below
  | str i => exact (obeys_field order (by omega)).bind fun _ below => below
  | array i => exact (obeys_field order (by omega)).bind fun _ below => below
  | map i => exact (obeys_field order (by omega)).bind fun _ below => below
  | ext i => exact (obeys_field order (by omega)).bind fun _ below => obeys_scanExt order _ below
  | fixExt i =>
    have narrow : Tag.width i.val ≤ Tag.width 4 := Tag.width_le (by omega)
    exact obeys_scanExt order _ (Nat.lt_of_le_of_lt narrow (by decide))
  | float => exact (Scan.obeys_field order (by decide)).bind fun _ _ => trivial
  | double => exact (Scan.obeys_field order (by decide)).bind fun _ _ => trivial
  | unsigned i =>
    have narrow : Tag.width i.val ≤ Tag.width 3 := Tag.width_le (by omega)
    exact (Scan.obeys_field order (Nat.le_trans narrow (by decide))).bind fun _ _ => trivial
  | signed i =>
    have narrow : Tag.width i.val ≤ Tag.width 3 := Tag.width_le (by omega)
    exact (Scan.obeys_field order (Nat.le_trans narrow (by decide))).bind fun _ _ => trivial

theorem obeys_scan (order : ByteOrder) : (scan order).Obeys Scan.largest Fits :=
  ⟨by decide, fun _ _ => obeys_scanAfter order _⟩

end Header

theorem Item.obeys_scan (order : ByteOrder) :
    (Item.scan order).Obeys Scan.largest fun item => item.header.Fits := by
  apply (Header.obeys_scan order).bind
  intro header fits
  cases header with
  | str length => exact ⟨Nat.le_of_lt fits, fun bytes same => same ▸ fits⟩
  | bin length => exact ⟨Nat.le_of_lt fits, fun bytes same => same ▸ fits⟩
  | ext type length => exact ⟨Nat.le_of_lt fits, fun bytes same => same ▸ fits⟩
  | _ => exact fits

namespace Extent

theorem obeys_scanAfter (order : ByteOrder) (tag : Tag) :
    (scanAfter order tag).Obeys Scan.largest fun extent =>
      extent.bytes ≤ Scan.largest ∧ extent.items ≤ 2 * 0xffffffff := by
  have field {i : Nat} (h : i ≤ 2) {f : Nat → Extent}
      (post : ∀ value, value < 0x100000000 →
        (f value).bytes ≤ Scan.largest ∧ (f value).items ≤ 2 * 0xffffffff) :
      ((Scan.field order (Tag.width i)).bind fun value => .done (f value)).Obeys Scan.largest
        fun extent => extent.bytes ≤ Scan.largest ∧ extent.items ≤ 2 * 0xffffffff :=
    (Header.obeys_field order h).bind post
  have width {i : Nat} (h : i ≤ 4) : Tag.width i ≤ 16 := Tag.width_le h
  simp only [Scan.largest] at *
  cases tag with
  | positive | nil | boolean | negative => exact ⟨Nat.zero_le _, Nat.zero_le _⟩
  | reserved => trivial
  | float | double => exact ⟨by decide, by decide⟩
  | fixMap size => exact ⟨Nat.zero_le _, by have := size.isLt; dsimp only; omega⟩
  | fixArray size => exact ⟨Nat.zero_le _, by have := size.isLt; dsimp only; omega⟩
  | fixStr length => exact ⟨by have := length.isLt; dsimp only; omega, Nat.zero_le _⟩
  | unsigned i | signed i =>
    have := width (i := i.val) (by omega)
    exact ⟨by dsimp only; omega, Nat.zero_le _⟩
  | fixExt i =>
    have := width (i := i.val) (by omega)
    exact ⟨by dsimp only; omega, Nat.zero_le _⟩
  | str i | bin i => exact field (by omega) fun value below => by dsimp only; omega
  | ext i => exact field (by omega) fun value below => by dsimp only; omega
  | array i => exact field (by omega) fun value below => by dsimp only; omega
  | map i => exact field (by omega) fun value below => by dsimp only; omega

theorem obeys_scan (order : ByteOrder) :
    (scan order).Obeys Scan.largest (· ≤ 2 * 0xffffffff) := by
  refine ⟨by decide, fun bytes _ => (obeys_scanAfter order _).bind fun extent bounds => ?_⟩
  split
  · exact bounds.2
  · exact ⟨bounds.1, fun _ _ => bounds.2⟩

end Extent
end MessagePack
