import MessagePack.Proofs.QuotedTexts

/-! Reading back bytes that are written in hexadecimal. Run together they are all there. A preview
says of all bytes either what they are or how many they are, with one exception: where none are to
be shown, the first one is shown and counted both. -/
namespace MessagePack.Hex

/-! ### Readers -/

def pair? (high low : Char) : Option UInt8 :=
  if high.isAlphanum ∧ low.isAlphanum then byte? (.ofNat high.toNat) (.ofNat low.toNat) else none

def text? : List Char → Option (List UInt8)
  | [] => some []
  | [_] => none
  | high :: low :: chars => do
    let byte ← pair? high low
    let bytes ← text? chars
    return byte :: bytes

/-- The bytes of pairs that are set apart by one space each. -/
def spaced? : List Char → Option (List UInt8)
  | [] => some []
  | [high, low] => (pair? high low).map ([·])
  | high :: low :: ' ' :: next :: chars => do
    let byte ← pair? high low
    let bytes ← spaced? (next :: chars)
    return byte :: bytes
  | _ => none

/-- What is before the first place where `mark` stands, and what is behind it there. -/
def cutAt (mark : List Char) : List Char → List Char × Option (List Char)
  | [] => ([], none)
  | c :: chars =>
    if mark <+: c :: chars then ([], some ((c :: chars).drop mark.length))
    else
      let (front, back) := cutAt mark chars
      (c :: front, back)

def count? (chars : List Char) : Option Nat :=
  let digits := chars.takeWhile Char.isDigit
  if digits ≠ [] ∧ chars.drop digits.length = " more)".toList then
    some (Nat.ofDigitChars 10 digits 0)
  else none

/-- The bytes that a preview shows, and the number that it says of the others if it says one. -/
def preview? (chars : List Char) : Option (List UInt8 × Option Nat) :=
  match cutAt "... (".toList chars with
  | (front, none) => (spaced? front).map (·, none)
  | (front, some back) => do
    let shown ← spaced? front
    let omitted ← count? back
    return (shown, some omitted)

/-- A preview is true of the bytes: it shows as many as it may from the front on, says a number
if and only if there are more, and the number is that of the others. -/
def ShowsOrCounts (bytes : List UInt8) (limit : Nat) : Prop :=
  ∃ shown omitted, preview? (preview bytes limit) = some (shown, omitted) ∧
    shown = bytes.take (min limit bytes.length) ∧
    (omitted.isSome ↔ limit < bytes.length) ∧
    ∀ count, omitted = some count → count + shown.length = bytes.length

/-! ### Reading -/

theorem pair_eq (byte : UInt8) :
    ∃ high low, pair byte = [high, low] ∧ pair? high low = some byte ∧ high ≠ '.' ∧ low ≠ '.' := by
  have all : ∀ n : Fin 256,
      pair? (Nat.digitChar (n / 16)) (Nat.digitChar (n % 16)) = some (.ofFin n) ∧
        Nat.digitChar (n / 16) ≠ '.' ∧ Nat.digitChar (n % 16) ≠ '.' := by decide +kernel
  exact ⟨_, _, rfl, all byte.toFin⟩

theorem text?_text (bytes : List UInt8) : text? (text bytes) = some bytes := by
  induction bytes with
  | nil => rfl
  | cons byte bytes ih =>
    obtain ⟨high, low, digits, value, _⟩ := pair_eq byte
    have whole : text (byte :: bytes) = high :: low :: text bytes := by
      rw [text, List.flatMap_cons, digits]
      rfl
    rw [whole, text?, value, ih]
    rfl

/-- The bytes of a preview without the number behind them. -/
def shown (first : UInt8) (rest : List UInt8) : List Char :=
  pair first ++ rest.flatMap fun byte => ' ' :: pair byte

theorem spaced?_shown (first : UInt8) (rest : List UInt8) :
    spaced? (shown first rest) = some (first :: rest) := by
  induction rest generalizing first with
  | nil =>
    obtain ⟨high, low, digits, value, _⟩ := pair_eq first
    rw [shown, digits]
    exact congrArg (Option.map ([·])) value
  | cons second rest ih =>
    obtain ⟨high, low, digits, value, _⟩ := pair_eq first
    obtain ⟨next, other, more, _⟩ := pair_eq second
    have tail : shown second rest =
        next :: other :: rest.flatMap fun byte => ' ' :: pair byte := by
      rw [shown, more]
      rfl
    have whole : shown first (second :: rest) = high :: low :: ' ' :: shown second rest := by
      rw [shown, digits]
      rfl
    rw [whole, tail, spaced?, ← tail, value, ih]
    rfl

theorem dot_not_mem_shown (first : UInt8) (rest : List UInt8) : '.' ∉ shown first rest := by
  have none_in (byte : UInt8) : '.' ∉ pair byte := by
    obtain ⟨high, low, digits, _, high_ne, low_ne⟩ := pair_eq byte
    simp [digits, high_ne.symm, low_ne.symm]
  simp [shown, none_in]

theorem cutAt_append {front : List Char} (plain : '.' ∉ front) (back : List Char) :
    cutAt "... (".toList (front ++ back) =
      (front ++ (cutAt "... (".toList back).1, (cutAt "... (".toList back).2) := by
  induction front with
  | nil => rfl
  | cons c front ih =>
    obtain ⟨head, tail⟩ := not_or.1 (mt List.mem_cons.2 plain)
    have apart : ¬"... (".toList <+: c :: (front ++ back) := by
      rintro ⟨rest, eq⟩
      exact head (List.cons.inj eq).1
    rw [List.cons_append, cutAt, if_neg apart, ih tail]
    rfl

theorem cutAt_mark (back : List Char) :
    cutAt "... (".toList ("... (".toList ++ back) = ([], some back) := by
  change (if "... (".toList <+: "... (".toList ++ back then _ else _) = _
  rw [if_pos (List.prefix_append _ _)]
  rfl

theorem count?_decimal (n : Nat) : count? (decimal n ++ " more)".toList) = some n := by
  have all (c : Char) (member : c ∈ decimal n) : c.isDigit :=
    Nat.isDigit_of_mem_toDigits (by decide) (by decide) member
  have digits : (decimal n ++ " more)".toList).takeWhile Char.isDigit = decimal n :=
    (List.takeWhile_append_of_pos all).trans (List.append_nil _)
  have value : Nat.ofDigitChars 10 (decimal n) 0 = n := Nat.ofDigitChars_ten_toDigits
  rw [count?, digits, if_pos ⟨Nat.toDigits_ne_nil, List.drop_left⟩, value]

theorem preview?_shown (first : UInt8) (rest : List UInt8) :
    preview? (shown first rest) = some (first :: rest, none) := by
  have cut := cutAt_append (dot_not_mem_shown first rest) []
  rw [List.append_nil] at cut
  rw [preview?, cut]
  simp only [cutAt, List.append_nil, spaced?_shown]
  rfl

theorem preview?_counted (first : UInt8) (rest : List UInt8) (n : Nat) :
    preview? (shown first rest ++ ("... (".toList ++ (decimal n ++ " more)".toList))) =
      some (first :: rest, some n) := by
  have cut := cutAt_append (dot_not_mem_shown first rest)
    ("... (".toList ++ (decimal n ++ " more)".toList))
  rw [cutAt_mark, List.append_nil] at cut
  rw [preview?, cut]
  simp only [spaced?_shown, count?_decimal]
  rfl

/-- The first byte is written ahead of the others, so the limit takes one byte at least. -/
theorem preview?_preview (bytes : List UInt8) (limit : Nat) :
    preview? (preview bytes limit) = some (bytes.take (max 1 limit),
      if limit < bytes.length then some (bytes.length - limit) else none) := by
  cases bytes with
  | nil => simp; rfl
  | cons first rest =>
    have front : (first :: rest).take (max 1 limit) = first :: rest.take (limit - 1) := by
      rw [show max 1 limit = limit - 1 + 1 by omega, List.take_succ_cons]
    rw [front, preview]
    change preview? (shown first (rest.take (limit - 1)) ++ _) = _
    split
    · rw [List.append_assoc]
      exact preview?_counted _ _ _
    · rw [List.append_nil]
      exact preview?_shown _ _

/-- What is read back from a preview is the front of the bytes and the number of those behind the
limit. So the preview is true of the bytes, unless the limit is zero and there are any. From the
pairs that are run together all the bytes are read back. -/
theorem previews_read_back (bytes : List UInt8) (limit : Nat) :
    preview? (preview bytes limit) = some (bytes.take (max 1 limit),
        if limit < bytes.length then some (bytes.length - limit) else none) ∧
      (ShowsOrCounts bytes limit ↔ (limit = 0 → bytes = [])) ∧
      (text bytes).length = 2 * bytes.length ∧ text? (text bytes) = some bytes := by
  have read := preview?_preview bytes limit
  refine ⟨read, ⟨?_, fun may_show => ?_⟩, length_text bytes, text?_text bytes⟩
  · rintro ⟨shown, omitted, told, eq, _⟩ rfl
    obtain ⟨rfl, _⟩ := Prod.mk.inj (Option.some.inj (read.symm.trans told))
    simpa using congrArg List.length eq
  · have positive : limit = 0 → bytes.length = 0 := fun zero => by simp [may_show zero]
    have front : bytes.take (max 1 limit) = bytes.take (min limit bytes.length) := by
      rw [List.take_eq_take_iff]
      omega
    refine ⟨_, _, read, front, by split <;> simp [*], fun count eq => ?_⟩
    have ⟨more, number⟩ : limit < bytes.length ∧ bytes.length - limit = count := by
      simpa using eq
    rw [List.length_take]
    omega

/-- One byte of which none is to be shown is shown all the same, and then counted as omitted. -/
theorem preview_untold : ¬ShowsOrCounts [0xab] 0 := by
  rintro ⟨shown, omitted, read, eq, _⟩
  have actual : preview? (preview [0xab] 0) = some ([0xab], some 1) := by decide +kernel
  rw [actual] at read
  obtain ⟨rfl, _⟩ := Prod.mk.inj (Option.some.inj read)
  exact absurd eq (by decide)

end MessagePack.Hex
