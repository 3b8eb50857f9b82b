import MessagePack.Proofs.DumpLines

/-! Reading back the texts of a dump. A reader that knows nothing of how they were written
undoes the escapes one after another and stops at the first quote that is not escaped. It meets
the text again, and behind its quotes all that came after them. So no text can end its own
quotes, and no two texts are printed alike. -/
namespace MessagePack

namespace Hex

/-- The value of a digit, which may be a small letter or a capital. -/
def digit? (c : UInt8) : Option UInt8 :=
  if 0x30 ≤ c ∧ c ≤ 0x39 then some (c - 0x30)
  else if 0x61 ≤ c ∧ c ≤ 0x66 then some (c - 0x57)
  else if 0x41 ≤ c ∧ c ≤ 0x46 then some (c - 0x37)
  else none

def byte? (high low : UInt8) : Option UInt8 := do
  let high ← digit? high
  let low ← digit? low
  return 16 * high + low

theorem byte?_pair (byte : UInt8) :
    ∃ high low, ascii (pair byte) = [high, low] ∧ byte? high low = some byte := by
  have all : ∀ n : Fin 256, byte? (.ofNat (Nat.digitChar (n / 16)).toNat)
      (.ofNat (Nat.digitChar (n % 16)).toNat) = some (.ofFin n) := by decide +kernel
  exact ⟨_, _, rfl, all byte.toFin⟩

end Hex

namespace Quoted

/-- The byte that a letter behind a backslash stands for. -/
def named? : UInt8 → Option UInt8
  | 0x22 => some 0x22
  | 0x5c => some 0x5c
  | 0x62 => some 0x08
  | 0x66 => some 0x0c
  | 0x6e => some 0x0a
  | 0x72 => some 0x0d
  | 0x74 => some 0x09
  | _ => none

def prepend (byte? : Option UInt8) (read : Option (List UInt8 × List UInt8)) :
    Option (List UInt8 × List UInt8) := do
  let byte ← byte?
  let (bytes, rest) ← read
  return (byte :: bytes, rest)

/-- Reads from behind a quote up to the next one that is not escaped, and answers what
is behind that too. -/
def read? : List UInt8 → Option (List UInt8 × List UInt8)
  | [] => none
  | 0x22 :: text => some ([], text)
  | 0x5c :: 0x75 :: 0x30 :: 0x30 :: high :: low :: text =>
    prepend (Hex.byte? high low) (read? text)
  | 0x5c :: letter :: text => prepend (named? letter) (read? text)
  | byte :: text => prepend (some byte) (read? text)

theorem read?_plain {byte : UInt8} (open' : byte ≠ 0x22) (plain : byte ≠ 0x5c) (text : List UInt8) :
    read? (byte :: text) = prepend (some byte) (read? text) := by
  rw [read?]
  · exact open'
  · rintro _ _ _ rfl
    exact absurd rfl plain
  · rintro _ _ rfl
    exact absurd rfl plain

theorem read?_letter {letter : UInt8} (named : (named? letter).isSome) (text : List UInt8) :
    read? (0x5c :: letter :: text) = prepend (named? letter) (read? text) := by
  rw [read?]
  rintro _ _ _ rfl
  cases named

theorem named?_letter {byte : UInt8} {letter : Char} (found : letter? byte = some letter) :
    named? (.ofNat letter.toNat) = some byte := by
  unfold letter? at found
  split at found <;> cases found <;> rfl

/-- One step of the reader: whatever a byte is written as, it is read as that byte. -/
theorem read?_escape (byte : UInt8) (text : List UInt8) :
    read? (escape byte ++ text) = prepend (some byte) (read? text) := by
  unfold escape
  split
  · next letter found =>
    have named := named?_letter found
    exact (read?_letter (named ▸ rfl) text).trans (congrArg (prepend · _) named)
  · next none =>
    split
    · obtain ⟨high, low, digits, value⟩ := Hex.byte?_pair byte
      rw [ascii_append, digits]
      exact congrArg (prepend · _) value
    · refine read?_plain ?_ ?_ text
      · rintro rfl
        cases none
      · rintro rfl
        cases none

theorem read?_quoted (bytes rest : List UInt8) :
    read? (bytes.flatMap escape ++ quote :: rest) = some (bytes, rest) := by
  induction bytes with
  | nil => rfl
  | cons byte bytes ih => rw [List.flatMap_cons, List.append_assoc, read?_escape, ih]; rfl

theorem prepend_eq_some {byte? : Option UInt8} {read : Option (List UInt8 × List UInt8)}
    {bytes rest : List UInt8} (joined : prepend byte? read = some (bytes, rest)) :
    ∃ byte others, byte? = some byte ∧ read = some (others, rest) ∧ bytes = byte :: others := by
  obtain _ | byte := byte?
  · cases joined
  obtain _ | ⟨others, rest⟩ := read
  · cases joined
  cases joined
  exact ⟨byte, others, rfl, rfl, rfl⟩

theorem read?_append {text bytes rest : List UInt8} (read : read? text = some (bytes, rest))
    (more : List UInt8) : read? (text ++ more) = some (bytes, rest ++ more) := by
  fun_induction read? text generalizing bytes with
  | case1 => cases read
  | case2 text =>
    cases read
    rfl
  | case3 high low text ih =>
    obtain ⟨byte, others, value, inner, rfl⟩ := prepend_eq_some read
    show prepend (Hex.byte? high low) (read? (text ++ more)) = _
    rw [value, ih inner]
    rfl
  | case4 letter text _ ih =>
    obtain ⟨byte, others, named, inner, rfl⟩ := prepend_eq_some read
    rw [List.cons_append, List.cons_append, read?_letter (named ▸ rfl), named, ih inner]
    rfl
  | case5 byte text open' _ plain ih =>
    obtain ⟨_, others, ⟨⟩, inner, rfl⟩ := prepend_eq_some read
    by_cases last : byte = 0x5c
    · cases text with
      | nil => cases inner
      | cons letter text => exact absurd rfl (plain letter text last)
    · rw [List.cons_append, read?_plain open' last, ih inner]
      rfl

theorem read?_front {front back bytes : List UInt8} (left : back ≠ [])
    (whole : read? (front ++ back) = some (bytes, [])) : read? front = none := by
  match early : read? front with
  | none => rfl
  | some (others, rest) =>
    have later := read?_append early back
    rw [whole] at later
    have behind : [] = rest ++ back := congrArg Prod.snd (Option.some.inj later)
    exact absurd (List.append_eq_nil_iff.mp behind.symm).2 left

theorem encode_append_inj {bytes others rest behind : List UInt8}
    (alike : encode others ++ behind = encode bytes ++ rest) : others = bytes ∧ behind = rest := by
  simp only [encode, List.cons_append, List.append_assoc, List.nil_append] at alike
  have read := congrArg read? (List.cons.inj alike).2
  rw [read?_quoted, read?_quoted] at read
  exact Prod.mk.inj (Option.some.inj read)

end Quoted

namespace Dump

open Quoted

/-- A printer that has written a text has written all of it, which nothing but its output
can keep it from. -/
theorem Printer.write_whole (printer : Printer) (text : List UInt8) :
    (printer.output.Accepts → (printer.write text).1 = .ok ()) ∧
      ((printer.write text).1 = .ok () →
        (printer.write text).2.output.received.toList =
          printer.output.received.toList ++ text) := by
  have takes := printer.output.takes_writeAll text
  have accepted := fun accepts : printer.output.Accepts => (accepts.writeAll text).1
  unfold Printer.write
  generalize printer.output.writeAll text = result at takes accepted
  rcases result with ⟨refusal | _, output⟩
  · refine ⟨fun accepts => ?_, nofun⟩
    cases accepted accepts
  · exact ⟨fun _ => rfl, fun _ => takes.whole rfl⟩

/-- A text is printed as a quote and a body. From behind the quote a reader finds the text
in the body, whatever comes after it, and no control character; it does not stop before the end
of the body. Where a text is printed as another one is, it is that one. -/
theorem texts_read_back (bytes : List UInt8) :
    ∃ body : List UInt8,
      (∀ (printer : Printer) (level : Nat),
        (printer.output.Accepts → (printer.printItem level (.str bytes)).1 = .ok ()) ∧
        ((printer.printItem level (.str bytes)).1 = .ok () →
          (printer.printItem level (.str bytes)).2.output.received.toList =
            printer.output.received.toList ++ quote :: body)) ∧
      (∀ rest, read? (body ++ rest) = some (bytes, rest)) ∧
      Clear body ∧
      (∀ front back, front ++ back = body → back ≠ [] → read? front = none) ∧
      (∀ rest others behind, scalar (.str others) ++ behind = quote :: body ++ rest →
        others = bytes ∧ behind = rest) := by
  have reads (rest : List UInt8) :
      read? (bytes.flatMap escape ++ [quote] ++ rest) = some (bytes, rest) := by
    rw [List.append_assoc]
    exact read?_quoted bytes rest
  have whole : read? (bytes.flatMap escape ++ [quote]) = some (bytes, []) := read?_quoted bytes []
  refine ⟨bytes.flatMap escape ++ [quote], fun printer _ => printer.write_whole (encode bytes),
    reads, fun byte within => clear_encode bytes byte (.tail _ within), ?_,
    fun _ _ _ => encode_append_inj⟩
  rintro front back split left
  rw [← split] at whole
  exact read?_front left whole

example : read? (asciiString "a\\\"b\\\\\\n\\u0001\"c") =
    some ([0x61, 0x22, 0x62, 0x5c, 0x0a, 0x01], [0x63]) := by decide

end Dump
end MessagePack
