import MessagePack.Text.Ascii

/-! Bytes as pairs of hexadecimal digits: run together, or set apart for a preview that
shows the first bytes of a long run and says how many it leaves out. -/
namespace MessagePack.Hex

def pair (byte : UInt8) : List Char :=
  [Nat.digitChar (byte.toNat / 16), Nat.digitChar (byte.toNat % 16)]

def text (bytes : List UInt8) : List Char := bytes.flatMap pair

/-- The first `max` bytes, but never none of several. The rest is only counted; the count
is taken off the length by `max` itself. -/
def preview (bytes : List UInt8) (max : Nat) : List Char :=
  match bytes with
  | [] => []
  | first :: rest =>
    let omitted :=
      if max < bytes.length then
        "... (".toList ++ decimal (bytes.length - max) ++ " more)".toList
      else []
    pair first ++ (rest.take (max - 1)).flatMap (fun byte => ' ' :: pair byte) ++ omitted

@[simp] theorem length_pair (byte : UInt8) : (pair byte).length = 2 := rfl

@[simp] theorem length_text (bytes : List UInt8) : (text bytes).length = 2 * bytes.length := by
  induction bytes with
  | nil => rfl
  | cons byte bytes ih =>
    rw [show text (byte :: bytes) = pair byte ++ text bytes by simp [text]]
    simp only [List.length_append, length_pair, ih, List.length_cons]
    omega

end MessagePack.Hex
