import Asm18.Text.Basic

/-! Reading characters off UTF-8 text. A character is well-formed if its encoding is what stands in
the text, which leaves out overlong forms, surrogates and what lies beyond the last code point. -/
namespace Asm18.Text

/-- The length of the encoding that starts with a byte. -/
def charWidth (b : UInt8) : Nat :=
  if b < 0x80 then 1 else if b < 0xE0 then 2 else if b < 0xF0 then 3 else 4

/-- The bits of a first byte that belong to the code point. -/
def leadBits (b : UInt8) : Nat :=
  if b < 0x80 then b.toNat
  else if b < 0xE0 then b.toNat % 32
  else if b < 0xF0 then b.toNat % 16
  else b.toNat % 8

def codePoint (lead : UInt8) (tail : Text) : Nat :=
  tail.foldl (fun n b => n * 64 + b.toNat % 64) (leadBits lead)

/-- The character at the front and what follows it. -/
def decodeChar? : Text → Option (Char × Text)
  | [] => none
  | b :: rest =>
    let tail := rest.take (charWidth b - 1)
    let c := Char.ofNat (codePoint b tail)
    if String.utf8EncodeChar c = b :: tail then some (c,rest.drop (charWidth b - 1)) else none

theorem decodeChar?_length {t rest : Text} {c : Char} (h : decodeChar? t = some (c,rest)) :
    rest.length < t.length := by
  cases t with
  | nil => cases h
  | cons b t =>
    simp only [decodeChar?, Option.ite_none_right_eq_some, Option.some.injEq, Prod.mk.injEq] at h
    rw [← h.2.2, List.length_drop, List.length_cons]
    omega

end Asm18.Text
