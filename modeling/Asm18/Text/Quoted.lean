import Asm18.Text.Numeral
import Asm18.Text.Printable
import Asm18.Text.Utf8

/-! Quoted text. Printable characters stand as they are, but for the quote and the backslash; all
else is written as an escape, and so is a byte that belongs to no well-formed character. -/
namespace Asm18.Text

/-- The escape of a character that is not printable. -/
def escapeControl (n : Nat) : Text :=
  if n = 0x07 then utf8 "\\a"
  else if n = 0x08 then utf8 "\\b"
  else if n = 0x09 then utf8 "\\t"
  else if n = 0x0A then utf8 "\\n"
  else if n = 0x0B then utf8 "\\v"
  else if n = 0x0C then utf8 "\\f"
  else if n = 0x0D then utf8 "\\r"
  else if n < 0x20 ∨ n = 0x7F then utf8 "\\x" ++ hexLower 2 n
  else if n < 0x10000 then utf8 "\\u" ++ hexLower 4 n
  else utf8 "\\U" ++ hexLower 8 n

def escapeChar (quote c : Char) : Text :=
  if c = quote ∨ c = '\\' then utf8 "\\" ++ String.utf8EncodeChar c
  else if isPrintable c then String.utf8EncodeChar c
  else escapeControl c.toNat

def escape (quote : Char) (t : Text) : Text :=
  match t with
  | [] => []
  | b :: rest =>
    match _h : decodeChar? (b :: rest) with
    | some (c,next) => escapeChar quote c ++ escape quote next
    | none => utf8 "\\x" ++ hexLower 2 b.toNat ++ escape quote rest
termination_by t.length
decreasing_by
  · exact decodeChar?_length _h
  · simp

/-- The text between double quotes. -/
def quoted (t : Text) : Text := [0x22] ++ escape '\"' t ++ [0x22]

/-- A byte between single quotes, as the character whose code it is. -/
def quotedByte (b : UInt8) : Text := [0x27] ++ escapeChar '\'' (Char.ofNat b.toNat) ++ [0x27]

end Asm18.Text
