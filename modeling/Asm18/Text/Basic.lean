/-! Text is a list of bytes. A source file may hold any bytes at all, so nothing is assumed of
them; the program's own wording enters as the UTF-8 bytes of string literals. -/
namespace Asm18

abbrev Text := List UInt8

/-- The UTF-8 bytes of a string. -/
def utf8 (s : String) : Text := s.toList.flatMap String.utf8EncodeChar

namespace Text

def newline : UInt8 := 0x0A

def carriageReturn : UInt8 := 0x0D

/-- The text without one carriage return at its end. -/
def chomp (t : Text) : Text := if t.getLast? = some carriageReturn then t.dropLast else t

@[simp] theorem chomp_nil : chomp [] = [] := rfl

@[simp] theorem chomp_append_carriageReturn (t : Text) : chomp (t ++ [carriageReturn]) = t := by
  simp [chomp]

/-- A carriage return is cut off where there is one, and nothing else is. -/
theorem chomp_cases (t : Text) :
    t = t.chomp ++ [carriageReturn] ∨ t = t.chomp ∧ t.getLast? ≠ some carriageReturn := by
  by_cases h : t.getLast? = some carriageReturn
  · obtain ⟨u,rfl⟩ := List.getLast?_eq_some_iff.1 h
    left
    rw [chomp_append_carriageReturn]
  · right
    rw [chomp, if_neg h]
    exact ⟨rfl,h⟩

theorem chomp_subset (t : Text) : chomp t ⊆ t := by
  unfold chomp
  split
  · exact (List.dropLast_sublist _).subset
  · exact List.Subset.refl _

/-- The pieces joined by newlines, with none after the last. -/
def unlines (pieces : List Text) : Text := [newline].intercalate pieces

/-- The text closed by a newline. -/
def line (t : Text) : Text := t ++ [newline]

@[simp] theorem length_line (t : Text) : (line t).length = t.length + 1 := by simp [line]

end Text
end Asm18
