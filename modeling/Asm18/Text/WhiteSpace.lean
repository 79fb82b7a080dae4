import Asm18.Text.Basic

/-! Unicode white space in UTF-8 text. A byte that belongs to no well-formed character is not
white space. -/
namespace Asm18.Text

/-- The characters with the property White_Space. -/
def whiteSpace : List Char :=
  [' ', '\t', '\n', '\x0b', '\x0c', '\r', '\u0085', '\u00a0', '\u1680', '\u2000', '\u2001',
    '\u2002', '\u2003', '\u2004', '\u2005', '\u2006', '\u2007', '\u2008', '\u2009', '\u200a',
    '\u2028', '\u2029', '\u202f', '\u205f', '\u3000']

/-- What follows the first text in the second, if it stands at the front. -/
def after? : Text → Text → Option Text
  | [], t => some t
  | _ :: _, [] => none
  | b :: front, c :: t => if b = c then after? front t else none

theorem after?_eq_some_iff {front t rest : Text} :
    after? front t = some rest ↔ t = front ++ rest := by
  induction front generalizing t with
  | nil => simp [after?]
  | cons b front ih =>
    cases t with
    | nil => simp [after?]
    | cons c t =>
      by_cases h : b = c
      · simp [after?, h, ih]
      · simp [after?, h, Ne.symm h]

/-- What follows the white space character at the front, if there is one. -/
def afterSpace? (t : Text) : Option Text :=
  whiteSpace.findSome? fun c => after? (String.utf8EncodeChar c) t

theorem afterSpace?_sound {t rest : Text} (h : t.afterSpace? = some rest) :
    ∃ c ∈ whiteSpace, t = String.utf8EncodeChar c ++ rest := by
  obtain ⟨c, hc, h⟩ := List.exists_of_findSome?_eq_some h
  exact ⟨c, hc, after?_eq_some_iff.1 h⟩

theorem afterSpace?_length {t rest : Text} (h : t.afterSpace? = some rest) :
    rest.length < t.length := by
  obtain ⟨c, -, rfl⟩ := afterSpace?_sound h
  have hc : 0 < (String.utf8EncodeChar c).length := by
    rw [String.length_utf8EncodeChar]
    exact c.utf8Size_pos
  simp only [List.length_append]
  omega

/-- The text from its first character that is not white space on. -/
def trimStart (t : Text) : Text :=
  match _h : t.afterSpace? with
  | some rest => trimStart rest
  | none => t
termination_by t.length
decreasing_by exact afterSpace?_length _h

end Asm18.Text
