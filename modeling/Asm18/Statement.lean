import Asm18.Text.Basic

/-! Statements: an optional label, a mnemonic and an optional operand. A label starts in column 0
and ends in a colon; at least one blank stands before the mnemonic; whatever follows the operand
is ignored. -/
namespace Asm18

structure Statement where
  label : Option Text
  mnemonic : Text
  operand : Option Text
deriving DecidableEq, Repr

namespace Statement

/-- The token that a text stands for: an empty text stands for none. -/
def token (t : Text) : Option Text := if t = [] then none else some t

@[simp] theorem token_nil : token [] = none := rfl

@[simp] theorem token_cons (b : UInt8) (t : Text) : token (b :: t) = some (b :: t) := rfl

theorem token_eq_some_iff {t name : Text} : token t = some name ↔ t = name ∧ name ≠ [] := by
  cases t with
  | nil =>
    simp only [token_nil, reduceCtorEq, false_iff, not_and]
    exact fun h hne => hne h.symm
  | cons b t =>
    simp only [token_cons, Option.some.injEq, iff_self_and]
    exact fun h => h ▸ List.cons_ne_nil b t

/-- A token can be written as a text and read back, unless it is empty. -/
theorem token_getD {o : Option Text} (h : o ≠ some []) : token (o.getD []) = o := by
  cases o with
  | none => rfl
  | some t => exact token_eq_some_iff.2 ⟨rfl,fun ht => h (by rw [ht])⟩

/-- Letters, digits and the underscore make up labels, mnemonics and operands. -/
def isWord (b : UInt8) : Bool :=
  (0x61 ≤ b && b ≤ 0x7A) || (0x41 ≤ b && b ≤ 0x5A) || (0x30 ≤ b && b ≤ 0x39) || b == 0x5F

/-- The six blanks of ASCII. -/
def isBlank (b : UInt8) : Bool := b == 0x20 || (0x09 ≤ b && b ≤ 0x0D)

/-- The characters of a literal operand: decimal digits, `a` to `f` and `x`. -/
def isLiteral (b : UInt8) : Bool :=
  (0x30 ≤ b && b ≤ 0x39) || (0x61 ≤ b && b ≤ 0x66) || b == 0x78

def colon : UInt8 := 0x3A

def hash : UInt8 := 0x23

/-- The longest word at the front, if there is one, and what follows it. -/
def word? (t : Text) : Option (Text × Text) :=
  if t.takeWhile isWord = [] then none else some (t.takeWhile isWord,t.dropWhile isWord)

/-- What follows the blanks at the front, of which there must be one. -/
def blanks? : Text → Option Text
  | [] => none
  | b :: rest => if isBlank b then some (rest.dropWhile isBlank) else none

def takeLabel (t : Text) : Option Text × Text :=
  match word? t with
  | some (name,c :: rest) => if c = colon then (some name,rest) else (none,t)
  | _ => (none,t)

/-- The operand at the front: `#` and at least one literal character, or a word. -/
def operand? : Text → Option Text
  | [] => none
  | b :: rest =>
    if b = hash then
      if rest.takeWhile isLiteral = [] then none else some (b :: rest.takeWhile isLiteral)
    else (word? (b :: rest)).map Prod.fst

def parse? (t : Text) : Option Statement :=
  let (label,afterLabel) := takeLabel t
  match (blanks? afterLabel).bind word? with
  | none => none
  | some (mnemonic,[]) => some ⟨label,mnemonic,none⟩
  | some (mnemonic,rest) => (blanks? rest).map fun t => ⟨label,mnemonic,operand? t⟩

end Statement
end Asm18
