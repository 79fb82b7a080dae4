import Asm18.Text.Basic

/-! Unsigned literals: decimal without leading zeros, or binary, octal and hexadecimal after `0b`,
`0o` and `0x`. A single underscore may stand between digits and after the base mark. -/
namespace Asm18.Literal

inductive Fault where
  | malformed
  | tooLarge
deriving DecidableEq, Repr

def zero : UInt8 := 0x30

def underscore : UInt8 := 0x5F

/-- A literal's value is below this bound. -/
def bound : Nat := 0x10000000000000000

/-- The value of a digit, where letters of either case go on after nine. -/
def digit? (b : UInt8) : Option Nat :=
  if 0x30 ≤ b ∧ b ≤ 0x39 then some (b.toNat - 0x30)
  else if 0x61 ≤ b ∧ b ≤ 0x7A then some (b.toNat - 0x61 + 10)
  else if 0x41 ≤ b ∧ b ≤ 0x5A then some (b.toNat - 0x41 + 10)
  else none

/-- Reads digits from the left, passing over underscores. What stands after the digit that takes
the value to the bound is not looked at. -/
def readDigits (base value : Nat) : Text → Except Fault Nat
  | [] => .ok value
  | b :: rest =>
    if b = underscore then readDigits base value rest
    else
      match digit? b with
      | none => .error .malformed
      | some d =>
        if base ≤ d then .error .malformed
        else if bound ≤ value * base + d then .error .tooLarge
        else readDigits base (value * base + d) rest

/-- Each underscore follows a digit, or the base mark, and comes before a digit; the text is not
empty unless a base mark stands before it. The flag says whether an underscore may come next. -/
def separated : Bool → Text → Bool
  | next, [] => next
  | next, b :: rest => if b = underscore then next && separated false rest else separated true rest

def readBase (base : Nat) (marked : Bool) (digits : Text) : Except Fault Nat :=
  match readDigits base 0 digits with
  | .ok value => if separated marked digits then .ok value else .error .malformed
  | .error e => .error e

/-- The base that a letter after a leading zero marks. -/
def base? (b : UInt8) : Option Nat :=
  if b = 0x62 ∨ b = 0x42 then some 2
  else if b = 0x6F ∨ b = 0x4F then some 8
  else if b = 0x78 ∨ b = 0x58 then some 16
  else none

def read : Text → Except Fault Nat
  | z :: m :: rest =>
    if z = zero then
      match base? m with
      | some base => if rest = [] then .error .malformed else readBase base true rest
      | none =>
        if (m :: rest).all fun b => b = zero ∨ b = underscore then
          readBase 10 false (z :: m :: rest)
        else .error .malformed
    else readBase 10 false (z :: m :: rest)
  | s => readBase 10 false s

end Asm18.Literal
