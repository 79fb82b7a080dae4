import Asm18.Text.Basic

/-! Reading signed decimal integers of 64 bits. -/
namespace Asm18.Text

inductive IntegerFault where
  | malformed
  | outOfRange
deriving DecidableEq, Repr

/-- The number of values of 64 bits. -/
def wordSpan : Nat := 0x10000000000000000

/-- The number of values of 64 bits that are not negative. -/
def signedSpan : Nat := 0x8000000000000000

/-- Reads digits from the left. What stands after the digit that takes the value past 64 bits is
not looked at. -/
def readNatural (value : Nat) : Text → Except IntegerFault Nat
  | [] => .ok value
  | b :: rest =>
    if 0x30 ≤ b ∧ b ≤ 0x39 then
      if wordSpan ≤ value * 10 + (b.toNat - 0x30) then .error .outOfRange
      else readNatural (value * 10 + (b.toNat - 0x30)) rest
    else .error .malformed

/-- The digits after an optional sign, and whether the sign is minus. -/
def splitSign : Text → Bool × Text
  | [] => (false,[])
  | b :: rest =>
    if b = 0x2D then (true,rest) else if b = 0x2B then (false,rest) else (false,b :: rest)

def readInteger (t : Text) : Except IntegerFault Int :=
  let (negative,digits) := splitSign t
  if digits = [] then .error .malformed
  else
    match readNatural 0 digits with
    | .error e => .error e
    | .ok n =>
      if negative then if n ≤ signedSpan then .ok (-n) else .error .outOfRange
      else if n < signedSpan then .ok n else .error .outOfRange

end Asm18.Text
