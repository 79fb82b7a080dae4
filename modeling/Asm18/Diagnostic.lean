import Asm18.Statement
import Asm18.Text.Numeral

/-! Faults of single lines. A fault names its cause; its wording is put together from the cause
and the statement it was found in. -/
namespace Asm18

/-- A position in program memory, with the wrapping arithmetic of 64 bits. -/
abbrev Address := Int64

inductive FaultKind where
  | unknownMnemonic
  | missingOperand
  | invalidOperand
  | operandOutOfRange
  | unexpectedOperand
  | unknownLabel
  | duplicateLabel
  | branchOutOfRange
deriving DecidableEq, Repr

namespace FaultKind

def name : FaultKind → String
  | unknownMnemonic => "unknown mnemonic"
  | missingOperand => "missing operand"
  | invalidOperand => "invalid operand syntax"
  | operandOutOfRange => "operand out of range"
  | unexpectedOperand => "unexpected operand"
  | unknownLabel => "unknown label"
  | duplicateLabel => "duplicate label"
  | branchOutOfRange => "branch out of range"

def ofCode? : Int → Option FaultKind
  | 0 => some unknownMnemonic
  | 1 => some missingOperand
  | 2 => some invalidOperand
  | 3 => some operandOutOfRange
  | 4 => some unexpectedOperand
  | 5 => some unknownLabel
  | 6 => some duplicateLabel
  | 7 => some branchOutOfRange
  | _ => none

/-- The name of the kind with a numeric code. -/
def nameOfCode (code : Int) : String :=
  ((ofCode? code).map name).getD ("Kind(" ++ toString code ++ ")")

end FaultKind

inductive Fault where
  | unknownMnemonic
  | missingOperand
  | missingTarget
  | invalidOperand
  | immediateOutOfRange
  | registerOutOfRange
  | unexpectedOperand
  | unknownLabel
  /-- The label stands on an earlier line too, first on the line with this number. -/
  | duplicateLabel (first : Int)
  | branchOutOfRange (here target : Address)
deriving DecidableEq, Repr

namespace Fault

def kind : Fault → FaultKind
  | unknownMnemonic => .unknownMnemonic
  | missingOperand => .missingOperand
  | missingTarget => .missingOperand
  | invalidOperand => .invalidOperand
  | immediateOutOfRange => .operandOutOfRange
  | registerOutOfRange => .operandOutOfRange
  | unexpectedOperand => .unexpectedOperand
  | unknownLabel => .unknownLabel
  | duplicateLabel _ => .duplicateLabel
  | branchOutOfRange _ _ => .branchOutOfRange

/-- The wording of a fault found in a statement. -/
def message (s : Statement) : Fault → Text
  | unknownMnemonic => utf8 "invalid instruction " ++ s.mnemonic
  | missingOperand => utf8 "missing operand for instruction " ++ s.mnemonic
  | missingTarget => utf8 "missing label for branch instruction " ++ s.mnemonic
  | invalidOperand =>
    utf8 "invalid operand " ++ s.operand.getD [] ++ utf8 " for instruction " ++ s.mnemonic
  | immediateOutOfRange =>
    utf8 "operand " ++ s.operand.getD [] ++ utf8 " outside allowed range for instruction " ++
      s.mnemonic
  | registerOutOfRange =>
    utf8 "register " ++ s.operand.getD [] ++ utf8 " does not fit instruction " ++ s.mnemonic
  | unexpectedOperand => utf8 "not expecting an operand with instruction " ++ s.mnemonic
  | unknownLabel =>
    utf8 "invalid label " ++ s.operand.getD [] ++ utf8 " for branch instruction " ++ s.mnemonic
  | duplicateLabel first =>
    utf8 "duplicate label " ++ s.label.getD [] ++ utf8 " (first defined on line " ++
      Text.decimal first ++ utf8 ")"
  | branchOutOfRange here target =>
    s.mnemonic ++ utf8 ": target " ++ Text.decimal target.toInt ++ utf8 " is " ++
      Text.decimal (target - here).toInt ++ utf8 " words from " ++ Text.decimal here.toInt ++
      utf8 ", limit is -2048..2047"

end Fault

/-- A message about a source line. -/
structure Remark where
  line : Int
  message : Text
deriving DecidableEq, Repr

namespace Remark

def render (r : Remark) : Text := utf8 "line " ++ Text.decimal r.line ++ utf8 ": " ++ r.message

/-- All remarks of a failed assembly under one heading. -/
def renderAll (rs : List Remark) : Text :=
  utf8 "assembly errors:\n" ++ Text.unlines (rs.map render)

end Remark

structure Diagnostic where
  line : Int
  statement : Statement
  fault : Fault
deriving DecidableEq, Repr

namespace Diagnostic

def kind (d : Diagnostic) : FaultKind := d.fault.kind

def message (d : Diagnostic) : Text := d.fault.message d.statement

def remark (d : Diagnostic) : Remark := ⟨d.line,d.message⟩

end Diagnostic
end Asm18
