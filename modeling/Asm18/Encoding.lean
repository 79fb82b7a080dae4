import Asm18.Instruction
import Asm18.Labels
import Asm18.Literal

/-! The second pass: each line of code becomes a word, or has a fault. A line with a fault keeps
its address, which holds the word 0. -/
namespace Asm18

/-- Displacements are numbers of twelve bits in two's complement. -/
def branchSpan : Address := 4096

/-- The distance from `here` to `target` as a field. -/
def displacement (here target : Address) : Except Fault UInt32 :=
  let delta := target - here
  if delta < -(branchSpan / 2) ∨ branchSpan / 2 ≤ delta then
    .error (.branchOutOfRange here target)
  else if here ≤ target then .ok (UInt32.ofInt delta.toInt)
  else .ok (UInt32.ofInt (branchSpan - (here - target)).toInt)

/-- An immediate operand starts with `#`. -/
def immediateMark : UInt8 := Statement.hash

/-- The greatest immediate that fits the ten bits of a field. -/
def immediateLimit : Nat := 1023

/-- A register operand starts with `r`. -/
def registerMark : UInt8 := 0x72

/-- The field of a literal operand, which is the mark and then a literal of at most `limit`. -/
def literalField (mark : UInt8) (limit : Nat) (outOfRange : Fault) :
    Option Text → Except Fault UInt32
  | none => .error .missingOperand
  | some [] => .error .invalidOperand
  | some (b :: digits) =>
    if b ≠ mark then .error .invalidOperand
    else
      match Literal.read digits with
      | .ok v => if v ≤ limit then .ok (UInt32.ofNat v) else .error outOfRange
      | .error .tooLarge => .error outOfRange
      | .error .malformed => .error .invalidOperand

def branchField (here : Address) (labels : Labels) : Option Text → Except Fault UInt32
  | none => .error .missingTarget
  | some name =>
    match labels.get? name with
    | none => .error .unknownLabel
    | some target => displacement here target

def emptyField : Option Text → Except Fault UInt32
  | none => .ok 0
  | some _ => .error .unexpectedOperand

/-- The field that an operand stands for. An immediate fits the field; a register number only has
to fit the word. -/
def OperandClass.field (c : OperandClass) (here : Address) (labels : Labels)
    (operand : Option Text) : Except Fault UInt32 :=
  match c with
  | .none => emptyField operand
  | .immediate => literalField immediateMark immediateLimit .immediateOutOfRange operand
  | .register => literalField registerMark wordMask .registerOutOfRange operand
  | .branch => branchField here labels operand

namespace Statement

def encode (s : Statement) (here : Address) (labels : Labels) : Except Fault Word :=
  match Instruction.lookup s.mnemonic with
  | none => .error .unknownMnemonic
  | some i => (i.operand.field here labels s.operand).map i.word

end Statement

namespace CodeLine

def encode (c : CodeLine) (here : Address) (labels : Labels) : Except Diagnostic Word :=
  (c.statement.encode here labels).mapError fun f => ⟨c.number,c.statement,f⟩

end CodeLine

/-- What the second pass makes of each line of code. -/
abbrev Encoding := List (Except Diagnostic Word)

namespace Encoding

def word : Except Diagnostic Word → Word
  | .ok w => w
  | .error _ => 0

def fault? : Except Diagnostic Word → Option Diagnostic
  | .ok _ => none
  | .error d => some d

def words (e : Encoding) : List Word := e.map word

def diagnostics (e : Encoding) : List Diagnostic := e.filterMap fault?

@[simp] theorem length_words (e : Encoding) : e.words.length = e.length := by simp [words]

end Encoding

/-- Encodes the lines of code at the addresses 0, 1, 2 and so on. -/
def encode (labels : Labels) (code : List CodeLine) : Encoding :=
  code.mapIdx fun k c => c.encode (Int64.ofNat k) labels

@[simp] theorem length_encode (labels : Labels) (code : List CodeLine) :
    (encode labels code).length = code.length := by
  simp [encode]

end Asm18
