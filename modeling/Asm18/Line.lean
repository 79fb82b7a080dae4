import Asm18.Statement
import Asm18.Text.Numeral
import Asm18.Text.WhiteSpace

/-! Source lines. A line is blank, a comment, a statement, or none of these; only statements take
an address. -/
namespace Asm18

inductive LineKind where
  | blank
  | comment
  | unrecognised
  | instruction
deriving DecidableEq, Repr

namespace LineKind

def name : LineKind → String
  | blank => "blank"
  | comment => "comment"
  | unrecognised => "unrecognised"
  | instruction => "instruction"

def code : LineKind → Int
  | blank => 0
  | comment => 1
  | unrecognised => 2
  | instruction => 3

def ofCode? : Int → Option LineKind
  | 0 => some blank
  | 1 => some comment
  | 2 => some unrecognised
  | 3 => some instruction
  | _ => none

theorem ofCode?_eq_some_iff {c : Int} {k : LineKind} : ofCode? c = some k ↔ c = k.code := by
  constructor
  · intro h
    unfold ofCode? at h
    split at h
    all_goals cases h
    all_goals rfl
  · rintro rfl
    cases k <;> rfl

/-- The name of the kind with a numeric code. -/
def nameOfCode (code : Int) : String := ((ofCode? code).map name).getD "unknown"

end LineKind

inductive Content where
  | blank
  | comment
  | unrecognised
  | instruction (statement : Statement)
deriving DecidableEq, Repr

namespace Content

def kind : Content → LineKind
  | blank => .blank
  | comment => .comment
  | unrecognised => .unrecognised
  | instruction _ => .instruction

def statement? : Content → Option Statement
  | instruction s => some s
  | _ => none

def semicolon : UInt8 := 0x3B

/-- Blank and comment lines are told by their first character that is not white space, where
Unicode counts; the blanks inside a statement are those of ASCII. -/
def parse (t : Text) : Content :=
  match t.trimStart with
  | [] => blank
  | b :: _ =>
    if b = semicolon then comment
    else
      match Statement.parse? t with
      | some s => instruction s
      | none => unrecognised

end Content

structure Line where
  number : Int
  text : Text
  content : Content
deriving DecidableEq, Repr

/-- A line that holds a statement. -/
structure CodeLine where
  number : Int
  text : Text
  statement : Statement
deriving DecidableEq, Repr

namespace Line

/-- Parses a line, less one carriage return at its end. -/
def parse (number : Int) (raw : Text) : Line := ⟨number,raw.chomp,Content.parse raw.chomp⟩

def code? (l : Line) : Option CodeLine :=
  l.content.statement?.map fun s => ⟨l.number,l.text,s⟩

/-- Lines that fit no other kind are skipped with a warning. -/
def warning? (l : Line) : Option Text :=
  match l.content with
  | .unrecognised =>
    some (utf8 "line " ++ Text.decimal l.number ++ utf8 ": not an instruction, skipped: " ++ l.text)
  | _ => none

/-- The lines that take an address. -/
def code (lines : List Line) : List CodeLine := lines.filterMap code?

def warnings (lines : List Line) : List Text := lines.filterMap warning?

@[simp] theorem code_nil : code [] = [] := rfl

theorem code_cons (l : Line) (lines : List Line) :
    code (l :: lines) = l.code?.toList ++ code lines := by
  cases hc : l.code? <;> simp [code, hc]

@[simp] theorem code_append (a b : List Line) : code (a ++ b) = code a ++ code b := by
  simp [code]

@[simp] theorem warnings_nil : warnings [] = [] := rfl

@[simp] theorem warnings_append (a b : List Line) :
    warnings (a ++ b) = warnings a ++ warnings b := by
  simp [warnings]

end Line

end Asm18
