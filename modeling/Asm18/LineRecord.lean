import Asm18.Line

/-! Lines as records of their tokens. Nothing in a record ties the tokens to the kind: any line may
have a label, a mnemonic and an operand, and its kind may be any number. Only the tokens of
instructions say anything. -/
namespace Asm18

structure LineRecord where
  number : Int
  text : Text
  /-- The code of a kind, or any other number. -/
  kind : Int
  label : Text
  mnemonic : Text
  operand : Text
deriving DecidableEq, Repr

namespace LineRecord

/-- The line takes an address. -/
def isCode (r : LineRecord) : Bool := r.kind = LineKind.instruction.code

/-- What the tokens say, whatever the kind. -/
def statement (r : LineRecord) : Statement :=
  ⟨Statement.token r.label,r.mnemonic,Statement.token r.operand⟩

/-- The record as a line of code, whatever its kind. -/
def codeLine (r : LineRecord) : CodeLine := ⟨r.number,r.text,r.statement⟩

def code? (r : LineRecord) : Option CodeLine := if r.isCode then some r.codeLine else none

/-- The lines that take an address. -/
def code (rs : List LineRecord) : List CodeLine := rs.filterMap code?

@[simp] theorem code_nil : code [] = [] := rfl

theorem code_cons (r : LineRecord) (rs : List LineRecord) :
    code (r :: rs) = r.code?.toList ++ code rs := by
  cases hc : r.code? <;> simp [code, hc]

@[simp] theorem code_append (a b : List LineRecord) : code (a ++ b) = code a ++ code b := by
  simp [code]

theorem code?_of_isCode {r : LineRecord} (h : r.isCode = true) : r.code? = some r.codeLine :=
  if_pos h

theorem code?_of_not_isCode {r : LineRecord} (h : r.isCode = false) : r.code? = none := by
  simp [code?, h]

theorem code_eq_map (rs : List LineRecord) : code rs = (rs.filter isCode).map codeLine := by
  induction rs with
  | nil => rfl
  | cons r rs ih =>
    rw [code_cons, ih]
    cases h : r.isCode with
    | true => simp [code?_of_isCode h, h]
    | false => simp [code?_of_not_isCode h, h]

/-- Of a line that is not an instruction the tokens are lost. -/
def content (r : LineRecord) : Content :=
  match LineKind.ofCode? r.kind with
  | some .blank => .blank
  | some .comment => .comment
  | some .instruction => .instruction r.statement
  | _ => .unrecognised

def line (r : LineRecord) : Line := ⟨r.number,r.text,r.content⟩

theorem content_of_isCode {r : LineRecord} (h : r.isCode = true) :
    r.content = .instruction r.statement := by
  have hkind := LineKind.ofCode?_eq_some_iff.2 (of_decide_eq_true h)
  simp only [content, hkind]

theorem statement?_of_not_isCode {r : LineRecord} (h : r.isCode = false) :
    r.content.statement? = none := by
  have hkind : LineKind.ofCode? r.kind ≠ some .instruction :=
    fun hk => of_decide_eq_false h (LineKind.ofCode?_eq_some_iff.1 hk)
  unfold content
  split
  · rfl
  · rfl
  · exact absurd ‹_› hkind
  · rfl

theorem code?_line (r : LineRecord) : r.line.code? = r.code? := by
  cases h : r.isCode with
  | true => rw [code?_of_isCode h, Line.code?, line, content_of_isCode h]; rfl
  | false => rw [code?_of_not_isCode h, Line.code?, line, statement?_of_not_isCode h]; rfl

/-- The lines of code are the same, whether they are told by the codes of their kinds or by what the
lines hold. -/
theorem code_map_line (rs : List LineRecord) : Line.code (rs.map line) = code rs := by
  rw [Line.code, List.filterMap_map, code]
  congr
  funext r
  exact code?_line r

end LineRecord

namespace Line

/-- The record of a line. The tokens that a line does not have are empty. -/
def record (l : Line) : LineRecord where
  number := l.number
  text := l.text
  kind := l.content.kind.code
  label := (l.content.statement?.bind Statement.label).getD []
  mnemonic := (l.content.statement?.map Statement.mnemonic).getD []
  operand := (l.content.statement?.bind Statement.operand).getD []

/-- A line comes back from its record, unless it has a token that is empty. -/
theorem line_record {l : Line}
    (h : ∀ s, l.content = .instruction s → s.label ≠ some [] ∧ s.operand ≠ some []) :
    l.record.line = l := by
  obtain ⟨number,text,content⟩ := l
  cases content with
  | instruction s =>
    obtain ⟨hlabel,hoperand⟩ := h s rfl
    have hstatement : (record ⟨number,text,.instruction s⟩).statement = s := by
      obtain ⟨label,mnemonic,operand⟩ := s
      simp only [LineRecord.statement, record, Content.statement?, Option.bind_some,
        Option.map_some, Option.getD_some, Statement.token_getD hlabel,
        Statement.token_getD hoperand]
    rw [LineRecord.line, LineRecord.content_of_isCode rfl, hstatement]
    rfl
  | _ => rfl

end Line
end Asm18
