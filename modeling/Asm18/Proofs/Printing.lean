import Asm18.Proofs.Grammar
import Asm18.Proofs.Source

/-! Statements in one fixed spelling, with a single blank between tokens. A source printed from
statements consists of these statements, one on each line. -/
namespace Asm18

open Grammar

/-- Labels, mnemonics and branch targets are words. -/
def IsName (t : Text) : Prop := t ≠ [] ∧ t ⊆ wordBytes

instance (t : Text) : Decidable (IsName t) :=
  decidable_of_iff (t ≠ [] ∧ t.all Statement.isWord = true)
    (by simp [IsName, isWord_iff, List.subset_def])

theorem not_mem_wordBytes {b : UInt8} (h : Statement.isWord b = false) : b ∉ wordBytes := by
  intro hb
  rw [(isWord_iff b).2 hb] at h
  cases h

/-- What stands after the hash sign of an operand. -/
def IsLiteral (t : Text) : Prop := t ≠ [] ∧ t ⊆ literalBytes

/-- A word, or a hash sign and a literal. -/
def IsOperand (t : Text) : Prop := IsName t ∨ ∃ digits, IsLiteral digits ∧ t = utf8 "#" ++ digits

theorem Grammar.Munch.of_head {bytes token rest : Text} (h : token ≠ [] ∧ token ⊆ bytes)
    (hr : ∀ b ∈ rest.head?, b ∉ bytes) : Munch bytes (token ++ rest) token rest :=
  ⟨rfl,h.1,fun _ hb => h.2 hb,hr⟩

theorem Grammar.Munch.whole {bytes token : Text} (h : token ≠ [] ∧ token ⊆ bytes) :
    Munch bytes token token [] :=
  ⟨by simp,h.1,fun _ hb => h.2 hb,by simp⟩

/-- A name ends the blanks in front of it. -/
theorem IsName.head_append {t : Text} (h : IsName t) (rest : Text) :
    ∀ b ∈ (t ++ rest).head?, b ∉ blankBytes := by
  have hapart : ∀ b ∈ wordBytes, b ∉ blankBytes := by
    intro b hw hb
    exact not_mem_wordBytes (not_isWord_of_isBlank b ((isBlank_iff b).2 hb)) hw
  obtain ⟨hne,hall⟩ := h
  cases t with
  | nil => exact absurd rfl hne
  | cons a t =>
    intro b hb
    cases hb
    exact hapart a (hall (by simp))

namespace Statement

structure WellFormed (s : Statement) : Prop where
  label : ∀ name, s.label = some name → IsName name
  mnemonic : IsName s.mnemonic
  operand : ∀ o, s.operand = some o → IsOperand o

def printLabel : Option Text → Text
  | none => []
  | some name => name ++ utf8 ":"

def printOperand : Option Text → Text
  | none => []
  | some o => utf8 " " ++ o

def print (s : Statement) : Text :=
  printLabel s.label ++ utf8 " " ++ s.mnemonic ++ printOperand s.operand

theorem label_print {label : Option Text} (h : ∀ name, label = some name → IsName name)
    (rest : Text) : Label (printLabel label ++ rest) label rest := by
  cases label with
  | none => exact .absent
  | some name =>
    refine .present ?_
    rw [printLabel, List.append_assoc]
    refine .of_head (h name rfl) (fun b hb => ?_)
    cases hb
    exact not_mem_wordBytes (by decide)

theorem tail_print {operand : Option Text} (h : ∀ o, operand = some o → IsOperand o) :
    Tail (printOperand operand) operand := by
  cases operand with
  | none => exact .finished
  | some o =>
    rcases h o rfl with hname | ⟨digits,hdigits,rfl⟩
    · have hhead := hname.head_append []
      rw [List.append_nil] at hhead
      exact .spaced (.of_head (by decide) hhead) (.word (.whole hname))
    · refine .spaced (.of_head (by decide) (fun b hb => ?_)) (.literal (.whole hdigits))
      cases hb
      decide

theorem matches_print {s : Statement} (h : s.WellFormed) : Matches s.print s := by
  have hword : ∀ b ∈ (printOperand s.operand).head?, b ∉ wordBytes := by
    intro b hb
    cases ho : s.operand with
    | none =>
      rw [ho] at hb
      cases hb
    | some o =>
      rw [ho] at hb
      cases hb
      exact not_mem_wordBytes (by decide)
  rw [print, List.append_assoc, List.append_assoc]
  exact .intro (label_print h.label _) (.of_head (by decide) (h.mnemonic.head_append _))
    (.of_head h.mnemonic hword) (tail_print h.operand)

/-- What stands in a printed statement beside its words. -/
def marks : Text := utf8 ": #"

/-- The bytes of printed statements. -/
def printBytes : Text := wordBytes ++ marks

theorem subset_of_isName {t : Text} (h : IsName t) : t ⊆ printBytes :=
  fun _ hb => List.mem_append_left _ (h.2 hb)

theorem subset_of_isLiteral {t : Text} (h : IsLiteral t) : t ⊆ printBytes := by
  have hword : ∀ b, isLiteral b = true → isWord b = true := Text.forall_byte (by decide +kernel)
  intro b hb
  have hb' := hword b ((isLiteral_iff b).2 (h.2 hb))
  exact List.mem_append_left _ ((isWord_iff b).1 hb')

theorem print_subset {s : Statement} (h : s.WellFormed) : s.print ⊆ printBytes := by
  have hcolon : utf8 ":" ⊆ printBytes := List.subset_append_of_subset_right _ (by decide)
  have hblank : utf8 " " ⊆ printBytes := List.subset_append_of_subset_right _ (by decide)
  have hhash : utf8 "#" ⊆ printBytes := List.subset_append_of_subset_right _ (by decide)
  have hlabel : printLabel s.label ⊆ printBytes := by
    cases hl : s.label with
    | none => exact List.nil_subset _
    | some name => exact List.append_subset.2 ⟨subset_of_isName (h.label name hl),hcolon⟩
  have hoperand : printOperand s.operand ⊆ printBytes := by
    cases ho : s.operand with
    | none => exact List.nil_subset _
    | some o =>
      refine List.append_subset.2 ⟨hblank,?_⟩
      rcases h.operand o ho with hname | ⟨digits,hdigits,rfl⟩
      · exact subset_of_isName hname
      · exact List.append_subset.2 ⟨hhash,subset_of_isLiteral hdigits⟩
  simp only [print, List.append_subset]
  exact ⟨⟨⟨hlabel,hblank⟩,subset_of_isName h.mnemonic⟩,hoperand⟩

theorem not_mem_print {s : Statement} (h : s.WellFormed) {b : UInt8} (hw : isWord b = false)
    (hm : b ∉ marks) : b ∉ s.print := by
  intro hb
  rcases List.mem_append.1 (print_subset h hb) with hb | hb
  · exact not_mem_wordBytes hw hb
  · exact hm hb

/-- A printed statement is read back, whatever the number of its line. -/
theorem parse_print {s : Statement} (h : s.WellFormed) (number : Int) :
    Line.parse number s.print = ⟨number,s.print,.instruction s⟩ := by
  have hlast : s.print.getLast? ≠ some Text.carriageReturn := fun hl =>
    not_mem_print h (by decide) (by decide) (List.mem_of_getLast? hl)
  have hchomp : s.print.chomp = s.print := if_neg hlast
  rw [Line.parse, hchomp, parse_of_matches (matches_print h)]

end Statement

/-- The line that holds a line of code. -/
def CodeLine.line (c : CodeLine) : Line := ⟨c.number,c.text,.instruction c.statement⟩

theorem Line.code_map_line (code : List CodeLine) : Line.code (code.map CodeLine.line) = code := by
  induction code with
  | nil => rfl
  | cons c code ih => exact congrArg (c :: ·) ih

theorem Line.warnings_map_line (code : List CodeLine) :
    Line.warnings (code.map CodeLine.line) = [] := by
  simp [Line.warnings, CodeLine.line, Line.warning?]

namespace Source

/-- The statements, one on each line. -/
def print (ss : List Statement) : Text := (ss.map Statement.print).flatMap Text.line

/-- The statements as the lines of code of a source that has no other lines. -/
def number (ss : List Statement) : List CodeLine := ss.mapIdx fun i s => ⟨i + 1,s.print,s⟩

theorem map_statement_number (ss : List Statement) :
    (number ss).map CodeLine.statement = ss := by
  apply List.ext_getElem?
  intro k
  cases hs : ss[k]? <;> simp [number, hs]

theorem lines_print {ss : List Statement} (h : ∀ s ∈ ss, s.WellFormed) :
    lines (print ss) = (number ss).map CodeLine.line := by
  have hpieces : pieces (print ss) = ss.map Statement.print := by
    apply pieces_flatMap_line
    intro t ht
    obtain ⟨s,hs,rfl⟩ := List.mem_map.1 ht
    exact Statement.not_mem_print (h s hs) (by decide) (by decide)
  rw [lines, hpieces, List.mapIdx_eq_iff]
  intro k
  rw [number, List.getElem?_map, List.getElem?_mapIdx, List.getElem?_map]
  cases hs : ss[k]? with
  | none => rfl
  | some s =>
    simp only [Option.map_some]
    rw [Statement.parse_print (h s (List.mem_of_getElem? hs))]
    rfl

theorem code_print {ss : List Statement} (h : ∀ s ∈ ss, s.WellFormed) :
    code (print ss) = number ss := by
  rw [code, lines_print h, Line.code_map_line]

theorem warnings_print {ss : List Statement} (h : ∀ s ∈ ss, s.WellFormed) :
    Line.warnings (lines (print ss)) = [] := by
  rw [lines_print h, Line.warnings_map_line]

end Source
end Asm18
