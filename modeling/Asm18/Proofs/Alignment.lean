import Asm18.Proofs.Passes

/-! How the two passes stay aligned. The second pass knows the address of a line only by the words it
has emitted before, so a line without a word has to leave a word too. Then no line can move another,
and what is wrong with one line does not show at any other. -/
namespace Asm18

/-- Lists of diagnostics that agree but for one line, on which they have `x` and `y`. -/
def AgreeBut (x y : Option Diagnostic) (a b : List Diagnostic) : Prop :=
  ∃ before after, a = before ++ x.toList ++ after ∧ b = before ++ y.toList ++ after

/-- If the later lines cannot tell two lines apart, these differ in their own reports only. -/
theorem agreeBut_reports {judge : List CodeLine → CodeLine → Option Diagnostic}
    {before after : List CodeLine} {c d : CodeLine}
    (h : ∀ between, judge (before ++ c :: between) = judge (before ++ d :: between)) :
    AgreeBut (judge before c) (judge before d) (reports judge (before ++ c :: after))
      (reports judge (before ++ d :: after)) := by
  refine ⟨reports judge before,reports (fun between => judge (before ++ c :: between)) after,?_,?_⟩
  · simp [reports_append, reports_cons]
  · simp [reports_append, reports_cons, h]

/-- Records around a line of code of which mnemonic and operand may change. -/
structure Gap where
  before : List LineRecord
  record : LineRecord
  isCode : record.isCode = true
  after : List LineRecord

namespace Gap

def line (g : Gap) (mnemonic operand : Text) : LineRecord :=
  { g.record with mnemonic, operand }

def fill (g : Gap) (mnemonic operand : Text) : List LineRecord :=
  g.before ++ g.line mnemonic operand :: g.after

/-- The address of the line that may change. -/
def address (g : Gap) : Nat := (LineRecord.code g.before).length

theorem code_fill (g : Gap) (mnemonic operand : Text) :
    LineRecord.code (g.fill mnemonic operand) =
      LineRecord.code g.before ++ (g.line mnemonic operand).codeLine :: LineRecord.code g.after := by
  have hcode : (g.line mnemonic operand).isCode = true := g.isCode
  rw [fill, LineRecord.code_append, LineRecord.code_cons, LineRecord.code?_of_isCode hcode]
  rfl

variable (g : Gap) (m n o p : Text)

@[simp] theorem number_line : (g.line m o).codeLine.number = g.record.number := rfl

@[simp] theorem label_line :
    (g.line m o).codeLine.statement.label = g.record.statement.label := rfl

theorem labels_fill : (resolve (LineRecord.code (g.fill m o))).labels =
    (resolve (LineRecord.code (g.fill n p))).labels := by
  apply Labels.bindFrom_congr
  simp [code_fill]

theorem words_fill (labels : Labels) {k : Nat} (h : k ≠ g.address) :
    (encode labels (LineRecord.code (g.fill m o))).words[k]? =
      (encode labels (LineRecord.code (g.fill n p))).words[k]? := by
  apply getElem?_words_encode_congr
  have hset : LineRecord.code (g.fill n p) =
      (LineRecord.code (g.fill m o)).set g.address (g.line n p).codeLine := by
    simp [code_fill, address]
  rw [hset, List.getElem?_set_ne (Ne.symm h)]

theorem duplicates_fill : AgreeBut ((g.line m o).codeLine.duplicate? (LineRecord.code g.before))
    ((g.line n p).codeLine.duplicate? (LineRecord.code g.before))
    (resolve (LineRecord.code (g.fill m o))).diagnostics
    (resolve (LineRecord.code (g.fill n p))).diagnostics := by
  simp only [resolve, Labels.duplicatesFrom_empty, code_fill]
  apply agreeBut_reports
  intro between
  funext c
  cases hl : c.statement.label with
  | none => simp [CodeLine.duplicate?, hl]
  | some name =>
    -- The open line is found by its label, and only its number goes into the report.
    by_cases hname : g.record.statement.label = some name
    · cases hf : (LineRecord.code g.before).find? fun e => e.statement.label = some name with
      | none => simp [CodeLine.duplicate?, hl, hf, hname]
      | some first => simp [CodeLine.duplicate?, hl, hf]
    · simp [CodeLine.duplicate?, hl, hname]

theorem failures_fill (labels : Labels) :
    AgreeBut ((g.line m o).codeLine.failure? labels (LineRecord.code g.before))
      ((g.line n p).codeLine.failure? labels (LineRecord.code g.before))
      (encode labels (LineRecord.code (g.fill m o))).diagnostics
      (encode labels (LineRecord.code (g.fill n p))).diagnostics := by
  simp only [diagnostics_encode, code_fill]
  apply agreeBut_reports
  intro between
  funext c
  simp [CodeLine.failure?]

end Gap

/-- The passes stay aligned, whatever the records are. The second emits one word for each line of code
that the first counts, a zero for one that fails, and reports just these. Another mnemonic and operand
on one line change no label, no other word and no diagnostic of another line. -/
theorem passes_aligned (labels : Labels) :
    (∀ rs : List LineRecord,
      Emission.run labels rs = .ofEncoding (encode labels (LineRecord.code rs)) ∧
      ((Survey.run rs).labels = (resolve (LineRecord.code rs)).labels ∧
        (Survey.run rs).address = Int64.ofNat (resolve (LineRecord.code rs)).count ∧
        (Survey.run rs).diagnostics = (resolve (LineRecord.code rs)).diagnostics) ∧
      (encode labels (LineRecord.code rs)).words.length = (resolve (LineRecord.code rs)).count ∧
      (∀ (k : Nat) (r : LineRecord), (rs.filter LineRecord.isCode)[k]? = some r →
        (encode labels (LineRecord.code rs)).words[k]? =
          some ((r.statement.encode (Int64.ofNat k) labels).toOption.getD 0)) ∧
      (encode labels (LineRecord.code rs)).diagnostics =
        reports (CodeLine.failure? labels) (LineRecord.code rs)) ∧
    ∀ (g : Gap) (m n o p : Text),
      (resolve (LineRecord.code (g.fill m o))).labels =
        (resolve (LineRecord.code (g.fill n p))).labels ∧
      (∀ k, k ≠ g.address → (encode labels (LineRecord.code (g.fill m o))).words[k]? =
        (encode labels (LineRecord.code (g.fill n p))).words[k]?) ∧
      AgreeBut ((g.line m o).codeLine.duplicate? (LineRecord.code g.before))
        ((g.line n p).codeLine.duplicate? (LineRecord.code g.before))
        (resolve (LineRecord.code (g.fill m o))).diagnostics
        (resolve (LineRecord.code (g.fill n p))).diagnostics ∧
      AgreeBut ((g.line m o).codeLine.failure? labels (LineRecord.code g.before))
        ((g.line n p).codeLine.failure? labels (LineRecord.code g.before))
        (encode labels (LineRecord.code (g.fill m o))).diagnostics
        (encode labels (LineRecord.code (g.fill n p))).diagnostics := by
  constructor
  · intro rs
    refine ⟨Emission.run_eq labels rs,Survey.run_eq_resolve rs,?_,?_,diagnostics_encode labels _⟩
    · rw [Encoding.length_words, length_encode]
      rfl
    · intro k r hr
      have hc : (LineRecord.code rs)[k]? = some r.codeLine := by
        rw [LineRecord.code_eq_map, List.getElem?_map, hr, Option.map_some]
      exact getElem?_words_encode hc
  · intro g m n o p
    exact ⟨g.labels_fill m n o p,fun k hk => g.words_fill m n o p labels hk,
      g.duplicates_fill m n o p,g.failures_fill m n o p labels⟩

/-- Two of its lines of code fail, and one branches past the second of these. Lines that are no code
have tokens too, and one is of no kind. -/
def patchy : List LineRecord :=
  [⟨1,[],3,[],utf8 "foo",[]⟩,⟨2,[],3,[],utf8 "br",utf8 "end"⟩,⟨2,[],1,utf8 "end",utf8 "wait",[]⟩,
    ⟨-7,[],9,utf8 "end",utf8 "br",utf8 "end"⟩,⟨4,[],3,[],utf8 "addi",utf8 "#5000"⟩,
    ⟨0,[],3,utf8 "end",utf8 "wait",[]⟩]

theorem passes_aligned_patchy :
    (encode (Table.ofList [(utf8 "end",3)]) (LineRecord.code patchy)).words.length = 4 ∧
    (encode (Table.ofList [(utf8 "end",3)]) (LineRecord.code patchy)).words[1]? = some 131074 ∧
    (encode (Table.ofList [(utf8 "end",3)]) (LineRecord.code patchy)).words[2]? = some 0 := by
  obtain ⟨-,-,hlen,hword,-⟩ := (passes_aligned (Table.ofList [(utf8 "end",3)])).1 patchy
  refine ⟨hlen.trans ?_,(hword 1 ⟨2,[],3,[],utf8 "br",utf8 "end"⟩ ?_).trans ?_,
    (hword 2 ⟨4,[],3,[],utf8 "addi",utf8 "#5000"⟩ ?_).trans ?_⟩
  all_goals decide +kernel

end Asm18
