import Asm18.Proofs.Grammar
import Asm18.Proofs.Reports
import Asm18.Proofs.Source

/-! The two passes as loops through records of any kind. Each asks for the kind of a record first, and
passes over its tokens unless it is an instruction. Record by record the loops come to what the passes
make of the lines of code. -/
namespace Asm18

namespace LineRecord

theorem length_code (rs : List LineRecord) : (code rs).length = rs.countP isCode := by
  rw [code_eq_map, List.length_map, List.countP_eq_length_filter]

/-- What is done to each line of code can be done to the records before. -/
theorem code_map {f : LineRecord → LineRecord} {g : CodeLine → CodeLine}
    (h : ∀ r, (f r).code? = r.code?.map g) (rs : List LineRecord) :
    code (rs.map f) = (code rs).map g := by
  simp only [code, List.filterMap_map, List.map_filterMap]
  congr
  funext r
  exact h r

end LineRecord

/-- No token of a statement is empty. -/
theorem Grammar.Matches.tokens_ne_nil {t : Text} {s : Statement} (h : Matches t s) :
    s.label ≠ some [] ∧ s.operand ≠ some [] := by
  obtain ⟨hlabel,-,-,htail⟩ := h
  constructor
  · rintro rfl
    cases hlabel with
    | present hm => exact hm.nonempty rfl
  · rintro rfl
    cases htail with
    | spaced _ ho =>
      cases ho with
      | word hm => exact hm.nonempty rfl

/-- Nothing of a parsed line is lost in its record. -/
theorem Line.line_record_parse (number : Int) (raw : Text) :
    (parse number raw).record.line = parse number raw :=
  line_record fun _ h => (Grammar.parse_eq_instruction_iff.1 h).tokens_ne_nil

theorem Source.map_line_records (source : Text) :
    (records source).map LineRecord.line = lines source := by
  rw [records, List.map_map]
  refine (List.map_congr_left fun l hl => ?_).trans (List.map_id _)
  obtain ⟨i,hi,rfl⟩ := List.mem_mapIdx.1 hl
  exact Line.line_record_parse _ _

theorem Source.code_records (source : Text) : LineRecord.code (records source) = code source := by
  rw [← LineRecord.code_map_line, map_line_records, code]

/-- What the first pass has noted on its way through the records. -/
structure Survey where
  labels : Labels
  /-- The number of the first line that carries each label. -/
  first : Table Text Int
  address : Address
  diagnostics : List Diagnostic

namespace Survey

def start : Survey := ⟨∅,∅,0,[]⟩

/-- The next record. A label is bound to the address of the line even if it is bound already, but the
first line that carries it stays noted as such. -/
def next (s : Survey) (r : LineRecord) : Survey :=
  if r.isCode then
    if r.label = [] then { s with address := s.address + 1 }
    else
      match s.first.get? r.label with
      | some number =>
        { s with
          labels := s.labels.insert r.label s.address
          address := s.address + 1
          diagnostics := s.diagnostics ++ [⟨r.number,r.statement,.duplicateLabel number⟩] }
      | none =>
        { s with
          labels := s.labels.insert r.label s.address
          first := s.first.insert r.label r.number
          address := s.address + 1 }
  else s

def run (rs : List LineRecord) : Survey := rs.foldl next start

@[simp] theorem run_concat (rs : List LineRecord) (r : LineRecord) :
    run (rs ++ [r]) = (run rs).next r := by
  simp [run]

variable {s : Survey} {r : LineRecord} {number : Int}

theorem next_of_not_isCode (h : r.isCode = false) : s.next r = s := by
  simp [next, h]

theorem next_unlabelled (h : r.isCode = true) (hl : r.label = []) :
    s.next r = ⟨s.labels,s.first,s.address + 1,s.diagnostics⟩ := by
  simp [next, h, hl]

theorem next_again (h : r.isCode = true) (hl : r.label ≠ [])
    (hf : s.first.get? r.label = some number) : s.next r =
      ⟨s.labels.insert r.label s.address,s.first,s.address + 1,
        s.diagnostics ++ [⟨r.number,r.statement,.duplicateLabel number⟩]⟩ := by
  simp [next, h, hl, hf]

theorem next_fresh (h : r.isCode = true) (hl : r.label ≠ [])
    (hf : s.first.get? r.label = none) : s.next r =
      ⟨s.labels.insert r.label s.address,s.first.insert r.label r.number,s.address + 1,
        s.diagnostics⟩ := by
  simp [next, h, hl, hf]

/-- From any point on, the rest of the records adds its labels and its duplicates. -/
theorem foldl_next {k : Nat} (h : s.address = Int64.ofNat k) (rs : List LineRecord) :
    (rs.foldl next s).labels = Labels.bindFrom k s.labels (LineRecord.code rs) ∧
    (rs.foldl next s).address = Int64.ofNat (k + (LineRecord.code rs).length) ∧
    (rs.foldl next s).diagnostics =
      s.diagnostics ++ Labels.duplicatesFrom s.first (LineRecord.code rs) := by
  induction rs generalizing s k with
  | nil => simp [Labels.bindFrom, Labels.duplicatesFrom, h]
  | cons r rs ih =>
    rw [List.foldl_cons, LineRecord.code_cons]
    cases hc : r.isCode with
    | false =>
      rw [next_of_not_isCode hc, LineRecord.code?_of_not_isCode hc]
      exact ih h
    | true =>
      have haddress : s.address + 1 = Int64.ofNat (k + 1) := by rw [h, Int64.ofNat_add]; rfl
      have hlength : k + (r.codeLine :: LineRecord.code rs).length =
          k + 1 + (LineRecord.code rs).length := by
        simp only [List.length_cons]
        omega
      simp only [LineRecord.code?_of_isCode hc, Option.toList_some, List.singleton_append, hlength]
      by_cases hl : r.label = []
      · have hnone : r.codeLine.statement.label = none := if_pos hl
        rw [next_unlabelled hc hl, Labels.bindFrom, Labels.duplicatesFrom, hnone]
        exact ih haddress
      · have hsome : r.codeLine.statement.label = some r.label := if_neg hl
        cases hf : s.first.get? r.label with
        | none =>
          rw [next_fresh hc hl hf, Labels.bindFrom, Labels.duplicatesFrom, hsome, ← h]
          simp only [hf]
          exact ih haddress
        | some number =>
          rw [next_again hc hl hf, Labels.bindFrom, Labels.duplicatesFrom, hsome, ← h]
          simp only [hf]
          refine ⟨(ih haddress).1,(ih haddress).2.1,(ih haddress).2.2.trans ?_⟩
          rw [List.append_assoc, List.singleton_append]
          rfl

theorem run_eq_resolve (rs : List LineRecord) :
    (run rs).labels = (resolve (LineRecord.code rs)).labels ∧
    (run rs).address = Int64.ofNat (resolve (LineRecord.code rs)).count ∧
    (run rs).diagnostics = (resolve (LineRecord.code rs)).diagnostics := by
  have h := foldl_next (s := start) (k := 0) rfl rs
  rwa [Nat.zero_add] at h

end Survey

/-- What the second pass has emitted on its way through the records. -/
structure Emission where
  words : List Word
  diagnostics : List Diagnostic

namespace Emission

/-- The next record. A line of code stands at the address that the words so far give it, and adds its
word, or a zero and its diagnostic; any other line adds nothing. -/
def next (labels : Labels) (e : Emission) (r : LineRecord) : Emission :=
  if r.isCode then
    match r.codeLine.encode (Int64.ofNat e.words.length) labels with
    | .ok w => ⟨e.words ++ [w],e.diagnostics⟩
    | .error d => ⟨e.words ++ [0],e.diagnostics ++ [d]⟩
  else e

def run (labels : Labels) (rs : List LineRecord) : Emission := rs.foldl (next labels) ⟨[],[]⟩

/-- What stands in an encoding. -/
def ofEncoding (e : Encoding) : Emission := ⟨e.words,e.diagnostics⟩

theorem next_ofEncoding (labels : Labels) (code : List CodeLine) (r : LineRecord) :
    next labels (ofEncoding (encode labels code)) r =
      ofEncoding (encode labels (code ++ r.code?.toList)) := by
  cases hc : r.isCode with
  | false => simp [next, hc, LineRecord.code?_of_not_isCode hc]
  | true =>
    cases he : r.codeLine.encode (Int64.ofNat code.length) labels with
    | ok w => simp [next, hc, ofEncoding, he, encode_concat, LineRecord.code?_of_isCode hc]
    | error d => simp [next, hc, ofEncoding, he, encode_concat, LineRecord.code?_of_isCode hc]

theorem foldl_next_ofEncoding (labels : Labels) (code : List CodeLine) (rs : List LineRecord) :
    rs.foldl (next labels) (ofEncoding (encode labels code)) =
      ofEncoding (encode labels (code ++ LineRecord.code rs)) := by
  induction rs generalizing code with
  | nil => simp
  | cons r rs ih =>
    rw [List.foldl_cons, next_ofEncoding, ih, LineRecord.code_cons, List.append_assoc]

/-- Record by record the second pass comes to the encoding of the lines of code. -/
theorem run_eq (labels : Labels) (rs : List LineRecord) :
    run labels rs = ofEncoding (encode labels (LineRecord.code rs)) :=
  foldl_next_ofEncoding labels [] rs

end Emission
end Asm18
