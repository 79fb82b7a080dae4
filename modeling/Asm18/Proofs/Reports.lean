import Asm18.Proofs.Encoding
import Asm18.Proofs.Labels

/-! What lines of code have to report. A line is judged with the lines before it, whose number is
its address. The first pass reports each line whose label is carried already, the second each line
without a word, and neither loses, repeats or moves a report. -/
namespace Asm18

/-- One diagnostic for each line of code that is judged to have one, in the order of the lines. -/
def reports (judge : List CodeLine → CodeLine → Option Diagnostic) (code : List CodeLine) :
    List Diagnostic :=
  (code.mapIdx fun k c => judge (code.take k) c).filterMap id

@[simp] theorem reports_nil (judge : List CodeLine → CodeLine → Option Diagnostic) :
    reports judge [] = [] := rfl

theorem reports_cons (judge : List CodeLine → CodeLine → Option Diagnostic) (c : CodeLine)
    (code : List CodeLine) : reports judge (c :: code) =
      (judge [] c).toList ++ reports (fun earlier => judge (c :: earlier)) code := by
  simp only [reports, List.mapIdx_cons, List.take_zero, List.take_succ_cons]
  cases hj : judge [] c with
  | none => simp
  | some d => simp

theorem reports_append (judge : List CodeLine → CodeLine → Option Diagnostic)
    (a b : List CodeLine) : reports judge (a ++ b) =
      reports judge a ++ reports (fun earlier => judge (a ++ earlier)) b := by
  induction a generalizing judge with
  | nil => rfl
  | cons c a ih => simp only [List.cons_append, reports_cons, ih, List.append_assoc]

theorem mem_reports_iff {judge : List CodeLine → CodeLine → Option Diagnostic}
    {code : List CodeLine} {d : Diagnostic} : d ∈ reports judge code ↔
      ∃ k c, code[k]? = some c ∧ judge (code.take k) c = some d := by
  rw [reports, List.mem_filterMap]
  simp only [id, exists_eq_right, List.mem_iff_getElem?, List.getElem?_mapIdx,
    Option.map_eq_some_iff]

namespace CodeLine

/-- The diagnostic of a line whose label one of the lines before it carries. It names the first of
these lines. -/
def duplicate? (earlier : List CodeLine) (c : CodeLine) : Option Diagnostic :=
  c.statement.label.bind fun name =>
    (earlier.find? fun e => e.statement.label = some name).map fun first =>
      ⟨c.number,c.statement,.duplicateLabel first.number⟩

/-- The diagnostic of a line that has no word at its address. -/
def failure? (labels : Labels) (earlier : List CodeLine) (c : CodeLine) : Option Diagnostic :=
  match c.statement.encode (Int64.ofNat earlier.length) labels with
  | .ok _ => none
  | .error f => some ⟨c.number,c.statement,f⟩

end CodeLine

namespace Labels

/-- The table knows the number of the first line that carries each label. -/
def KnowsFirst (seen : Table Text Int) (earlier : List CodeLine) : Prop :=
  ∀ name, seen.get? name =
    (earlier.find? fun e => e.statement.label = some name).map CodeLine.number

theorem knowsFirst_empty : KnowsFirst ∅ [] := fun _ => rfl

namespace KnowsFirst

variable {seen : Table Text Int} {earlier : List CodeLine} {c : CodeLine} {name : Text}

/-- A line without a label, or with one that is known, brings nothing new. -/
theorem concat_known (h : KnowsFirst seen earlier)
    (hc : ∀ name, c.statement.label = some name → seen.get? name ≠ none) :
    KnowsFirst seen (earlier ++ [c]) := by
  intro other
  rw [h other, List.find?_append]
  cases hf : earlier.find? fun e => e.statement.label = some other with
  | some first => rfl
  | none =>
    have hne : c.statement.label ≠ some other := by
      intro hl
      have hs := hc other hl
      rw [h other, hf] at hs
      exact hs rfl
    simp [hne]

theorem concat_new (h : KnowsFirst seen earlier) (hl : c.statement.label = some name)
    (hs : seen.get? name = none) :
    KnowsFirst (seen.insert name c.number) (earlier ++ [c]) := by
  intro other
  rw [Table.get?_insert, h other, List.find?_append]
  by_cases ho : other = name
  · subst ho
    rw [h other, Option.map_eq_none_iff] at hs
    simp [hs, hl]
  · have hne : c.statement.label ≠ some other := by simp [hl, Ne.symm ho]
    simp [ho, hne]

end KnowsFirst

/-- From a table of the lines before, the scan reports the lines that carry a label again. -/
theorem duplicatesFrom_eq_reports {seen : Table Text Int} {earlier : List CodeLine}
    (h : KnowsFirst seen earlier) (code : List CodeLine) : duplicatesFrom seen code =
      reports (fun before => CodeLine.duplicate? (earlier ++ before)) code := by
  induction code generalizing seen earlier with
  | nil => rfl
  | cons c code ih =>
    have hnext : (fun before => CodeLine.duplicate? (earlier ++ c :: before)) =
        fun before => CodeLine.duplicate? (earlier ++ [c] ++ before) := by simp
    rw [reports_cons, List.append_nil, hnext, duplicatesFrom]
    cases hl : c.statement.label with
    | none =>
      have hknown := h.concat_known (c := c) (by simp [hl])
      simp [CodeLine.duplicate?, hl, ih hknown]
    | some name =>
      have hfirst := h name
      cases hs : seen.get? name with
      | some first =>
        have hknown := h.concat_known (c := c) (by simp [hl, hs])
        rw [hs, eq_comm, Option.map_eq_some_iff] at hfirst
        obtain ⟨e,he,rfl⟩ := hfirst
        simp [CodeLine.duplicate?, hl, hs, he, ih hknown]
      | none =>
        rw [hs, eq_comm, Option.map_eq_none_iff] at hfirst
        simp [CodeLine.duplicate?, hl, hs, hfirst, ih (h.concat_new hl hs)]

theorem duplicatesFrom_empty (code : List CodeLine) :
    duplicatesFrom ∅ code = reports CodeLine.duplicate? code :=
  duplicatesFrom_eq_reports knowsFirst_empty code

end Labels

theorem CodeLine.fault?_encode (c : CodeLine) (earlier : List CodeLine) (labels : Labels) :
    Encoding.fault? (c.encode (Int64.ofNat earlier.length) labels) = c.failure? labels earlier := by
  unfold CodeLine.failure?
  cases he : c.statement.encode (Int64.ofNat earlier.length) labels with
  | ok w => rw [CodeLine.encode_eq_ok_iff.2 he, Encoding.fault?]
  | error f => rw [CodeLine.encode_of_error he, Encoding.fault?]

theorem diagnostics_encode (labels : Labels) (code : List CodeLine) :
    (encode labels code).diagnostics = reports (CodeLine.failure? labels) code := by
  have hfault : (code.mapIdx fun k c => c.failure? labels (code.take k)) =
      (encode labels code).map Encoding.fault? := by
    rw [List.mapIdx_eq_iff]
    intro k
    rw [List.getElem?_map, encode, List.getElem?_mapIdx, Option.map_map]
    cases hc : code[k]? with
    | none => rfl
    | some c =>
      have hk := (List.getElem?_eq_some_iff.1 hc).1
      have hlen : (code.take k).length = k := List.length_take_of_le (Nat.le_of_lt hk)
      simp [← CodeLine.fault?_encode, hlen]
  rw [reports, hfault, List.filterMap_map]
  rfl

end Asm18
