import Mathlib.Data.List.Forall2
import Asm18.Proofs.Outcome

/-! Assembling depends on the statements only. Between two sources with the same statements, one
after the other, spacing, comments, skipped lines and numbers of lines may differ as they like: words
and labels are the same, and so are the diagnostics but for the numbers of the lines they point at. -/
namespace Asm18

/-- Diagnostics of two programs that say the same about the lines at one address. -/
structure Corresponds (a b : List CodeLine) (d e : Diagnostic) : Prop where
  kind : d.kind = e.kind
  mnemonic : d.statement.mnemonic = e.statement.mnemonic
  operand : d.statement.operand = e.statement.operand
  lines : ∃ (k : Nat) (c c' : CodeLine), a[k]? = some c ∧ b[k]? = some c' ∧
    d.line = c.number ∧ d.statement = c.statement ∧ e.line = c'.number ∧ e.statement = c'.statement

/-- If lines at the same address are judged alike, so are the programs. -/
theorem forall₂_reports {R : Diagnostic → Diagnostic → Prop}
    {judge judge' : List CodeLine → CodeLine → Option Diagnostic} {a b : List CodeLine}
    (hl : a.length = b.length) (h : ∀ k c c', a[k]? = some c → b[k]? = some c' →
      Option.Rel R (judge (a.take k) c) (judge' (b.take k) c')) :
    List.Forall₂ R (reports judge a) (reports judge' b) := by
  induction a generalizing b judge judge' with
  | nil =>
    rw [List.length_nil, eq_comm, List.length_eq_zero_iff] at hl
    subst hl
    exact .nil
  | cons c a ih =>
    cases b with
    | nil => cases hl
    | cons c' b =>
      have hfirst : Option.Rel R (judge [] c) (judge' [] c') := h 0 c c' rfl rfl
      have hrest : List.Forall₂ R (reports (fun earlier => judge (c :: earlier)) a)
          (reports (fun earlier => judge' (c' :: earlier)) b) :=
        ih (by simpa using hl) fun k d d' hd hd' => h (k + 1) d d' hd hd'
      rw [reports_cons, reports_cons]
      generalize judge [] c = report, judge' [] c' = report' at hfirst
      cases hfirst with
      | none => exact hrest
      | some hr => exact .cons hr hrest

section Same

variable {a b : List CodeLine} (h : a.map CodeLine.statement = b.map CodeLine.statement)
include h

theorem length_of_same : a.length = b.length := by
  simpa using congrArg List.length h

theorem labels_of_same : Labels.bindFrom 0 ∅ a = Labels.bindFrom 0 ∅ b := by
  apply Labels.bindFrom_congr
  simpa [Function.comp_def] using congrArg (List.map Statement.label) h

theorem statement_of_same {k : Nat} {c c' : CodeLine} (hc : a[k]? = some c)
    (hc' : b[k]? = some c') : c.statement = c'.statement := by
  have hk := congrArg (·[k]?) h
  simpa [hc, hc'] using hk

/-- Whether an earlier line carries a label can be told by the statements. -/
theorem find?_of_same (name : Text) :
    (a.find? fun e => e.statement.label = some name).isSome =
      (b.find? fun e => e.statement.label = some name).isSome := by
  have hfind := congrArg (List.find? fun s => s.label = some name) h
  rw [List.find?_map, List.find?_map] at hfind
  simpa [Function.comp_def] using congrArg Option.isSome hfind

theorem corresponds_of_same {k : Nat} {c c' : CodeLine} (hc : a[k]? = some c)
    (hc' : b[k]? = some c') {f f' : Fault} (hf : f.kind = f'.kind) :
    Corresponds a b ⟨c.number,c.statement,f⟩ ⟨c'.number,c'.statement,f'⟩ := by
  have hs := statement_of_same h hc hc'
  exact ⟨hf,congrArg Statement.mnemonic hs,congrArg Statement.operand hs,
    k,c,c',hc,hc',rfl,rfl,rfl,rfl⟩

theorem duplicate?_of_same {k : Nat} {c c' : CodeLine} (hc : a[k]? = some c)
    (hc' : b[k]? = some c') :
    Option.Rel (Corresponds a b) (c.duplicate? (a.take k)) (c'.duplicate? (b.take k)) := by
  have hs := statement_of_same h hc hc'
  have htake : (a.take k).map CodeLine.statement = (b.take k).map CodeLine.statement := by
    rw [List.map_take, List.map_take, h]
  cases hl : c'.statement.label with
  | none => simp [CodeLine.duplicate?, hs, hl]
  | some name =>
    have hfind := find?_of_same htake name
    cases ha : (a.take k).find? fun e => e.statement.label = some name with
    | none =>
      rw [ha, Option.isSome_none, eq_comm, Option.isSome_eq_false_iff, Option.isNone_iff_eq_none]
        at hfind
      simp [CodeLine.duplicate?, hs, hl, ha, hfind]
    | some first =>
      rw [ha, Option.isSome_some, eq_comm, Option.isSome_iff_exists] at hfind
      obtain ⟨first',hb⟩ := hfind
      have hrel : Corresponds a b ⟨c.number,c.statement,.duplicateLabel first.number⟩
          ⟨c'.number,c'.statement,.duplicateLabel first'.number⟩ :=
        corresponds_of_same h hc hc' rfl
      simpa [CodeLine.duplicate?, hs, hl, ha, hb] using hrel

theorem failure?_of_same (labels : Labels) {k : Nat} {c c' : CodeLine} (hc : a[k]? = some c)
    (hc' : b[k]? = some c') :
    Option.Rel (Corresponds a b) (c.failure? labels (a.take k)) (c'.failure? labels (b.take k)) := by
  have hs := statement_of_same h hc hc'
  have hlen : (a.take k).length = (b.take k).length := by
    rw [List.length_take, List.length_take, length_of_same h]
  cases he : c'.statement.encode (Int64.ofNat (b.take k).length) labels with
  | ok w =>
    simp only [CodeLine.failure?, hs, hlen, he]
    exact .none
  | error f =>
    have hrel : Corresponds a b ⟨c.number,c.statement,f⟩ ⟨c'.number,c'.statement,f⟩ :=
      corresponds_of_same h hc hc' rfl
    rw [hs] at hrel
    simp only [CodeLine.failure?, hs, hlen, he]
    exact .some hrel

/-- Words depend on the statements and their addresses. -/
theorem words_of_same (labels : Labels) :
    (encode labels a).words = (encode labels b).words := by
  apply List.ext_getElem?
  intro k
  have hlen := length_of_same h
  by_cases hk : k < a.length
  · have hc := List.getElem?_eq_getElem hk
    have hc' := List.getElem?_eq_getElem (hlen ▸ hk)
    rw [getElem?_words_encode hc, getElem?_words_encode hc', statement_of_same h hc hc']
  · rw [List.getElem?_eq_none (by simpa using hk), List.getElem?_eq_none (by simpa [← hlen] using hk)]

theorem duplicates_of_same : List.Forall₂ (Corresponds a b) (reports CodeLine.duplicate? a)
    (reports CodeLine.duplicate? b) :=
  forall₂_reports (length_of_same h) fun _ _ _ hc hc' => duplicate?_of_same h hc hc'

theorem diagnosis_of_same : List.Forall₂ (Corresponds a b) (diagnosis a) (diagnosis b) := by
  have hlabels : (resolve a).labels = (resolve b).labels := labels_of_same h
  rw [diagnosis, diagnosis, hlabels]
  refine List.rel_append (duplicates_of_same h) ?_
  exact forall₂_reports (length_of_same h) fun _ _ _ hc hc' => failure?_of_same h _ hc hc'

end Same

/-- Results that agree but for the numbers of the lines that their diagnostics point at. -/
inductive Agree (a b : List CodeLine) :
    Except Failure (List Word) → Except Failure (List Word) → Prop where
  | words (ws : List Word) : Agree a b (.ok ws) (.ok ws)
  | tooLarge (count : Nat) : Agree a b (.error (.tooLarge count)) (.error (.tooLarge count))
  | faulty {ds es : List Diagnostic} : List.Forall₂ (Corresponds a b) ds es →
      Agree a b (.error (.faulty ds)) (.error (.faulty es))

theorem agree_of_same {on on' : Bool} {s₁ s₂ : Text}
    (h : (Source.code s₁).map CodeLine.statement = (Source.code s₂).map CodeLine.statement) :
    Agree (Source.code s₁) (Source.code s₂) (assemble on s₁).result (assemble on' s₂).result := by
  have hlen := length_of_same h
  rcases Nat.lt_or_ge memoryWords (Source.code s₁).length with hl | hl
  · rw [assemble_of_lt hl, assemble_of_lt (hlen ▸ hl)]
    simp only [hlen]
    exact .tooLarge _
  · have hd := diagnosis_of_same h
    have hlabels : (resolve (Source.code s₁)).labels = (resolve (Source.code s₂)).labels :=
      labels_of_same h
    rw [result_assemble_of_le hl, result_assemble_of_le (hlen ▸ hl), hlabels, words_of_same h]
    by_cases hnil : diagnosis (Source.code s₁) = []
    · have hnil' : diagnosis (Source.code s₂) = [] := by
        rwa [hnil, List.forall₂_nil_left_iff] at hd
      rw [if_pos hnil, if_pos hnil']
      exact .words _
    · have hnil' : diagnosis (Source.code s₂) ≠ [] := by
        intro he
        rw [he, List.forall₂_nil_right_iff] at hd
        exact hnil hd
      rw [if_neg hnil, if_neg hnil']
      exact .faulty hd

/-- Two sources with the same statements assemble alike, in sessions with any past: the results
agree, the labels are the same, and there are as many diagnostics, each with another of its kind on
the same statement at the same address. -/
theorem assemble_depends_on_statements (s t : Session) {s₁ s₂ : Text}
    (h : (Source.code s₁).map CodeLine.statement = (Source.code s₂).map CodeLine.statement) :
    Agree (Source.code s₁) (Source.code s₂) (s.assemble s₁).1 (t.assemble s₂).1 ∧
    (s.assemble s₁).2.labels = (t.assemble s₂).2.labels ∧
    List.Forall₂ (Corresponds (Source.code s₁) (Source.code s₂))
      (s.assemble s₁).2.diagnostics (t.assemble s₂).2.diagnostics := by
  refine ⟨agree_of_same h,?_,?_⟩
  · rw [Session.labels_assemble, Session.labels_assemble, labels_of_same h]
  · have hlen := length_of_same h
    rw [Session.diagnostics_assemble, Session.diagnostics_assemble]
    rcases Nat.lt_or_ge memoryWords (Source.code s₁).length with hl | hl
    · rw [diagnostics_assemble_of_lt hl, diagnostics_assemble_of_lt (hlen ▸ hl)]
      exact duplicates_of_same h
    · rw [diagnostics_assemble_of_le hl, diagnostics_assemble_of_le (hlen ▸ hl)]
      exact diagnosis_of_same h

/-- The statements of `crooked` in another layout, with a line that is skipped. -/
def crookedApart : Text :=
  utf8 "oops\n\nagain:\tload  r1;first\r\nagain: wait r1 twice\n\n; note\n\tbr nowhere"

theorem assemble_depends_on_statements_crooked :
    (Source.code crooked).map CodeLine.statement =
      (Source.code crookedApart).map CodeLine.statement ∧
    (Session.start.assemble crooked).2.labels = (Session.start.assemble crookedApart).2.labels ∧
    ((Session.start.setListing true).assemble crookedApart).2.diagnostics.length = 3 := by
  have h : (Source.code crooked).map CodeLine.statement =
      (Source.code crookedApart).map CodeLine.statement := by decide +kernel
  have hthree : (Session.start.assemble crooked).2.diagnostics.length = 3 := by decide +kernel
  have hsame := assemble_depends_on_statements .start .start h
  have hlisted := assemble_depends_on_statements .start (Session.start.setListing true) h
  exact ⟨h,hsame.2.1,hlisted.2.2.length_eq.symm.trans hthree⟩

end Asm18
