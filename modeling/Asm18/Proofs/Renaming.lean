import Mathlib.Data.List.Nodup
import Mathlib.Logic.Equiv.Basic
import Asm18.Proofs.Passes

/-! The names of labels. A label is only ever compared with other labels, so that a program in which
labels have other names, each its own, goes through both passes in the same way. What a branch has for
an operand is a label, whatever it looks like; any other operand is not. -/
namespace Asm18

namespace Table

variable {κ κ' α : Type}

/-- The table with each key replaced. -/
def mapKeys (t : Table κ α) (f : κ → κ') (hf : Function.Injective f) : Table κ' α where
  entries := t.entries.map fun e => (f e.1,e.2)
  nodup_keys := by
    rw [List.map_map]
    have hkeys : Prod.fst ∘ (fun e : κ × α => (f e.1,e.2)) = f ∘ Prod.fst := rfl
    rw [hkeys, ← List.map_map]
    exact t.nodup_keys.map hf

variable [DecidableEq κ] [DecidableEq κ'] {f : κ → κ'} (hf : Function.Injective f)

@[simp] theorem mapKeys_insert (t : Table κ α) (k : κ) (a : α) :
    (t.insert k a).mapKeys f hf = (t.mapKeys f hf).insert (f k) a := by
  simp only [mapKeys, insert, List.map_cons, List.filter_map, Function.comp_def, hf.ne_iff]

@[simp] theorem get?_mapKeys_apply (t : Table κ α) (k : κ) :
    (t.mapKeys f hf).get? (f k) = t.get? k := by
  apply Option.ext
  intro a
  simp [get?_eq_some_iff, mapKeys, hf.eq_iff]

theorem get?_mapKeys_eq_some_iff {t : Table κ α} {k : κ'} {a : α} :
    (t.mapKeys f hf).get? k = some a ↔ ∃ j, f j = k ∧ t.get? j = some a := by
  simp only [get?_eq_some_iff, mapKeys, List.mem_map, Prod.mk.injEq, Prod.exists]
  constructor
  · rintro ⟨j,b,hmem,rfl,rfl⟩
    exact ⟨j,rfl,hmem⟩
  · rintro ⟨j,rfl,hmem⟩
    exact ⟨j,a,hmem,rfl,rfl⟩

end Table

/-- Other names for labels. Different labels have different names, and where there is none there is
none. -/
structure Renaming where
  name : Text → Text
  injective : Function.Injective name
  empty : name [] = []

instance : CoeFun Renaming fun _ => Text → Text := ⟨Renaming.name⟩

theorem Renaming.eq_nil_iff (ρ : Renaming) {t : Text} : ρ t = [] ↔ t = [] := by
  constructor
  · intro h
    exact ρ.injective (h.trans ρ.empty.symm)
  · rintro rfl
    exact ρ.empty

theorem Renaming.map_token (ρ : Renaming) (t : Text) :
    (Statement.token t).map ρ = Statement.token (ρ t) := by
  by_cases h : t = [] <;> simp [Statement.token, ρ.eq_nil_iff, h]

/-- Instructions that have a label for their operand. -/
def isBranch (mnemonic : Text) : Bool :=
  (Instruction.lookup mnemonic).any fun i => i.operand = .branch

namespace Statement

def rename (ρ : Renaming) (s : Statement) : Statement :=
  ⟨s.label.map ρ,s.mnemonic,if isBranch s.mnemonic then s.operand.map ρ else s.operand⟩

@[simp] theorem label_rename (ρ : Renaming) (s : Statement) :
    (s.rename ρ).label = s.label.map ρ := rfl

@[simp] theorem mnemonic_rename (ρ : Renaming) (s : Statement) :
    (s.rename ρ).mnemonic = s.mnemonic := rfl

end Statement

namespace CodeLine

variable (ρ : Renaming) (c : CodeLine)

def rename : CodeLine := { c with statement := c.statement.rename ρ }

@[simp] theorem statement_rename : (c.rename ρ).statement = c.statement.rename ρ := rfl

end CodeLine

namespace LineRecord

/-- A record has the other name for its label, and a branch has it for its operand, whatever the kind
of the record. -/
def rename (ρ : Renaming) (r : LineRecord) : LineRecord :=
  { r with
    label := ρ r.label
    operand := if isBranch r.mnemonic then ρ r.operand else r.operand }

theorem statement_rename (ρ : Renaming) (r : LineRecord) :
    (r.rename ρ).statement = r.statement.rename ρ := by
  cases hb : isBranch r.mnemonic <;>
    simp [rename, statement, Statement.rename, ρ.map_token, hb]

theorem code?_rename (ρ : Renaming) (r : LineRecord) :
    (r.rename ρ).code? = r.code?.map (CodeLine.rename ρ) := by
  have hkind : (r.rename ρ).isCode = r.isCode := rfl
  cases hc : r.isCode with
  | false => rw [code?_of_not_isCode hc, code?_of_not_isCode (hkind.trans hc), Option.map_none]
  | true =>
    rw [code?_of_isCode hc, code?_of_isCode (hkind.trans hc), codeLine, statement_rename]
    rfl

theorem code_rename (ρ : Renaming) (rs : List LineRecord) :
    code (rs.map (rename ρ)) = (code rs).map (CodeLine.rename ρ) :=
  code_map (code?_rename ρ) rs

end LineRecord

def Diagnostic.rename (ρ : Renaming) (d : Diagnostic) : Diagnostic :=
  { d with statement := d.statement.rename ρ }

namespace Labels

variable (ρ : Renaming) (ls : Labels)

def rename : Labels := ls.mapKeys ρ ρ.injective

@[simp] theorem rename_insert (name : Text) (a : Address) :
    rename ρ (ls.insert name a) = (ls.rename ρ).insert (ρ name) a :=
  Table.mapKeys_insert ρ.injective ls name a

@[simp] theorem get?_rename (name : Text) : (ls.rename ρ).get? (ρ name) = ls.get? name :=
  Table.get?_mapKeys_apply ρ.injective ls name

end Labels

/-- If lines are judged alike whatever is done to them and to the lines before, the reports of a
program are alike. -/
theorem reports_map {judge judge' : List CodeLine → CodeLine → Option Diagnostic}
    {f : CodeLine → CodeLine} {g : Diagnostic → Diagnostic}
    (h : ∀ earlier c, judge' (earlier.map f) (f c) = (judge earlier c).map g)
    (code : List CodeLine) : reports judge' (code.map f) = (reports judge code).map g := by
  induction code generalizing judge judge' with
  | nil => rfl
  | cons c code ih =>
    have hfirst := h [] c
    have hrest : reports (fun earlier => judge' (f c :: earlier)) (code.map f) =
        (reports (fun earlier => judge (c :: earlier)) code).map g :=
      ih fun earlier d => h (c :: earlier) d
    rw [List.map_nil] at hfirst
    rw [List.map_cons, reports_cons, reports_cons, List.map_append, hrest, hfirst]
    cases judge [] c <;> rfl

section Passes

variable (ρ : Renaming)

/-- The first pass binds the other names to the same addresses. -/
theorem Labels.bindFrom_rename (k : Nat) (ls : Labels) (code : List CodeLine) :
    bindFrom k (ls.rename ρ) (code.map (CodeLine.rename ρ)) = (bindFrom k ls code).rename ρ := by
  induction code generalizing k ls with
  | nil => rfl
  | cons c code ih =>
    rw [List.map_cons, bindFrom, bindFrom, CodeLine.statement_rename, Statement.label_rename]
    cases c.statement.label with
    | none => exact ih (k + 1) ls
    | some name =>
      have hrest := ih (k + 1) (ls.insert name (Int64.ofNat k))
      rwa [rename_insert] at hrest

/-- A branch finds its label under the other name; no other instruction has to look for one. -/
theorem OperandClass.field_rename {i : Instruction} {s : Statement}
    (hi : Instruction.lookup s.mnemonic = some i) (here : Address) (labels : Labels) :
    i.operand.field here (labels.rename ρ) (s.rename ρ).operand =
      i.operand.field here labels s.operand := by
  have hbranch : isBranch s.mnemonic = decide (i.operand = .branch) := by simp [isBranch, hi]
  cases hc : i.operand with
  | branch =>
    rw [Statement.rename, hbranch, hc]
    cases s.operand with
    | none => rfl
    | some name => simp [field, branchField]
  | none | immediate | register =>
    rw [Statement.rename, hbranch, hc]
    rfl

theorem Statement.encode_rename (s : Statement) (here : Address) (labels : Labels) :
    (s.rename ρ).encode here (labels.rename ρ) = s.encode here labels := by
  rw [Statement.encode, Statement.encode, Statement.mnemonic_rename]
  cases hi : Instruction.lookup s.mnemonic with
  | none => rfl
  | some i => simp only [OperandClass.field_rename ρ hi]

theorem CodeLine.duplicate?_rename (earlier : List CodeLine) (c : CodeLine) :
    (c.rename ρ).duplicate? (earlier.map (rename ρ)) =
      (c.duplicate? earlier).map (Diagnostic.rename ρ) := by
  rw [duplicate?, duplicate?, statement_rename, Statement.label_rename]
  cases c.statement.label with
  | none => rfl
  | some name =>
    have hlabel : ∀ e : CodeLine, (e.rename ρ).statement.label = some (ρ name) ↔
        e.statement.label = some name := by
      intro e
      cases he : e.statement.label <;> simp [he, ρ.injective.eq_iff]
    simp only [Option.map_some, Option.bind_some, List.find?_map, Function.comp_def, hlabel,
      Option.map_map]
    rfl

theorem CodeLine.failure?_rename (labels : Labels) (earlier : List CodeLine) (c : CodeLine) :
    (c.rename ρ).failure? (labels.rename ρ) (earlier.map (rename ρ)) =
      (c.failure? labels earlier).map (Diagnostic.rename ρ) := by
  rw [failure?, failure?, statement_rename, Statement.encode_rename, List.length_map]
  cases c.statement.encode (Int64.ofNat earlier.length) labels <;> rfl

theorem words_rename (labels : Labels) (code : List CodeLine) :
    (encode (labels.rename ρ) (code.map (CodeLine.rename ρ))).words = (encode labels code).words := by
  apply List.ext_getElem?
  intro k
  cases hc : code[k]? with
  | none =>
    rw [List.getElem?_eq_none_iff] at hc
    rw [List.getElem?_eq_none (by simpa using hc), List.getElem?_eq_none (by simpa using hc)]
  | some c =>
    have hc' : (code.map (CodeLine.rename ρ))[k]? = some (c.rename ρ) := by simp [hc]
    rw [getElem?_words_encode hc, getElem?_words_encode hc', CodeLine.statement_rename,
      Statement.encode_rename]

theorem labels_resolve_rename (code : List CodeLine) :
    (resolve (code.map (CodeLine.rename ρ))).labels = (resolve code).labels.rename ρ :=
  Labels.bindFrom_rename ρ 0 ∅ code

/-- The first pass reports the same lines, under the other names. -/
theorem diagnostics_resolve_rename (code : List CodeLine) :
    (resolve (code.map (CodeLine.rename ρ))).diagnostics =
      (resolve code).diagnostics.map (Diagnostic.rename ρ) := by
  simp only [resolve, Labels.duplicatesFrom_empty]
  exact reports_map (CodeLine.duplicate?_rename ρ) code

/-- The second pass reports the same lines, under the other names. -/
theorem diagnostics_encode_rename (labels : Labels) (code : List CodeLine) :
    (encode (labels.rename ρ) (code.map (CodeLine.rename ρ))).diagnostics =
      (encode labels code).diagnostics.map (Diagnostic.rename ρ) := by
  rw [diagnostics_encode, diagnostics_encode]
  exact reports_map (CodeLine.failure?_rename ρ labels) code

end Passes

/-- The names of labels do not matter. In records of any kind let each label have another name, and
branches have it for their operands. There are as many lines of code, the labels have the same
addresses, the words are the same, and both passes report the same kinds on the same lines. -/
theorem passes_rename (ρ : Renaming) (rs : List LineRecord) :
    (resolve (LineRecord.code (rs.map (LineRecord.rename ρ)))).count =
      (resolve (LineRecord.code rs)).count ∧
    (∀ name a,
      (resolve (LineRecord.code (rs.map (LineRecord.rename ρ)))).labels.get? name = some a ↔
        ∃ old, ρ old = name ∧ (resolve (LineRecord.code rs)).labels.get? old = some a) ∧
    (encode (resolve (LineRecord.code (rs.map (LineRecord.rename ρ)))).labels
        (LineRecord.code (rs.map (LineRecord.rename ρ)))).words =
      (encode (resolve (LineRecord.code rs)).labels (LineRecord.code rs)).words ∧
    (resolve (LineRecord.code (rs.map (LineRecord.rename ρ)))).diagnostics.map
        (fun d => (d.line,d.kind)) =
      (resolve (LineRecord.code rs)).diagnostics.map (fun d => (d.line,d.kind)) ∧
    (encode (resolve (LineRecord.code (rs.map (LineRecord.rename ρ)))).labels
        (LineRecord.code (rs.map (LineRecord.rename ρ)))).diagnostics.map
        (fun d => (d.line,d.kind)) =
      (encode (resolve (LineRecord.code rs)).labels (LineRecord.code rs)).diagnostics.map
        (fun d => (d.line,d.kind)) := by
  have hpoints : ((fun d => (d.line,d.kind)) ∘ Diagnostic.rename ρ) = fun d => (d.line,d.kind) := rfl
  rw [LineRecord.code_rename, labels_resolve_rename, diagnostics_resolve_rename,
    diagnostics_encode_rename, words_rename, List.map_map, List.map_map, hpoints]
  refine ⟨List.length_map _,fun name a => ?_,rfl,rfl,rfl⟩
  exact Table.get?_mapKeys_eq_some_iff ρ.injective

/-- Two labels change their names. -/
def Renaming.swap (a b : Text) (ha : a ≠ []) (hb : b ≠ []) : Renaming where
  name := Equiv.swap a b
  injective := (Equiv.swap a b).injective
  empty := Equiv.swap_apply_of_ne_of_ne ha.symm hb.symm

/-- One label is bound twice and another only on a comment, and a register has the name of a label. -/
def namesakes : List LineRecord :=
  [⟨1,[],3,utf8 "go",utf8 "load",utf8 "r1"⟩,⟨2,[],3,[],utf8 "br",utf8 "go"⟩,
    ⟨3,[],1,utf8 "r1",utf8 "br",utf8 "go"⟩,⟨4,[],3,[],utf8 "br",utf8 "r1"⟩,
    ⟨5,[],3,utf8 "go",utf8 "wait",utf8 "go"⟩,⟨6,[],3,utf8 "br",utf8 "br",utf8 "br"⟩]

theorem passes_rename_namesakes :
    let ρ := Renaming.swap (utf8 "go") (utf8 "r1") (by decide) (by decide)
    (resolve (LineRecord.code (namesakes.map (LineRecord.rename ρ)))).labels.get? (utf8 "r1") = some 3 ∧
    (resolve (LineRecord.code (namesakes.map (LineRecord.rename ρ)))).labels.get? (utf8 "go") = none ∧
    (encode (resolve (LineRecord.code (namesakes.map (LineRecord.rename ρ)))).labels
        (LineRecord.code (namesakes.map (LineRecord.rename ρ)))).words = [1,0x20002,0,0,0x20000] ∧
    (resolve (LineRecord.code (namesakes.map (LineRecord.rename ρ)))).diagnostics.map
      (fun d => (d.line,d.kind)) = [(5,.duplicateLabel)] ∧
    (encode (resolve (LineRecord.code (namesakes.map (LineRecord.rename ρ)))).labels
        (LineRecord.code (namesakes.map (LineRecord.rename ρ)))).diagnostics.map
      (fun d => (d.line,d.kind)) = [(4,.unknownLabel),(5,.unexpectedOperand)] := by
  intro ρ
  obtain ⟨-,hlabels,hwords,hfirst,hsecond⟩ := passes_rename ρ namesakes
  have hgo : (resolve (LineRecord.code namesakes)).labels.get? (utf8 "go") = some 3 := by
    decide +kernel
  have hr1 : (resolve (LineRecord.code namesakes)).labels.get? (utf8 "r1") = none := by
    decide +kernel
  refine ⟨(hlabels _ _).2 ⟨utf8 "go",Equiv.swap_apply_left _ _,hgo⟩,?_,?_,?_,?_⟩
  · rw [Option.eq_none_iff_forall_ne_some]
    intro a ha
    obtain ⟨old,hold,hget⟩ := (hlabels _ _).1 ha
    have hname : old = utf8 "r1" := ρ.injective (hold.trans (Equiv.swap_apply_right _ _).symm)
    rw [hname, hr1] at hget
    cases hget
  · rw [hwords]
    decide +kernel
  · rw [hfirst]
    decide +kernel
  · rw [hsecond]
    decide +kernel

end Asm18
