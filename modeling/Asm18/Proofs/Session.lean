import Mathlib.Data.List.Induction
import Asm18.Proofs.Outcome

/-! Assembling again and again. A session can be described by fields that outlive each assembly and
are assigned in its course, some of them only on the way to one of its three ends. Nothing of an
earlier assembly is left in them after the next, so the last source and the last listing mode alone
decide what is shown. -/
namespace Asm18

/-- What can be asked of a session. -/
inductive Call where
  | setListing (on : Bool)
  | assemble (source : Text)
deriving DecidableEq, Repr

namespace Call

def mode? : Call → Option Bool
  | setListing on => some on
  | assemble _ => none

/-- The listing mode that was set last, which is off at first. -/
def lastMode (calls : List Call) : Bool := (calls.filterMap mode?).getLast?.getD false

end Call

namespace Session

def after (s : Session) : Call → Session
  | .setListing on => s.setListing on
  | .assemble source => (s.assemble source).2

def run (s : Session) (calls : List Call) : Session := calls.foldl after s

@[simp] theorem run_nil (s : Session) : s.run [] = s := rfl

@[simp] theorem run_concat (s : Session) (calls : List Call) (c : Call) :
    s.run (calls ++ [c]) = (s.run calls).after c := by
  simp [run]

theorem withListing_after (s : Session) (c : Call) :
    (s.after c).withListing = c.mode?.getD s.withListing := by
  cases c <;> rfl

/-- Only the mode that was set last is left of the calls before an assembly. -/
theorem withListing_run (calls : List Call) :
    (start.run calls).withListing = Call.lastMode calls := by
  induction calls using List.reverseRecOn with
  | nil => rfl
  | append_singleton calls c ih =>
    rw [run_concat, withListing_after, ih]
    cases hc : c.mode? <;> simp [Call.lastMode, hc]

end Session

/-- What an assembler keeps from one assembly to the next. -/
structure Fields where
  labels : Labels
  withListing : Bool
  listing : List Text
  warnings : List Text
  diagnostics : List Diagnostic

namespace Fields

def initial : Fields := ⟨∅,false,[],[],[]⟩

/-- Drops what was reported before. The labels stay until there are others. -/
def clear (f : Fields) : Fields := { f with listing := [], warnings := [], diagnostics := [] }

/-- Takes note of a line that is skipped. -/
def note (f : Fields) (l : Line) : Fields :=
  match l.warning? with
  | none => f
  | some t => { f with warnings := f.warnings ++ [t] }

def bindLabels (f : Fields) (r : Resolution) : Fields :=
  { f with labels := r.labels, diagnostics := f.diagnostics ++ r.diagnostics }

def report (f : Fields) (e : Encoding) : Fields :=
  { f with diagnostics := f.diagnostics ++ e.diagnostics }

/-- Adds an entry to the listing, if there is to be one. -/
def list (f : Fields) (entry : Text) : Fields :=
  if f.withListing then { f with listing := f.listing ++ [entry] } else f

/-- Assembles a source, assigning the fields one after the other. A program that is too large is
left after the first pass. -/
def assemble (f : Fields) (source : Text) : Except Failure (List Word) × Fields :=
  let lines := Source.lines source
  let code := Line.code lines
  let r := resolve code
  let f := (lines.foldl note f.clear).bindLabels r
  if memoryWords < r.count then (.error (.tooLarge r.count),f)
  else
    let e := encode r.labels code
    let f := (Listing.entries code e).foldl list (f.report e)
    (if f.diagnostics = [] then .ok e.words else .error (.faulty f.diagnostics),f)

def after (f : Fields) : Call → Fields
  | .setListing on => { f with withListing := on }
  | .assemble source => (f.assemble source).2

def run (f : Fields) (calls : List Call) : Fields := calls.foldl after f

theorem foldl_note (f : Fields) (lines : List Line) :
    lines.foldl note f = { f with warnings := f.warnings ++ Line.warnings lines } := by
  induction lines generalizing f with
  | nil => simp
  | cons l lines ih =>
    rw [List.foldl_cons, ih]
    cases hw : l.warning? <;> simp [note, Line.warnings, hw]

theorem foldl_list (f : Fields) (entries : List Text) :
    entries.foldl list f =
      { f with listing := if f.withListing then f.listing ++ entries else f.listing } := by
  induction entries generalizing f with
  | nil => simp
  | cons entry entries ih =>
    rw [List.foldl_cons, ih]
    cases hl : f.withListing <;> simp [list, hl]

/-- What an assembly reports, in fields. -/
def ofAssembly (on : Bool) (a : Assembly) : Fields :=
  ⟨a.labels,on,a.listing,a.warnings,a.diagnostics⟩

/-- Whatever the fields hold before, an assembly leaves in them what it reports itself. -/
theorem assemble_eq (f : Fields) (source : Text) : f.assemble source =
    ((Asm18.assemble f.withListing source).result,
      ofAssembly f.withListing (Asm18.assemble f.withListing source)) := by
  simp only [Fields.assemble, foldl_note, foldl_list]
  rcases Nat.lt_or_ge memoryWords (Source.code source).length with h | h
  · have hc : memoryWords < (resolve (Line.code (Source.lines source))).count := h
    rw [if_pos hc, assemble_of_lt h]
    rfl
  · have hc : ¬ memoryWords < (resolve (Line.code (Source.lines source))).count := Nat.not_lt.2 h
    rw [if_neg hc, assemble_of_le h rfl]
    rfl

end Fields

/-- The fields of a session. -/
def Session.fields (s : Session) : Fields :=
  ⟨s.labels,s.withListing,s.listing,s.warnings,s.diagnostics⟩

theorem Fields.assemble_fields (s : Session) (source : Text) :
    s.fields.assemble source = ((s.assemble source).1,(s.assemble source).2.fields) :=
  assemble_eq s.fields source

theorem Fields.after_fields (s : Session) (c : Call) : s.fields.after c = (s.after c).fields := by
  cases c with
  | setListing on => rfl
  | assemble source => exact congrArg Prod.snd (assemble_fields s source)

/-- Fields and session go the same way through any calls. -/
theorem Fields.run_initial (calls : List Call) :
    initial.run calls = (Session.start.run calls).fields := by
  induction calls using List.reverseRecOn with
  | nil => rfl
  | append_singleton calls c ih =>
    rw [Session.run_concat, ← after_fields, ← ih]
    simp [run]

/-- The listing mode does not matter to the result. -/
theorem result_assemble_mode (on on' : Bool) (source : Text) :
    (assemble on source).result = (assemble on' source).result := by
  rcases Nat.lt_or_ge memoryWords (Source.code source).length with h | h
  · rw [assemble_of_lt h, assemble_of_lt h]
  · rw [result_assemble_of_le h, result_assemble_of_le h]

theorem diagnostics_assemble_mode (on on' : Bool) (source : Text) :
    (assemble on source).diagnostics = (assemble on' source).diagnostics := by
  rcases Nat.lt_or_ge memoryWords (Source.code source).length with h | h
  · rw [diagnostics_assemble_of_lt h, diagnostics_assemble_of_lt h]
  · rw [diagnostics_assemble_of_le h, diagnostics_assemble_of_le h]

namespace Session

@[simp] theorem warnings_assemble (s : Session) (source : Text) :
    (s.assemble source).2.warnings = Line.warnings (Source.lines source) :=
  Asm18.warnings_assemble s.withListing source

@[simp] theorem listing_assemble (s : Session) (source : Text) :
    (s.assemble source).2.listing = (Asm18.assemble s.withListing source).listing := rfl

end Session

/-- An assembler can be used again. After any calls, an assembly shows what the first one of a
session with the same listing mode would show, and setting the mode changes nothing that is shown
already. -/
theorem session_leaks_nothing (calls : List Call) (source : Text) :
    Fields.initial.run calls = (Session.start.run calls).fields ∧
    (Fields.initial.run calls).assemble source =
      (((Session.start.run calls).assemble source).1,
        ((Session.start.run calls).assemble source).2.fields) ∧
    ((Session.start.run calls).assemble source).1 = (Session.start.assemble source).1 ∧
    ((Session.start.run calls).assemble source).2.labels =
      (Session.start.assemble source).2.labels ∧
    ((Session.start.run calls).assemble source).2.diagnostics =
      (Session.start.assemble source).2.diagnostics ∧
    ((Session.start.run calls).assemble source).2.warnings =
      (Session.start.assemble source).2.warnings ∧
    ((Session.start.run calls).assemble source).2.listing =
      ((Session.start.setListing (Call.lastMode calls)).assemble source).2.listing ∧
    ∀ on, ((Session.start.run calls).setListing on).fields =
      { (Session.start.run calls).fields with withListing := on } := by
  have hfields := Fields.run_initial calls
  refine ⟨hfields,?_,result_assemble_mode _ _ source,?_,diagnostics_assemble_mode _ _ source,?_,?_,
    fun _ => rfl⟩
  · rw [hfields, Fields.assemble_fields]
  · rw [Session.labels_assemble, Session.labels_assemble]
  · rw [Session.warnings_assemble, Session.warnings_assemble]
  · rw [Session.listing_assemble, Session.listing_assemble, Session.withListing_run]
    rfl

end Asm18
