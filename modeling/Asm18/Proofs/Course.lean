import Asm18.Proofs.Command

/-! The course of the command. What it writes to the files, offers to standard output and has to
tell is a function of the files, the room on standard output, whether there is a terminal and what it
is asked to do. The log only decides which lines it adds for its entries. -/
namespace Asm18

namespace Sink

/-- Writes a text if it is taken, and else does without it. -/
def offer (s : Sink) (t : Text) : Sink :=
  match s.write t with
  | .ok s' => s'
  | .error _ => s

def offerAll (s : Sink) (ts : List Text) : Sink := ts.foldl offer s

@[simp] theorem offerAll_nil (s : Sink) : s.offerAll [] = s := rfl

@[simp] theorem offerAll_cons (s : Sink) (t : Text) (ts : List Text) :
    s.offerAll (t :: ts) = (s.offer t).offerAll ts := rfl

@[simp] theorem offerAll_append (s : Sink) (ts us : List Text) :
    s.offerAll (ts ++ us) = (s.offerAll ts).offerAll us := List.foldl_append

theorem offer_of_room {s : Sink} (h : s.room = none) (t : Text) :
    s.offer t = { s with chunks := t :: s.chunks } := by
  rw [offer, write_of_room h]

theorem room_offerAll {s : Sink} (h : s.room = none) (ts : List Text) :
    (s.offerAll ts).room = none := by
  induction ts generalizing s with
  | nil => exact h
  | cons t ts ih =>
    rw [offerAll_cons, offer_of_room h]
    exact ih h

theorem text_offerAll {s : Sink} (h : s.room = none) (ts : List Text) :
    (s.offerAll ts).text = s.text ++ ts.flatten := by
  induction ts generalizing s with
  | nil => simp
  | cons t ts ih =>
    have hrest := ih (s := s.offer t) (by rw [offer_of_room h]; exact h)
    rw [offerAll_cons, hrest, offer_of_room h]
    simp [text]

@[simp] theorem terminal_offer (s : Sink) (t : Text) : (s.offer t).terminal = s.terminal := by
  unfold offer write
  cases s.room with
  | none => rfl
  | some n => by_cases h : t.length ≤ n <;> simp [h]

@[simp] theorem terminal_offerAll (s : Sink) (ts : List Text) :
    (s.offerAll ts).terminal = s.terminal := by
  induction ts generalizing s with
  | nil => rfl
  | cons t ts ih => rw [offerAll_cons, ih, terminal_offer]

/-- What one is told of a write. -/
def answer (s : Sink) (t : Text) : Except Text Unit :=
  match s.write t with
  | .ok _ => .ok ()
  | .error reason => .error reason

theorem answer_of_room {s : Sink} (h : s.room = none) (t : Text) : s.answer t = .ok () := by
  rw [answer, write_of_room h]

end Sink

namespace Command

/-- An entry of the log, or a report, which is made whatever the log shows. -/
inductive Notice where
  | log (e : LogEntry)
  | report (t : Text)

/-- What is shown of a notice, by the lines that the log has for its entries. -/
def Notice.shown (lines : LogEntry → List Text) : Notice → List Text
  | log e => lines e
  | report t => [t]

def said (lines : LogEntry → List Text) (notices : List Notice) : List Text :=
  notices.flatMap (Notice.shown lines)

@[simp] theorem said_append (lines : LogEntry → List Text) (a b : List Notice) :
    said lines (a ++ b) = said lines a ++ said lines b := List.flatMap_append

@[simp] theorem said_reports (lines : LogEntry → List Text) (ts : List Text) :
    said lines (ts.map .report) = ts := by
  induction ts with
  | nil => rfl
  | cons t ts ih => exact congrArg (t :: ·) ih

/-- The lines for an entry in a log that is kept at a level. -/
def LogEntry.linesAt (level : Int) (e : LogEntry) : List Text :=
  if e.level ≤ level then [e.render] else []

structure Course (α : Type) where
  result : α
  files : FileSystem
  printed : List Text
  notices : List Notice

/-- One course after the other. -/
def Course.followedBy {α β : Type} (c : Course α) (d : Course β) : Course β :=
  ⟨d.result,d.files,c.printed ++ d.printed,c.notices ++ d.notices⟩

/-- From these files and with this standard output the action takes this course, whatever standard
error takes, if it is a terminal or not and the log has these lines for its entries. -/
def Takes {α : Type} (lines : LogEntry → List Text) (terminal : Bool) (fs : FileSystem) (out : Sink)
    (x : StateM World α) (c : Course α) : Prop :=
  ∀ err, err.terminal = terminal → x ⟨fs,out,err⟩ =
    (c.result,⟨c.files,out.offerAll c.printed,err.offerAll (said lines c.notices)⟩)

/-- Entries are recorded on standard error, and nowhere else. -/
def Records (lines : LogEntry → List Text) (record : LogEntry → StateM World Unit) : Prop :=
  ∀ e w, record e w = ((),{ w with stderr := w.stderr.offerAll (lines e) })

section Actions

variable {α β : Type} {lines : LogEntry → List Text} {terminal : Bool} {fs : FileSystem} {out : Sink}

namespace Takes

theorem pure (a : α) : Takes lines terminal fs out (Pure.pure a) ⟨a,fs,[],[]⟩ := fun _ _ => rfl

theorem bind {x : StateM World α} {f : α → StateM World β} {c : Course α} {d e : Course β}
    (hx : Takes lines terminal fs out x c)
    (hf : Takes lines terminal c.files (out.offerAll c.printed) (f c.result) d)
    (he : c.followedBy d = e) : Takes lines terminal fs out (x >>= f) e := by
  subst he
  intro err herr
  rw [World.bind_of_eq (hx err herr), hf _ (by rw [Sink.terminal_offerAll, herr])]
  simp only [Course.followedBy, said_append, Sink.offerAll_append]

/-- The same after an action that only looks. -/
theorem after {x : StateM World α} {f : α → StateM World β} {a : α} {d : Course β}
    (hx : Takes lines terminal fs out x ⟨a,fs,[],[]⟩) (hf : Takes lines terminal fs out (f a) d) :
    Takes lines terminal fs out (x >>= f) d := hx.bind hf rfl

theorem isTerminal : Takes lines terminal fs out Host.isTerminal ⟨terminal,fs,[],[]⟩ := by
  rintro err rfl
  rfl

theorem read (path : Text) : Takes lines terminal fs out (Host.read path) ⟨fs.read path,fs,[],[]⟩ :=
  fun _ _ => rfl

theorem warn (t : Text) : Takes lines terminal fs out (Host.warn t) ⟨(),fs,[],[.report t]⟩ := by
  intro err _
  change World.warn t ⟨fs,out,err⟩ = ((),⟨fs,out,err.offer t⟩)
  cases hw : err.write t <;> simp only [World.warn, Sink.offer, hw]

theorem print (t : Text) : Takes lines terminal fs out (Host.print t) ⟨out.answer t,fs,[t],[]⟩ := by
  intro err _
  change World.print t ⟨fs,out,err⟩ = (out.answer t,⟨fs,out.offer t,err⟩)
  cases hw : out.write t <;> simp only [World.print, Sink.answer, Sink.offer, hw]

theorem discard {x : StateM World α} {c : Course α} (h : Takes lines terminal fs out x c) :
    Takes lines terminal fs out (discard x) ⟨(),c.files,c.printed,c.notices⟩ := by
  intro err herr
  change ((),(x ⟨fs,out,err⟩).2) = _
  rw [h err herr]

end Takes

theorem records_log (level : Int) : Records (LogEntry.linesAt level) (log level) := by
  intro e w
  unfold log LogEntry.linesAt
  split
  · have hwarn : Takes (LogEntry.linesAt level) w.stderr.terminal w.files w.stdout
        (Host.warn e.render) _ := .warn e.render
    exact hwarn w.stderr rfl
  · rfl

theorem Records.takes {record : LogEntry → StateM World Unit} (h : Records lines record)
    (e : LogEntry) : Takes lines terminal fs out (record e) ⟨(),fs,[],[.log e]⟩ := by
  intro err _
  rw [h, said, List.flatMap_singleton]
  rfl

theorem Records.takes_recordAll {record : LogEntry → StateM World Unit} (h : Records lines record)
    (es : List LogEntry) :
    Takes lines terminal fs out (recordAll record es) ⟨(),fs,[],es.map .log⟩ := by
  induction es with
  | nil => exact .pure ()
  | cons e es ih => exact .bind (h.takes e) ih rfl

theorem takes_warnAll (ts : List Text) :
    Takes lines terminal fs out (warnAll ts) ⟨(),fs,[],ts.map .report⟩ := by
  induction ts with
  | nil => exact .pure ()
  | cons t ts ih => exact .bind (.warn t) ih rfl

theorem takes_printAll (ts : List Text) : Takes lines terminal fs out (printAll ts) ⟨(),fs,ts,[]⟩ := by
  induction ts generalizing out with
  | nil => exact .pure ()
  | cons t ts ih => exact .bind (.discard (.print t)) ih rfl

end Actions

section Files

variable {α β : Type}

/-- The world with these files and outputs that take everything. -/
def bare (fs : FileSystem) : World := ⟨fs,.unbounded,.unbounded⟩

/-- An action that has to do with files alone. -/
def FilesOnly (x : StateM World α) : Prop :=
  ∀ w, x w = ((x (bare w.files)).1,{ w with files := (x (bare w.files)).2.files })

namespace FilesOnly

theorem pure (a : α) : FilesOnly (Pure.pure a : StateM World α) := fun _ => rfl

theorem bind {x : StateM World α} {f : α → StateM World β} (hx : FilesOnly x)
    (hf : ∀ a, FilesOnly (f a)) : FilesOnly (x >>= f) := by
  intro w
  have hbare := World.bind_of_eq (f := f) (hx (bare w.files))
  rw [World.bind_of_eq (hx w), hf, hbare]
  rfl

theorem create (path : Text) :
    FilesOnly (Host.create path : StateM World (Except FileError OpenFile)) := by
  intro w
  change World.create path w = ((World.create path (bare w.files)).1,
    { w with files := (World.create path (bare w.files)).2.files })
  cases hc : w.files.create path <;> simp only [World.create, bare, hc]

theorem append (f : OpenFile) (t : Text) :
    FilesOnly (Host.append (m := StateM World) f t) := by
  intro w
  change World.append f t w = ((World.append f t (bare w.files)).1,
    { w with files := (World.append f t (bare w.files)).2.files })
  cases ha : w.files.append f t <;> simp only [World.append, bare, ha]

end FilesOnly

theorem filesOnly_appendAll (f : OpenFile) (ts : List Text) :
    FilesOnly (appendAll (m := StateM World) f ts) := by
  induction ts with
  | nil => exact .pure _
  | cons t ts ih =>
    refine .bind (.append f t) fun r => ?_
    cases r with
    | ok u => exact ih
    | error e => exact .pure _

theorem filesOnly_writeImage (output : Text) (words : List Word) :
    FilesOnly (writeImage (m := StateM World) output words) := by
  refine .bind (.create output) fun r => ?_
  cases r with
  | error e => exact .pure _
  | ok f =>
    refine .bind (filesOnly_appendAll f _) fun r => ?_
    cases (Image.delivery words).finish r with
    | ok u => exact .pure _
    | error fault => exact .pure _

/-- How writing an image ends, and the files then. -/
def imageWritten (fs : FileSystem) (output : Text) (words : List Word) :
    Except CommandError Unit × FileSystem :=
  ((writeImage (m := StateM World) output words (bare fs)).1,
    (writeImage (m := StateM World) output words (bare fs)).2.files)

theorem takes_writeImage {lines : LogEntry → List Text} {terminal : Bool} {fs : FileSystem}
    {out : Sink} (output : Text) (words : List Word) :
    Takes lines terminal fs out (writeImage output words)
      ⟨(imageWritten fs output words).1,(imageWritten fs output words).2,[],[]⟩ :=
  fun err _ => filesOnly_writeImage output words ⟨fs,out,err⟩

end Files

/-- The label table if it is wanted. -/
def dumped (s : Settings) (colour : Bool) (labels : Labels) : List Text :=
  if s.symbols then [SymbolDump.render colour labels] else []

/-- A table that is refused is an error. -/
def dumpAnswer (out : Sink) (s : Settings) (colour : Bool) (labels : Labels) :
    Except CommandError Unit :=
  if s.symbols then
    match out.answer (SymbolDump.render colour labels) with
    | .ok () => .ok ()
    | .error reason => .error (.undumped reason)
  else .ok ()

theorem takes_showSymbols {lines : LogEntry → List Text} {terminal : Bool} {fs : FileSystem}
    {out : Sink} (s : Settings) (colour : Bool) (labels : Labels) :
    Takes lines terminal fs out (showSymbols s colour labels)
      ⟨dumpAnswer out s colour labels,fs,dumped s colour labels,[]⟩ := by
  unfold showSymbols dumpAnswer dumped
  split
  · have hprint : Takes lines terminal fs out (Host.print (SymbolDump.render colour labels)) _ :=
      .print _
    cases ha : out.answer (SymbolDump.render colour labels) with
    | ok u =>
      rw [ha] at hprint
      exact .bind hprint (.pure _) rfl
    | error reason =>
      rw [ha] at hprint
      exact .bind hprint (.pure _) rfl
  · exact .pure _

/-- What there is to tell of an assembly before its result counts. -/
def opening (r : Reporter) (source : Text) (a : Assembly) : List Notice :=
  .log (.readSource r.path source) ::
    ((LogEntry.passes a).map .log ++ (a.warnings.map r.warning).map .report)

/-- The reports on an assembly. -/
def reporting (s : Settings) (r : Reporter) (source : Text) (a : Assembly) (fs : FileSystem)
    (out : Sink) : Course (Except CommandError Unit) :=
  ⟨dumpAnswer (out.offerAll (a.listing.map Text.line)) s r.colour a.labels,fs,
    a.listing.map Text.line ++ dumped s r.colour a.labels,opening r source a⟩

def finishing (output : Text) (r : Reporter) (fs : FileSystem) :
    Except Failure (List Word) → Course (Except CommandError Unit)
  | .error (.tooLarge count) => ⟨.error (.tooLarge count),fs,[],[]⟩
  | .error (.faulty diagnostics) =>
    ⟨.error (.faulty diagnostics.length output),fs,[],
      (diagnostics.map fun d => r.error d.remark).map .report⟩
  | .ok words =>
    match imageWritten fs output words with
    | (.error e,fs) => ⟨.error e,fs,[],[]⟩
    | (.ok (),fs) => ⟨.ok (),fs,[success output words.length],[.log (.wrote output)]⟩

/-- A label table that is refused ends a job. -/
def processing (job : Job) (r : Reporter) (source : Text) (a : Assembly) (fs : FileSystem)
    (out : Sink) : Course (Except CommandError Unit) :=
  (reporting job.settings r source a fs out).followedBy
    (match dumpAnswer (out.offerAll (a.listing.map Text.line)) job.settings r.colour a.labels with
    | .error e => ⟨.error e,fs,[],[]⟩
    | .ok () => finishing job.output r fs a.result)

namespace Job

variable (job : Job)

/-- The course of a job. -/
def course (terminal : Bool) (fs : FileSystem) (out : Sink) : Course (Except CommandError Unit) :=
  match useColour job.settings.color terminal with
  | .error e => ⟨.error e,fs,[],[]⟩
  | .ok colour =>
    match fs.read job.input with
    | .error e => ⟨.error (.unreadable e),fs,[],[]⟩
    | .ok source =>
      processing job ⟨job.input,colour⟩ source (assemble job.settings.listing source) fs out

/-- The part of the command that reports on an assembly. -/
def report (record : LogEntry → StateM World Unit) (r : Reporter) (source : Text) (a : Assembly) :
    StateM World (Except CommandError Unit) := do
  record (.readSource r.path source)
  recordAll record (LogEntry.passes a)
  warnAll (a.warnings.map r.warning)
  printAll (a.listing.map Text.line)
  showSymbols job.settings r.colour a.labels

theorem process_eq (record : LogEntry → StateM World Unit) (colour : Bool) (source : Text) :
    process record job colour source = (do
      match ← job.report record ⟨job.input,colour⟩ source
        (assemble job.settings.listing source) with
      | .error e => pure (.error e)
      | .ok () =>
        finish record job ⟨job.input,colour⟩ (assemble job.settings.listing source).result) := by
  simp only [report, bind_assoc]
  rfl

variable {lines : LogEntry → List Text} {terminal : Bool} {fs : FileSystem} {out : Sink}
  {record : LogEntry → StateM World Unit} (hlog : Records lines record)
include hlog

theorem takes_report (r : Reporter) (source : Text) (a : Assembly) :
    Takes lines terminal fs out (job.report record r source a)
      (reporting job.settings r source a fs out) := by
  refine .bind (hlog.takes _) (.bind (hlog.takes_recordAll _) (.bind (takes_warnAll _)
    (.bind (takes_printAll _) (takes_showSymbols _ _ _) rfl) rfl) rfl) ?_
  simp [Course.followedBy, reporting, opening]

theorem takes_finish (r : Reporter) (result : Except Failure (List Word)) :
    Takes lines terminal fs out (finish record job r result)
      (finishing job.output r fs result) := by
  cases result with
  | error failure =>
    cases failure with
    | tooLarge count => exact .pure _
    | faulty diagnostics =>
      refine .bind (takes_warnAll _) (.pure _) ?_
      simp [Course.followedBy, finishing]
  | ok words =>
    have hwrite : Takes lines terminal fs out (writeImage job.output words) _ :=
      takes_writeImage job.output words
    rcases himage : imageWritten fs job.output words with ⟨written,fs'⟩
    rw [himage] at hwrite
    simp only [finishing, himage]
    cases written with
    | error e => exact .bind hwrite (.pure _) rfl
    | ok u =>
      exact .bind hwrite (.bind (hlog.takes _) (.bind (.discard (.print _)) (.pure _) rfl) rfl) rfl

theorem takes_process (colour : Bool) (source : Text) :
    Takes lines terminal fs out (process record job colour source)
      (processing job ⟨job.input,colour⟩ source (assemble job.settings.listing source) fs out) := by
  rw [process_eq]
  refine .bind (job.takes_report hlog _ source _) ?_ rfl
  generalize assemble job.settings.listing source = a
  simp only [reporting]
  cases dumpAnswer (out.offerAll (a.listing.map Text.line)) job.settings colour a.labels with
  | error e => exact .pure _
  | ok u => exact job.takes_finish hlog _ _

theorem takes_run :
    Takes lines terminal fs out (run record job) (job.course terminal fs out) := by
  refine .after .isTerminal ?_
  unfold course
  cases useColour job.settings.color terminal with
  | error e => exact .pure _
  | ok colour =>
    refine .after (.read job.input) ?_
    cases fs.read job.input with
    | error e => exact .pure _
    | ok source => exact job.takes_process hlog colour source

end Job

/-- Printing the parts of the help text, up to the first that is refused. -/
def helping (fs : FileSystem) : Sink → List Text → Course Unit
  | _,[] => ⟨(),fs,[],[]⟩
  | out,t :: ts =>
    (⟨(),fs,[t],[]⟩ : Course Unit).followedBy
      (match out.answer t with
      | .ok () => helping fs (out.offer t) ts
      | .error reason => ⟨(),fs,[],[.report (Text.line reason)]⟩)

/-- The course of a call, by what its arguments are read as. -/
def calling (flags : List Flag) (terminal : Bool) (fs : FileSystem) (out : Sink) :
    Except FlagError Arguments → Course (Except CommandError Unit)
  | .error e => ⟨.error (.flag e),fs,[],[]⟩
  | .ok a =>
    if a.settings.help then { helping fs out (help flags) with result := .ok () }
    else
      match job? a with
      | .error e => ⟨.error e,fs,[],[]⟩
      | .ok job => job.course terminal fs out

/-- The exit code of a command, and its last report. -/
def leaving (fs : FileSystem) : Except CommandError Unit → Course UInt32
  | .ok () => ⟨0,fs,[],[]⟩
  | .error e => ⟨1,fs,[],[.report (Text.line (utf8 "error: " ++ e.message))]⟩

/-- The course of the whole program. -/
def coursing (flags : List Flag) (terminal : Bool) (fs : FileSystem) (out : Sink)
    (parsed : Except FlagError Arguments) : Course UInt32 :=
  (calling flags terminal fs out parsed).followedBy
    (leaving (calling flags terminal fs out parsed).files
      (calling flags terminal fs out parsed).result)

section Calls

variable {lines : LogEntry → List Text} {terminal : Bool} {fs : FileSystem} {out : Sink}

variable (library : LogLibrary (StateM World))

end Calls

end Command
end Asm18
