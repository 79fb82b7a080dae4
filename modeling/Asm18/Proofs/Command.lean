import Asm18.Command.Run
import Asm18.Proofs.FileSystem
import Asm18.Proofs.Image

/-! What the command does to the files. All that it reports goes to the two outputs, and it opens a
file for writing only when there are words that fit the memory. So either no file is touched, or the
output file holds the whole image. -/
namespace Asm18

theorem Sink.write_of_room {s : Sink} (h : s.room = none) (t : Text) :
    s.write t = .ok { s with chunks := t :: s.chunks } := by
  simp only [write, h]

namespace World

variable {α β : Type}

/-- An action that touches no file, and leaves a standard output without a bound as it is. -/
def OutputOnly (x : StateM World α) : Prop :=
  ∀ w, (x w).2.files = w.files ∧ (w.stdout.room = none → (x w).2.stdout.room = none)

namespace OutputOnly

theorem pure (a : α) : OutputOnly (Pure.pure a : StateM World α) := fun _ => ⟨rfl,id⟩

theorem bind {x : StateM World α} {f : α → StateM World β} (hx : OutputOnly x)
    (hf : ∀ a, OutputOnly (f a)) : OutputOnly (x >>= f) := by
  intro w
  have h₁ := hx w
  have h₂ := hf (x w).1 (x w).2
  exact ⟨h₂.1.trans h₁.1,fun hr => h₂.2 (h₁.2 hr)⟩

theorem discard {x : StateM World α} (hx : OutputOnly x) : OutputOnly (discard x) := fun w => hx w

theorem isTerminal : OutputOnly (Host.isTerminal : StateM World Bool) := fun _ => ⟨rfl,id⟩

theorem warn (t : Text) : OutputOnly (Host.warn t : StateM World Unit) := by
  intro w
  change (World.warn t w).2.files = _ ∧ (_ → (World.warn t w).2.stdout.room = none)
  unfold World.warn
  split <;> exact ⟨rfl,id⟩

theorem print (t : Text) : OutputOnly (Host.print t : StateM World (Except Text Unit)) := by
  intro w
  change (World.print t w).2.files = _ ∧ (_ → (World.print t w).2.stdout.room = none)
  unfold World.print
  split
  · rename_i sink hs
    refine ⟨rfl,fun hr => ?_⟩
    rw [Sink.write_of_room hr] at hs
    cases hs
    exact hr
  · exact ⟨rfl,id⟩

end OutputOnly

theorem bind_of_eq {x : StateM World α} {f : α → StateM World β} {w w' : World} {a : α}
    (h : x w = (a,w')) : (x >>= f) w = f a w' := by
  change f (x w).1 (x w).2 = f a w'
  rw [h]

theorem print_of_room {w : World} (h : w.stdout.room = none) (t : Text) :
    (Host.print t : StateM World (Except Text Unit)) w =
      (.ok (),{ w with stdout := { w.stdout with chunks := t :: w.stdout.chunks } }) := by
  change World.print t w = _
  simp only [World.print, Sink.write_of_room h]

theorem create_of_error {w : World} {path : Text} {e : FileError}
    (h : w.files.create path = .error e) :
    (Host.create (m := StateM World) path) w = (.error e,w) := by
  change World.create path w = _
  simp only [World.create, h]

theorem create_of_ok {w : World} {path : Text} {f : OpenFile} {fs : FileSystem}
    (h : w.files.create path = .ok (f,fs)) :
    (Host.create (m := StateM World) path) w = (.ok f,{ w with files := fs }) := by
  change World.create path w = _
  simp only [World.create, h]

theorem append_file {fs : FileSystem} {f : OpenFile} (h : f.place ≠ []) (stdout stderr : Sink)
    (content t : Text) : (Host.append (m := StateM World) f t)
        ⟨fs.set f.place (.file content),stdout,stderr⟩ =
      (.ok (),⟨fs.set f.place (.file (content ++ t)),stdout,stderr⟩) := by
  change World.append f t _ = _
  simp only [World.append, FileSystem.append, FileSystem.node?_set fs _ h, FileSystem.set_set]

theorem append_full {w : World} {f : OpenFile} {reading : Except FileReason Text}
    (h : w.files.node? f.place = some (.full reading)) (t : Text) :
    (Host.append (m := StateM World) f t) w = (.error ⟨.writing,f.path,.noSpace⟩,w) := by
  change World.append f t w = _
  simp only [World.append, FileSystem.append, h]

end World

namespace Command

open World

theorem outputOnly_log (level : Int) (e : LogEntry) :
    OutputOnly (log level e : StateM World Unit) := by
  unfold log
  split
  · exact .warn _
  · exact .pure ()

theorem outputOnly_recordAll {record : LogEntry → StateM World Unit}
    (h : ∀ e, OutputOnly (record e)) (es : List LogEntry) : OutputOnly (recordAll record es) := by
  induction es with
  | nil => exact .pure ()
  | cons e es ih => exact .bind (h e) fun _ => ih

theorem outputOnly_warnAll (ts : List Text) : OutputOnly (warnAll ts : StateM World Unit) := by
  induction ts with
  | nil => exact .pure ()
  | cons t ts ih => exact .bind (.warn t) fun _ => ih

theorem outputOnly_printAll (ts : List Text) : OutputOnly (printAll ts : StateM World Unit) := by
  induction ts with
  | nil => exact .pure ()
  | cons t ts ih => exact .bind (.discard (.print t)) fun _ => ih

theorem outputOnly_showSymbols (s : Settings) (colour : Bool) (labels : Labels) :
    OutputOnly (showSymbols s colour labels : StateM World (Except CommandError Unit)) := by
  unfold showSymbols
  split
  · refine .bind (.print _) fun r => ?_
    cases r with
    | ok u => exact .pure _
    | error reason => exact .pure _
  · exact .pure _

/-- The label table is printed if standard output takes everything. -/
theorem dumpSymbols_of_room {w : World} (h : w.stdout.room = none) (printer : SymbolDump.Printer)
    (colour : Bool) (labels : Labels) : dumpSymbols (m := StateM World) printer colour labels w =
      (.ok (),{ w with
        stdout := { w.stdout with chunks := printer colour labels.sorted :: w.stdout.chunks } }) := by
  rw [dumpSymbols, World.bind_of_eq (World.print_of_room h _)]
  rfl

theorem showSymbols_of_room {w : World} (h : w.stdout.room = none) (s : Settings) (colour : Bool)
    (labels : Labels) : (showSymbols (m := StateM World) s colour labels w).1 = .ok () := by
  unfold showSymbols
  split
  · rw [dumpSymbols_of_room h]
  · rfl

/-- Blocks are appended to a file one after the other. -/
theorem appendAll_file (fs : FileSystem) {f : OpenFile} (h : f.place ≠ []) (stdout stderr : Sink)
    (content : Text) (ts : List Text) :
    appendAll (m := StateM World) f ts ⟨fs.set f.place (.file content),stdout,stderr⟩ =
      (.ok (),⟨fs.set f.place (.file (content ++ ts.flatten)),stdout,stderr⟩) := by
  induction ts generalizing content with
  | nil =>
    rw [List.flatten_nil, List.append_nil]
    rfl
  | cons t ts ih =>
    have hrest := ih (content ++ t)
    rw [List.append_assoc, ← List.flatten_cons] at hrest
    rw [appendAll, World.bind_of_eq (World.append_file h stdout stderr content t)]
    exact hrest

theorem appendAll_full {w : World} {f : OpenFile} {reading : Except FileReason Text}
    (h : w.files.node? f.place = some (.full reading)) (t : Text) (ts : List Text) :
    appendAll (m := StateM World) f (t :: ts) w =
      (.error (FileError.mk .writing f.path .noSpace).message,w) := by
  rw [appendAll, World.bind_of_eq (World.append_full h t)]
  rfl

theorem writeImage_of_writable {w : World} {output : Text} {place : Path} {words : List Word}
    (h : w.files.Writable output place) (ha : Image.Accepted words) :
    writeImage (m := StateM World) output words w =
      (.ok (),{ w with files := w.files.set place (.file (Image.text words)) }) := by
  have happend := appendAll_file w.files (f := ⟨output,place⟩) h.ne_root w.stdout w.stderr []
    (Image.blocks (Image.text words))
  rw [List.nil_append, Image.flatten_blocks] at happend
  rw [writeImage, World.bind_of_eq (World.create_of_ok h.create)]
  simp only [ha.delivery]
  rw [World.bind_of_eq happend]
  rfl

/-- Writing an image fails and leaves the world as it is, unless the output is writable. -/
theorem writeImage_cases (w : World) (output : Text) {words : List Word}
    (ha : Image.Accepted words) :
    (∃ e, writeImage (m := StateM World) output words w = (.error e,w)) ∨
      ∃ place, w.files.Writable output place := by
  cases hc : w.files.create output with
  | error e =>
    rw [writeImage, World.bind_of_eq (World.create_of_error hc)]
    exact .inl ⟨_,rfl⟩
  | ok opened =>
    obtain ⟨f,fs⟩ := opened
    rcases FileSystem.create_eq_ok hc with ⟨hw,-⟩ | ⟨⟨reading,hfull⟩,rfl⟩
    · exact .inr ⟨_,hw⟩
    · -- The device is opened, and there is a block for it to refuse.
      obtain ⟨t,ts,hblocks⟩ := List.exists_cons_of_ne_nil ha.blocks_ne_nil
      rw [writeImage, World.bind_of_eq (World.create_of_ok hc)]
      simp only [ha.delivery, hblocks]
      rw [World.bind_of_eq (appendAll_full hfull t ts)]
      exact .inl ⟨_,rfl⟩

theorem useColour_eq_ok_iff {mode : Text} {terminal : Bool} :
    (∃ colour, useColour mode terminal = .ok colour) ↔
      mode ∈ [utf8 "auto",utf8 "always",utf8 "never"] := by
  unfold useColour
  by_cases hAlways : mode = utf8 "always"
  · simp [hAlways]
  · rw [if_neg hAlways]
    by_cases hNever : mode = utf8 "never"
    · simp [hNever]
    · rw [if_neg hNever]
      by_cases hAuto : mode = utf8 "auto"
      · simp [hAuto]
      · simp [hAlways, hNever, hAuto]

/-- Nothing in the files or the settings stands in the way of a job. -/
structure Feasible (job : Job) (fs : FileSystem) (source : Text) (words : List Word)
    (place : Path) : Prop where
  mode : job.settings.color ∈ [utf8 "auto",utf8 "always",utf8 "never"]
  readable : fs.read job.input = .ok source
  assembles : (assemble job.settings.listing source).result = .ok words
  writable : fs.Writable job.output place

/-- How a job may end: it fails and no file is touched, or its output holds the image of the words
of its input and no other file is touched. -/
inductive Ends (job : Job) (fs : FileSystem) : Except CommandError Unit → FileSystem → Prop where
  | failed (e : CommandError) : Ends job fs (.error e) fs
  | written {source : Text} {words : List Word} {place : Path} :
      Feasible job fs source words place →
      Ends job fs (.ok ()) (fs.set place (.file (Image.text words)))

theorem Ends.of_error {job : Job} {fs fs' : FileSystem} {e : CommandError}
    (h : Ends job fs (.error e) fs') : fs' = fs := by
  cases h
  rfl

theorem Ends.of_ok {job : Job} {fs fs' : FileSystem} (h : Ends job fs (.ok ()) fs') :
    ∃ source words place, Feasible job fs source words place ∧
      fs' = fs.set place (.file (Image.text words)) := by
  cases h with
  | written hf => exact ⟨_,_,_,hf,rfl⟩

/-- From these files the action comes to an end of the job. -/
def Settles (job : Job) (fs : FileSystem) (x : StateM World (Except CommandError Unit)) : Prop :=
  ∀ w, w.files = fs → Ends job fs (x w).1 (x w).2.files

/-- From these files the action succeeds if standard output takes everything. -/
def Succeeds (fs : FileSystem) (x : StateM World (Except CommandError Unit)) : Prop :=
  ∀ w, w.files = fs → w.stdout.room = none → (x w).1 = .ok ()

section Reporting

variable {α : Type} {job : Job} {fs : FileSystem} {x : StateM World α}
  {f : α → StateM World (Except CommandError Unit)}

theorem settles_error (e : CommandError) : Settles job fs (pure (.error e)) := by
  intro w hw
  rw [← hw]
  exact .failed e

/-- What is reported on the way does not matter to the files. -/
theorem Settles.after (hx : OutputOnly x) (hf : ∀ a, Settles job fs (f a)) :
    Settles job fs (x >>= f) := by
  intro w hw
  exact hf (x w).1 (x w).2 ((hx w).1.trans hw)

theorem Succeeds.after (hx : OutputOnly x) (hf : ∀ a, Succeeds fs (f a)) :
    Succeeds fs (x >>= f) := by
  intro w hw hr
  exact hf (x w).1 (x w).2 ((hx w).1.trans hw) ((hx w).2 hr)

/-- The same where the value of the action is known. -/
theorem Succeeds.after_eq {a : α} (hx : OutputOnly x)
    (ha : ∀ w, w.stdout.room = none → (x w).1 = a) (hf : Succeeds fs (f a)) :
    Succeeds fs (x >>= f) := by
  intro w hw hr
  have hnext := hf (x w).2 ((hx w).1.trans hw) ((hx w).2 hr)
  rw [← ha w hr] at hnext
  exact hnext

theorem Settles.read {path : Text}
    {g : Except FileError Text → StateM World (Except CommandError Unit)}
    (hg : Settles job fs (g (fs.read path))) : Settles job fs (Host.read path >>= g) := by
  rintro w rfl
  exact hg w rfl

theorem Succeeds.read {path : Text}
    {g : Except FileError Text → StateM World (Except CommandError Unit)}
    (hg : Succeeds fs (g (fs.read path))) : Succeeds fs (Host.read path >>= g) := by
  rintro w rfl
  exact hg w rfl

end Reporting

/-- The words of a source that assembles can be written. -/
theorem accepted_of_assemble {on : Bool} {source : Text} {words : List Word}
    (h : (assemble on source).result = .ok words) : Image.Accepted words := by
  have ha := assemble_result_eq_ok_iff.1 h
  exact ⟨ha.length_eq ▸ ha.fits,ha.words_le⟩

section Job

variable {record : LogEntry → StateM World Unit} (hlog : ∀ e, OutputOnly (record e))
include hlog

theorem finish_of_writable {job : Job} {w : World} {place : Path} {words : List Word} (r : Reporter)
    (h : w.files.Writable job.output place) (ha : Image.Accepted words) :
    (finish record job r (.ok words) w).1 = .ok () ∧
    (finish record job r (.ok words) w).2.files =
      w.files.set place (.file (Image.text words)) := by
  have hreport : OutputOnly (do
      record (.wrote job.output)
      discard (Host.print (success job.output words.length))
      pure (.ok ()) : StateM World (Except CommandError Unit)) :=
    .bind (hlog _) fun _ => .bind (.discard (.print _)) fun _ => .pure _
  rw [finish, World.bind_of_eq (writeImage_of_writable h ha)]
  exact ⟨rfl,(hreport _).1⟩

variable {job : Job} {fs : FileSystem} {source : Text}

theorem settles_finish (hc : job.settings.color ∈ [utf8 "auto",utf8 "always",utf8 "never"])
    (hs : fs.read job.input = .ok source) (r : Reporter) :
    Settles job fs (finish record job r (assemble job.settings.listing source).result) := by
  cases hr : (assemble job.settings.listing source).result with
  | error failure =>
    cases failure with
    | tooLarge count => exact settles_error _
    | faulty diagnostics => exact .after (outputOnly_warnAll _) fun _ => settles_error _
  | ok words =>
    have ha := accepted_of_assemble hr
    rintro w rfl
    rcases writeImage_cases w job.output ha with ⟨e,he⟩ | ⟨place,hplace⟩
    · rw [finish, World.bind_of_eq he]
      exact .failed e
    · obtain ⟨hok,hfiles⟩ := finish_of_writable hlog r hplace ha
      rw [hok, hfiles]
      exact .written ⟨hc,hs,hr,hplace⟩

theorem settles_process (hc : job.settings.color ∈ [utf8 "auto",utf8 "always",utf8 "never"])
    (hs : fs.read job.input = .ok source) (colour : Bool) :
    Settles job fs (process record job colour source) := by
  refine .after (hlog _) fun _ => .after (outputOnly_recordAll hlog _) fun _ =>
    .after (outputOnly_warnAll _) fun _ => .after (outputOnly_printAll _) fun _ =>
    .after (outputOnly_showSymbols _ _ _) fun r => ?_
  cases r with
  | error e => exact settles_error e
  | ok u => exact settles_finish hlog hc hs _

theorem settles_run (job : Job) (fs : FileSystem) : Settles job fs (run record job) := by
  refine .after .isTerminal fun terminal => ?_
  cases hc : useColour job.settings.color terminal with
  | error e => exact settles_error e
  | ok colour =>
    refine .read ?_
    cases hs : fs.read job.input with
    | error e => exact settles_error _
    | ok source => exact settles_process hlog (useColour_eq_ok_iff.1 ⟨colour,hc⟩) hs colour

namespace Feasible

variable {words : List Word} {place : Path}

theorem succeeds_process (h : Feasible job fs source words place) (colour : Bool) :
    Succeeds fs (process record job colour source) := by
  refine .after (hlog _) fun _ => .after (outputOnly_recordAll hlog _) fun _ =>
    .after (outputOnly_warnAll _) fun _ => .after (outputOnly_printAll _) fun _ =>
    .after_eq (outputOnly_showSymbols _ _ _) (fun w hr => showSymbols_of_room hr _ _ _) ?_
  rintro w rfl -
  rw [h.assembles]
  exact (finish_of_writable hlog _ h.writable (accepted_of_assemble h.assembles)).1

theorem succeeds_run (h : Feasible job fs source words place) : Succeeds fs (run record job) := by
  refine .after .isTerminal fun terminal => ?_
  obtain ⟨colour,hc⟩ := useColour_eq_ok_iff.2 h.mode
  rw [hc]
  refine .read ?_
  rw [h.readable]
  exact succeeds_process hlog h colour

end Feasible
end Job

/-- Does a job in a world, with the log on standard error. -/
def Job.perform (job : Job) (w : World) : Except CommandError Unit × World :=
  run (m := StateM World) (log job.settings.verbosity) job w

/-- A job writes its output all or nothing: if it fails, no file is touched; if it succeeds, its output
holds the image of the words of its input, as it was before, and no other file is touched. It succeeds
unless the colour mode, the files, the source or a short standard output stand in the way. -/
theorem perform_allOrNothing (job : Job) (w : World) :
    (∀ e, (job.perform w).1 = .error e → (job.perform w).2.files = w.files) ∧
    ((job.perform w).1 = .ok () → ∃ source words place,
      Feasible job w.files source words place ∧ Image.Holds (Image.text words) words ∧
      (job.perform w).2.files.read job.output = .ok (Image.text words) ∧
      (job.perform w).2.files.node? place = some (.file (Image.text words)) ∧
      ∀ other, other ≠ place → (job.perform w).2.files.node? other = w.files.node? other) ∧
    (w.stdout.room = none → ∀ source words place, Feasible job w.files source words place →
      (job.perform w).1 = .ok ()) := by
  have hends : Ends job w.files (job.perform w).1 (job.perform w).2.files :=
    settles_run (outputOnly_log _) job w.files w rfl
  refine ⟨fun e he => ?_,fun hok => ?_,fun hr source words place h =>
    h.succeeds_run (outputOnly_log _) w rfl hr⟩
  · rw [he] at hends
    exact hends.of_error
  · rw [hok] at hends
    obtain ⟨source,words,place,hf,hfiles⟩ := hends.of_ok
    rw [hfiles]
    refine ⟨source,words,place,hf,(accepted_of_assemble hf.assembles).holds,
      hf.writable.read_set _,FileSystem.node?_set _ _ hf.writable.ne_root,fun other hne => ?_⟩
    exact FileSystem.node?_set_of_ne _ _ hne

/-- A working directory with one source in it. -/
def desk : World :=
  ⟨FileSystem.fresh.addNode (FileSystem.fresh.below (utf8 "blink.asm"))
    (.file (utf8 "loop: ledl\n br loop\n")),.unbounded,.unbounded⟩

/-- Assembles the source there, with its label table, to a file. -/
def blinkTo (output : Text) : Job :=
  ⟨{ Settings.initial with symbols := true },utf8 "blink.asm",output⟩

theorem perform_allOrNothing_blink :
    ((blinkTo (utf8 "blink.asm")).perform desk).2.files.read (utf8 "blink.asm") =
      .ok (Image.text [204800, 135167]) ∧
    ((blinkTo (utf8 "/dev/full")).perform desk).2.files = desk.files := by
  have hread : desk.files.read (utf8 "blink.asm") = .ok (utf8 "loop: ledl\n br loop\n") := rfl
  have hwords : (assemble false (utf8 "loop: ledl\n br loop\n")).result =
      .ok [204800, 135167] := by decide +kernel
  constructor
  · have hself : Feasible (blinkTo (utf8 "blink.asm")) desk.files _ _ _ :=
      ⟨by decide,hread,hwords,⟨rfl,by decide,.inr ⟨_,rfl⟩⟩⟩
    have hok := (perform_allOrNothing (blinkTo (utf8 "blink.asm")) desk).2.2 rfl _ _ _ hself
    obtain ⟨source,words,place,hf,-,hout,-⟩ := (perform_allOrNothing _ _).2.1 hok
    cases hread.symm.trans hf.readable
    cases hwords.symm.trans hf.assembles
    exact hout
  · have hdevice : desk.files.node? [utf8 "dev",utf8 "full"] = some (.full _) := rfl
    have hpath : desk.files.locate (utf8 "/dev/full") = .ok [utf8 "dev",utf8 "full"] := rfl
    cases hr : ((blinkTo (utf8 "/dev/full")).perform desk).1 with
    | error e => exact (perform_allOrNothing _ _).1 e hr
    | ok u =>
      obtain ⟨source,words,place,hf,-⟩ := (perform_allOrNothing _ _).2.1 hr
      cases hpath.symm.trans hf.writable.located
      rcases hf.writable.free with ⟨hn,-⟩ | ⟨content,hn⟩
      · cases hdevice.symm.trans hn
      · cases hdevice.symm.trans hn

end Command
end Asm18
