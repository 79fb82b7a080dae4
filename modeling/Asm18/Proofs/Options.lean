import Asm18.Proofs.Arguments
import Asm18.Proofs.Colour
import Asm18.Proofs.Course
import Asm18.Proofs.Listing

/-! Options that only report. The listing, the label table, colour and the level of the log have no
part in how a job ends or in what it writes to the files, and what they change on standard error are
escape sequences and lines of the log. Of the log it is only asked to be kept on standard error. -/
namespace Asm18

open Colour

namespace Command

/-- A label table is taken by a standard output that takes everything. -/
theorem dumpAnswer_of_room {out : Sink} (h : out.room = none) (s : Settings) (colour : Bool)
    (labels : Labels) : dumpAnswer out s colour labels = .ok () := by
  unfold dumpAnswer
  split
  · rw [Sink.answer_of_room h]
  · rfl

theorem LogEntry.not_mem_render {e : LogEntry} (h : escape ∉ e.message) : escape ∉ e.render := by
  have hstart : escape ∉ utf8 "[I] " ++ e.message := by
    rw [List.mem_append, not_or]
    exact ⟨by decide,h⟩
  unfold render
  simp only []
  split
  · exact hstart
  · rw [Text.line, List.mem_append, not_or]
    exact ⟨hstart,by decide⟩

section Stripping

variable {r : Reporter} {source : Text}

end Stripping

namespace Job

variable {job : Job} {colour terminal : Bool} {fs : FileSystem} {out : Sink} {source : Text}

/-- No label table ends a job if standard output takes everything. -/
theorem course_of_room (hc : useColour job.settings.color terminal = .ok colour)
    (hr : fs.read job.input = .ok source) (ho : out.room = none) : job.course terminal fs out =
      (reporting job.settings ⟨job.input,colour⟩ source (assemble job.settings.listing source) fs
        out).followedBy (finishing job.output ⟨job.input,colour⟩ fs
          (assemble job.settings.listing source).result) := by
  simp only [course, hc, hr, processing]
  rw [dumpAnswer_of_room (Sink.room_offerAll ho _)]

/-- The course of a job in a world. -/
def courseIn (job : Job) (w : World) : Course (Except CommandError Unit) :=
  job.course w.stderr.terminal w.files w.stdout

/-- What a job tells on standard error. -/
def told (job : Job) (w : World) : Text :=
  (said (LogEntry.linesAt job.settings.verbosity) (job.courseIn w).notices).flatten

theorem perform_eq (job : Job) (w : World) : job.perform w =
    ((job.courseIn w).result,
      ⟨(job.courseIn w).files,w.stdout.offerAll (job.courseIn w).printed,
        w.stderr.offerAll
          (said (LogEntry.linesAt job.settings.verbosity) (job.courseIn w).notices)⟩) :=
  job.takes_run (records_log _) w.stderr rfl

theorem stderr_perform (job : Job) {w : World} (h : w.stderr.room = none) :
    (job.perform w).2.stderr.text = w.stderr.text ++ job.told w := by
  rw [perform_eq]
  exact Sink.text_offerAll h _

section Reports

variable {w : World} {s t : Settings} (input output : Text) (hlevel : s.verbosity = t.verbosity)
  (hs : s.color ∈ [utf8 "auto",utf8 "always",utf8 "never"])
  (ht : t.color ∈ [utf8 "auto",utf8 "always",utf8 "never"]) (ho : w.stdout.room = none)
include hlevel hs ht ho

end Reports

end Job

theorem LogEntry.one_le_level_passes (a : Assembly) : ∀ e ∈ passes a, 1 ≤ e.level := by
  intro e he
  rcases List.mem_cons.1 he with rfl | he
  · exact Int.le_refl 1
  · rcases List.mem_append.1 he with he | he
    · obtain ⟨l,-,rfl⟩ := List.mem_map.1 he
      exact (by decide : (1 : Int) ≤ 2)
    · unfold secondPass at he
      split at he
      · cases he
      · cases List.mem_singleton.1 he
        exact Int.le_refl 1

/-- An entry that is expected, or a report that is a whole line. -/
def Notice.Proper (expected : LogEntry → Prop) : Notice → Prop
  | log e => expected e
  | report t => ∃ u, t = Text.line u

def Course.Proper {α : Type} (expected : LogEntry → Prop) (c : Course α) : Prop :=
  ∀ n ∈ c.notices, n.Proper expected

section Notices

variable {α β : Type} {expected : LogEntry → Prop} {terminal : Bool} {fs : FileSystem} {out : Sink}

theorem Course.Proper.followedBy {c : Course α} {d : Course β} (hc : c.Proper expected)
    (hd : d.Proper expected) : (c.followedBy d).Proper expected :=
  fun n hn => (List.mem_append.1 hn).elim (hc n) (hd n)

end Notices

/-- The level that arguments set. -/
def levelOf : Except FlagError Arguments → Int
  | .error _ => 0
  | .ok a => a.settings.verbosity

namespace LogLibrary

/-- The level of the log in a call. -/
def level (library : LogLibrary (StateM World)) (arguments : List Text) : Int :=
  levelOf (library.read arguments)

/-- All there is to tell in a call, the entries for the log among it. -/
def notices (library : LogLibrary (StateM World)) (arguments : List Text) (w : World) :
    List Notice :=
  (coursing library.known.flags w.stderr.terminal w.files w.stdout (library.read arguments)).notices

variable {library : LogLibrary (StateM World)} {lines : Int → LogEntry → List Text}
  {xs ys : List Text} {w : World}

end LogLibrary

/-- A working directory with a faulty source in it. -/
def bench : World :=
  ⟨FileSystem.fresh.addNode (FileSystem.fresh.below (utf8 "mixed.asm")) (.file mixed),
    .unbounded,.unbounded⟩

end Command
end Asm18
