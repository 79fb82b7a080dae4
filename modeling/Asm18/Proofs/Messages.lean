import Asm18.Proofs.Options

/-! What a failed job tells. Lines of a source hold no newline and messages are made of words of the
source, so that each warning and each diagnostic is one line on standard error, and nothing else is
told there. -/
namespace Asm18

namespace Source

/-- The lines that are skipped with a warning. -/
def skipped (source : Text) : List Line :=
  (lines source).filter fun l => l.content = .unrecognised

theorem number_of_getElem? {source : Text} {i : Nat} {l : Line}
    (h : (lines source)[i]? = some l) : l.number = i + 1 := by
  rw [lines, List.getElem?_mapIdx, Option.map_eq_some_iff] at h
  obtain ⟨t,-,rfl⟩ := h
  rfl

theorem not_mem_text {source : Text} {l : Line} (h : l ∈ lines source) : Text.newline ∉ l.text := by
  obtain ⟨i,hi,rfl⟩ := List.mem_mapIdx.1 h
  exact fun hm => not_mem_of_mem_pieces (List.getElem_mem hi) (Text.chomp_subset _ hm)

/-- A line of code is the line of the source with its number. -/
theorem exists_line_of_mem_code {source : Text} {c : CodeLine} (h : c ∈ code source) :
    ∃ (i : Nat) (l : Line), (lines source)[i]? = some l ∧ l.content = .instruction c.statement ∧
      c.number = i + 1 := by
  obtain ⟨l,hl,hc⟩ := List.mem_filterMap.1 h
  obtain ⟨i,hi⟩ := List.mem_iff_getElem?.1 hl
  rcases l.code?_warning?_cases with ⟨-,hnone,-⟩ | ⟨-,hnone,-⟩ | ⟨s,hs,hsome,-⟩
  · cases hnone.symm.trans hc
  · cases hnone.symm.trans hc
  · cases hsome.symm.trans hc
    exact ⟨i,l,hi,hs,number_of_getElem? hi⟩

end Source

/-- Each skipped line has its warning, and no other line has one. -/
theorem warnings_eq_map_skipped (on : Bool) (source : Text) : (assemble on source).warnings =
    (Source.skipped source).map fun l => utf8 "line " ++ Text.decimal l.number ++
      utf8 ": not an instruction, skipped: " ++ l.text := by
  rw [warnings_assemble, Source.skipped]
  generalize Source.lines source = ls
  induction ls with
  | nil => rfl
  | cons l ls ih =>
    rw [Line.warnings_cons, ih]
    rcases l.code?_warning?_cases with ⟨hc | hc,-,hw⟩ | ⟨hc,-,hw⟩ | ⟨s,hc,-,hw⟩ <;> simp [hc, hw]

/-- A program that fits the memory fails for its diagnostics only. -/
theorem faulty_of_error {on : Bool} {source : Text} {failure : Failure}
    (hfits : (Source.code source).length ≤ memoryWords)
    (h : (assemble on source).result = .error failure) :
    ∃ ds, ds = diagnosis (Source.code source) ∧ ds ≠ [] ∧ failure = .faulty ds := by
  rw [result_assemble_of_le hfits] at h
  split at h
  · cases h
  · rename_i hne
    cases h
    exact ⟨_,rfl,hne,rfl⟩

theorem Remark.not_mem_render {r : Remark} (h : Text.newline ∉ r.message) :
    Text.newline ∉ r.render := by
  have hnumber := (Text.visible_decimal r.line).not_mem (b := Text.newline) (by decide)
  simp only [render, List.mem_append, not_or]
  exact ⟨⟨⟨by decide,hnumber⟩,by decide⟩,h⟩

/-- Under its heading a failure has one line for each diagnostic. -/
theorem Failure.splitOn_message {ds : List Diagnostic} (hne : ds ≠ [])
    (h : ∀ d ∈ ds, Text.newline ∉ d.message) : (faulty ds).message.splitOn Text.newline =
      utf8 "assembly errors:" :: ds.map fun d => d.remark.render := by
  have hlines : ∀ t ∈ (ds.map Diagnostic.remark).map Remark.render, Text.newline ∉ t := by
    simpa using fun d hd => Remark.not_mem_render (h d hd)
  have hheading : utf8 "assembly errors:\n" = utf8 "assembly errors:" ++ [Text.newline] := by decide
  rw [message, Remark.renderAll, hheading, List.append_assoc, List.singleton_append,
    List.splitOn_append_cons_self, List.splitOn_eq_singleton (by decide), Text.unlines,
    List.splitOn_intercalate Text.newline hlines (by simpa using hne), List.map_map]
  rfl

namespace Command

/-- The line that tells of a skipped line. -/
def warningLine (path : Text) (l : Line) : Text :=
  path ++ utf8 ": warning: line " ++ Text.decimal l.number ++
    utf8 ": not an instruction, skipped: " ++ l.text

/-- The line that tells of a diagnostic. -/
def errorLine (path : Text) (d : Diagnostic) : Text :=
  path ++ utf8 ":" ++ Text.decimal d.line ++ utf8 ": error: " ++ d.message

/-- All there is to tell of a source, line by line. -/
def announced (path source : Text) (ds : List Diagnostic) : List Text :=
  (Source.skipped source).map (warningLine path) ++ ds.map (errorLine path)

section Lines

variable {path source : Text} {ds : List Diagnostic}

theorem not_mem_announced (source : Text) (hpath : Text.newline ∉ path)
    (hds : ∀ d ∈ ds, Text.newline ∉ d.message) :
    ∀ t ∈ announced path source ds, Text.newline ∉ t := by
  have hnumber : ∀ n, Text.newline ∉ Text.decimal n :=
    fun n => (Text.visible_decimal n).not_mem (by decide)
  intro t ht
  rcases List.mem_append.1 ht with ht | ht
  · obtain ⟨l,hl,rfl⟩ := List.mem_map.1 ht
    have htext := Source.not_mem_text (List.mem_filter.1 hl).1
    simp only [warningLine, List.mem_append, not_or]
    exact ⟨⟨⟨⟨hpath,by decide⟩,hnumber _⟩,by decide⟩,htext⟩
  · obtain ⟨d,hd,rfl⟩ := List.mem_map.1 ht
    simp only [errorLine, List.mem_append, not_or]
    exact ⟨⟨⟨⟨hpath,by decide⟩,hnumber _⟩,by decide⟩,hds d hd⟩

/-- A warning is reported in one line. -/
theorem report_warning (on : Bool) :
    (assemble on source).warnings.map (Reporter.warning ⟨path,false⟩) =
      (Source.skipped source).map fun l => Text.line (warningLine path l) := by
  have hmark : utf8 ": warning: line " =
      utf8 ": " ++ utf8 "warning:" ++ utf8 " " ++ utf8 "line " := by decide
  rw [warnings_eq_map_skipped, List.map_map]
  apply List.map_congr_left
  intro l _
  simp [Reporter.warning, Reporter.tag, warningLine, hmark]

/-- A diagnostic is reported in one line. -/
theorem report_error (path : Text) (d : Diagnostic) :
    Reporter.error ⟨path,false⟩ d.remark = Text.line (errorLine path d) := by
  have hmark : utf8 ": error: " = utf8 ": " ++ utf8 "error:" ++ utf8 " " := by decide
  simp [Reporter.error, Reporter.tag, errorLine, Diagnostic.remark, hmark]

end Lines

theorem said_logs_of_lt {level : Int} {es : List LogEntry} (h : ∀ e ∈ es, level < e.level) :
    said (LogEntry.linesAt level) (es.map .log) = [] := by
  rw [said, List.flatMap_eq_nil_iff]
  intro n hn
  obtain ⟨e,he,rfl⟩ := List.mem_map.1 hn
  exact if_neg (Int.not_le.2 (h e he))

/-- At level zero the log is left out of what is told of an assembly. -/
theorem said_opening {level : Int} (h : level ≤ 0) (r : Reporter) (source : Text) (a : Assembly) :
    said (LogEntry.linesAt level) (opening r source a) = a.warnings.map r.warning := by
  have hlogs : ∀ e ∈ LogEntry.readSource r.path source :: LogEntry.passes a, level < e.level := by
    intro e he
    rcases List.mem_cons.1 he with rfl | he
    · exact Int.lt_of_le_of_lt h Int.one_pos
    · exact Int.lt_of_le_of_lt h (LogEntry.one_le_level_passes a e he)
  rw [opening, ← List.cons_append, ← List.map_cons, said_append, said_logs_of_lt hlogs, said_reports,
    List.nil_append]

namespace Job

variable {job : Job} {w : World} {source : Text} {ds : List Diagnostic}

/-- The course of a job with a faulty source. -/
theorem course_of_faulty (hc : useColour job.settings.color w.stderr.terminal = .ok false)
    (hl : job.settings.verbosity ≤ 0) (hr : w.files.read job.input = .ok source)
    (ho : w.stdout.room = none)
    (hf : (assemble job.settings.listing source).result = .error (.faulty ds)) :
    (job.courseIn w).result = .error (.faulty ds.length job.output) ∧
    job.told w = (announced job.input source ds).flatMap Text.line := by
  rw [told, courseIn, course_of_room hc hr ho, hf]
  refine ⟨rfl,?_⟩
  simp only [Course.followedBy, reporting, finishing, said_append, said_opening hl, said_reports,
    report_warning, report_error]
  rw [announced, List.flatMap_append, List.flatten_append, List.flatMap_map, List.flatMap_map,
    List.flatMap_def, List.flatMap_def]

end Job

/-- A failed job tells of each problem once, on a line of its own: without colour and log it adds to
standard error one line for each skipped line of the source and one for each diagnostic, in order and
nothing else. Texts and messages hold no newline, and numbers are those of the lines of the source. -/
theorem perform_tells_each_once (job : Job) (w : World) {source : Text} {failure : Failure}
    (hread : w.files.read job.input = .ok source) (hpath : Text.newline ∉ job.input)
    (hcolour : useColour job.settings.color w.stderr.terminal = .ok false)
    (hlevel : job.settings.verbosity ≤ 0)
    (hout : w.stdout.room = none) (herr : w.stderr.room = none)
    (hfits : (Source.code source).length ≤ memoryWords)
    (hfail : (assemble job.settings.listing source).result = .error failure) :
    ∃ ds, ds = (assemble job.settings.listing source).diagnostics ∧ failure = .faulty ds ∧
      (∃ e, (job.perform w).1 = .error e ∧ e.message = Text.natural ds.length ++
        utf8 " error(s), " ++ job.output ++ utf8 " not written") ∧
      (∃ told, (job.perform w).2.stderr.text = w.stderr.text ++ told ∧
        told = (announced job.input source ds).flatMap Text.line ∧
        Source.pieces told = announced job.input source ds ∧
        (Source.pieces told).length = (Source.skipped source).length + ds.length) ∧
      (∀ l ∈ Source.skipped source, Text.newline ∉ l.text ∧
        ∃ i : Nat, (Source.lines source)[i]? = some l ∧ l.number = i + 1) ∧
      (∀ d ∈ ds, Text.newline ∉ d.message ∧ ∃ (i : Nat) (l : Line),
        (Source.lines source)[i]? = some l ∧ l.content = .instruction d.statement ∧
          d.line = i + 1) ∧
      failure.message.splitOn Text.newline = utf8 "assembly errors:" ::
        ds.map fun d => utf8 "line " ++ Text.decimal d.line ++ utf8 ": " ++ d.message := by
  obtain ⟨ds,hds,hne,rfl⟩ := faulty_of_error hfits hfail
  have hmessages : ∀ d ∈ ds, Text.newline ∉ d.message :=
    fun d hd => (visible_of_faulty hfail d hd).not_mem (by decide)
  obtain ⟨hresult,htold⟩ := Job.course_of_faulty hcolour hlevel hread hout hfail
  have hpieces := Source.pieces_flatMap_line (not_mem_announced source hpath hmessages)
  refine ⟨ds,?_,rfl,⟨.faulty ds.length job.output,?_,rfl⟩,⟨_,job.stderr_perform herr,htold,?_,?_⟩,
    fun l hl => ?_,fun d hd => ⟨hmessages d hd,?_⟩,Failure.splitOn_message hne hmessages⟩
  · rw [diagnostics_assemble_of_le hfits, hds]
  · rw [Job.perform_eq]
    exact hresult
  · rw [htold, hpieces]
  · rw [htold, hpieces, announced, List.length_append, List.length_map, List.length_map]
  · have hmem := (List.mem_filter.1 hl).1
    obtain ⟨i,hi⟩ := List.mem_iff_getElem?.1 hmem
    exact ⟨Source.not_mem_text hmem,i,hi,Source.number_of_getElem? hi⟩
  · obtain ⟨c,hc,hline,hstatement⟩ := exists_code_of_mem_diagnosis (hds ▸ hd)
    rw [hline, hstatement]
    exact Source.exists_line_of_mem_code hc

/-- A job with a faulty source, from which a listing and the label table are wanted as well. -/
def mixedJob : Job := ⟨⟨utf8 "auto",false,true,true,0⟩,utf8 "mixed.asm",utf8 "out"⟩

theorem perform_tells_each_once_mixed :
    Source.pieces (mixedJob.perform bench).2.stderr.text =
      [utf8 "mixed.asm: warning: line 2: not an instruction, skipped: 1st",
        utf8 "mixed.asm:3: error: duplicate label twice (first defined on line 1)",
        utf8 "mixed.asm:5: error: missing operand for instruction load"] ∧
    (∃ e, (mixedJob.perform bench).1 = .error e ∧ e.message = utf8 "2 error(s), out not written") ∧
    ∃ failure, (assemble true mixed).result = .error failure ∧
      failure.message.splitOn Text.newline = [utf8 "assembly errors:",
        utf8 "line 3: duplicate label twice (first defined on line 1)",
        utf8 "line 5: missing operand for instruction load"] := by
  have hread : bench.files.read (utf8 "mixed.asm") = .ok mixed := rfl
  have hlength : (Source.code mixed).length = 3 := by decide +kernel
  have hskipped : Source.skipped mixed = [⟨2,utf8 "1st",.unrecognised⟩] := by decide +kernel
  have hfail : (assemble true mixed).result = .error (.faulty
      [⟨3,⟨some (utf8 "twice"),utf8 "wait",none⟩,.duplicateLabel 1⟩,
        ⟨5,⟨none,utf8 "load",none⟩,.missingOperand⟩]) := by decide +kernel
  obtain ⟨ds,-,hfaulty,⟨e,he,hmessage⟩,⟨told,hstderr,-,htold,-⟩,-,-,hfailure⟩ :=
    perform_tells_each_once mixedJob bench hread (by decide) rfl (Int.le_refl 0) rfl rfl
      (by rw [hlength]; decide) hfail
  cases hfaulty
  refine ⟨?_,⟨e,he,?_⟩,_,hfail,?_⟩
  · have hnothing : bench.stderr.text = [] := rfl
    rw [hstderr, hnothing, List.nil_append, htold, announced, hskipped]
    decide +kernel
  · rw [hmessage]
    decide +kernel
  · rw [hfailure]
    decide +kernel

end Command
end Asm18
