import Asm18.Proofs.LineEnds

/-! Comments after a line. The scanner does not look for them: a blank and a semicolon end each token
where the end of the line would have ended it, so that whatever follows is not read. Comments can be
put after any lines of a source, and it assembles the same. -/
namespace Asm18

namespace Content

/-- What a line becomes with a comment after it. -/
def commented : Content → Content
  | blank => comment
  | c => c

@[simp] theorem statement?_commented (c : Content) : c.commented.statement? = c.statement? := by
  cases c <;> rfl

theorem commented_of_ne_blank {c : Content} (h : c ≠ blank) : c.commented = c := by
  cases c with
  | blank => exact absurd rfl h
  | comment | unrecognised | instruction => rfl

theorem parse_ne_blank {t : Text} (h : t.trimStart ≠ []) : parse t ≠ blank := by
  obtain ⟨b,rest,hcons⟩ := List.exists_cons_of_ne_nil h
  simp only [parse, hcons]
  split
  · simp
  · split <;> simp

theorem idle_comment (c : Text) : Statement.Idle (utf8 " ;" ++ c) where
  blank := ⟨_,rfl,rfl⟩
  empty := rfl

/-- White space and a comment are a comment. -/
theorem parse_onlySpace_comment {t : Text} (ht : OnlySpace t) (c : Text) :
    parse (t ++ (utf8 " ;" ++ c)) = comment := by
  have hspace : OnlySpace (utf8 " ") := onlySpace_of_blanks (List.forall_mem_singleton.2 rfl)
  have hfirst : (t ++ (utf8 " ;" ++ c)).trimStart = semicolon :: c := by
    rw [Text.trimStart_onlySpace_append ht]
    exact (Text.trimStart_onlySpace_append hspace _).trans (Text.trimStart_ascii (by decide) rfl)
  simp only [parse, hfirst, if_true]

theorem parse_append_comment (t c : Text) : parse (t ++ (utf8 " ;" ++ c)) = (parse t).commented := by
  by_cases ht : t.trimStart = []
  · rw [parse_onlySpace_comment (Text.trimStart_eq_nil_iff.1 ht)]
    simp only [parse, ht, commented]
  · rw [parse_append (idle_comment c) ht, commented_of_ne_blank (parse_ne_blank ht)]

end Content

/-- A comment to be put after a line. -/
structure Note where
  body : Text
  /-- Whether it stands after the carriage return at the end of the line, or in its place. -/
  afterReturn : Bool
deriving DecidableEq, Repr

namespace Note

def put (n : Note) (t : Text) : Text :=
  (if n.afterReturn then t else t.chomp) ++ (utf8 " ;" ++ n.body)

theorem parse_put (n : Note) (t : Text) : Content.parse (n.put t) = (Content.parse t).commented := by
  unfold put
  split
  · exact Content.parse_append_comment t n.body
  · rw [Content.parse_append_comment, Content.parse_chomp]

theorem put_ne_nil (n : Note) (t : Text) : n.put t ≠ [] := by
  unfold put
  exact List.append_ne_nil_of_right_ne_nil _ (List.append_ne_nil_of_left_ne_nil (by decide) _)

theorem not_mem_put {n : Note} {t : Text} (hn : Text.newline ∉ n.body) (ht : Text.newline ∉ t) :
    Text.newline ∉ n.put t := by
  have hchomp : Text.newline ∉ t.chomp := fun hm => ht (Text.chomp_subset t hm)
  have hmark : Text.newline ∉ utf8 " ;" := by decide
  unfold put
  split <;> simp [ht, hchomp, hmark, hn]

end Note

namespace Source

/-- The source with each line replaced. A line that is open at the end stays open. -/
def edit (f : Nat → Text → Text) (source : Text) : Text :=
  if source.getLast? = some Text.newline then ((pieces source).mapIdx f).flatMap Text.line
  else Text.unlines ((pieces source).mapIdx f)

/-- Lines are replaced one by one if they stay lines, and the last one does not vanish. -/
theorem pieces_edit {f : Nat → Text → Text} {source : Text}
    (hline : ∀ i t, Text.newline ∉ t → Text.newline ∉ f i t) (hne : ∀ i t, t ≠ [] → f i t ≠ []) :
    pieces (edit f source) = (pieces source).mapIdx f := by
  have hlines : ∀ t ∈ (pieces source).mapIdx f, Text.newline ∉ t := by
    intro t ht
    obtain ⟨i,hi,rfl⟩ := List.mem_mapIdx.1 ht
    exact hline i _ (not_mem_of_mem_pieces (List.getElem_mem hi))
  unfold edit
  split
  · exact pieces_flatMap_line hlines
  · rename_i hopen
    refine pieces_unlines hlines fun hlast => ?_
    rw [List.getLast?_mapIdx] at hlast
    obtain ⟨t,ht,hnil⟩ := Option.map_eq_some_iff.1 hlast
    refine hne _ t ?_ hnil
    rintro rfl
    exact getLast?_pieces hopen ht

/-- What a note leaves of a line. Where there is no note the line stays as it is. -/
def noted (notes : Nat → Option Note) (i : Nat) (t : Text) : Text :=
  match notes i with
  | some n => n.put t
  | none => t

/-- The source with comments after some of its lines, which are counted from zero. -/
def annotate (notes : Nat → Option Note) (source : Text) : Text := edit (noted notes) source

section Annotate

variable {notes : Nat → Option Note}
  (h : ∀ i n, notes i = some n → Text.newline ∉ n.body) (source : Text)
include h

theorem pieces_annotate :
    pieces (annotate notes source) = (pieces source).mapIdx (noted notes) := by
  apply pieces_edit
  · intro i t ht
    unfold noted
    split
    · exact Note.not_mem_put (h i _ ‹_›) ht
    · exact ht
  · intro i t ht
    unfold noted
    split
    · exact Note.put_ne_nil _ t
    · exact ht

theorem lines_annotate : lines (annotate notes source) =
    (pieces source).mapIdx fun i t => Line.parse (i + 1) (noted notes i t) := by
  rw [lines, pieces_annotate h, List.mapIdx_mapIdx]
  rfl

/-- A note changes the content of a line only if the line is blank. -/
theorem content_annotate : (lines (annotate notes source)).map Line.content =
    (lines source).mapIdx fun i l =>
      if (notes i).isSome then l.content.commented else l.content := by
  rw [lines_annotate h]
  apply List.ext_getElem?
  intro i
  cases hn : notes i <;>
    simp [lines, Line.parse, noted, hn, Content.parse_chomp, Note.parse_put, Function.comp_def]

theorem number_annotate :
    (lines (annotate notes source)).map Line.number = (lines source).map Line.number := by
  rw [lines_annotate h]
  apply List.ext_getElem?
  intro i
  simp [lines, Line.parse, Function.comp_def]

end Annotate
end Source

/-- Lines with the same numbers and statements have the same lines of code but for the texts. -/
theorem Line.code_withoutText (ls : List Line) : (code ls).map CodeLine.withoutText =
    ((ls.map number).zip (ls.map fun l => l.content.statement?)).filterMap fun p =>
      p.2.map fun s => ⟨p.1,[],s⟩ := by
  simp only [code, List.map_filterMap, List.zip_map', List.filterMap_map]
  congr
  funext l
  simp [code?, CodeLine.withoutText, Function.comp_def]

theorem Source.code_annotate {notes : Nat → Option Note}
    (h : ∀ i n, notes i = some n → Text.newline ∉ n.body) (source : Text) :
    (code (annotate notes source)).map CodeLine.withoutText =
      (code source).map CodeLine.withoutText := by
  have hstatements : (lines (annotate notes source)).map (fun l => l.content.statement?) =
      (lines source).map fun l => l.content.statement? := by
    have hcontent := congrArg (List.map Content.statement?) (content_annotate h source)
    rw [List.map_map] at hcontent
    refine hcontent.trans (List.ext_getElem? fun i => ?_)
    cases hn : notes i <;> simp [hn, Function.comp_def]
  rw [code, code, Line.code_withoutText, Line.code_withoutText, number_annotate h, hstatements]

/-- Comments after lines change nothing. A blank line becomes a comment and any other keeps its
content; in a source, comments may be put before a carriage return or after it. -/
theorem assemble_annotate (s : Session) {notes : Nat → Option Note}
    (h : ∀ i n, notes i = some n → Text.newline ∉ n.body) (source : Text) :
    (∀ number text body,
      (Line.parse number (text ++ utf8 " ;" ++ body)).number = number ∧
      (Line.parse number (text ++ utf8 " ;" ++ body)).content =
        (Line.parse number text).content.commented) ∧
    Source.pieces (Source.annotate notes source) =
      (Source.pieces source).mapIdx (Source.noted notes) ∧
    (s.assemble (Source.annotate notes source)).1 = (s.assemble source).1 ∧
    (s.assemble (Source.annotate notes source)).2.labels = (s.assemble source).2.labels ∧
    (s.assemble (Source.annotate notes source)).2.diagnostics =
      (s.assemble source).2.diagnostics := by
  have hsame := assemble_of_code s.withListing (Source.code_annotate h source)
  refine ⟨fun number text body => ⟨rfl,?_⟩,Source.pieces_annotate h source,hsame⟩
  simp only [Line.parse, Content.parse_chomp, List.append_assoc]
  exact Content.parse_append_comment text body

/-- Lines that end after a label, after a bare `#`, in a blank, and in an operand. -/
def ragged : Text := utf8 "end:\r\n addi #\r\n\t\r\nend: wait r1 \nend: br end"

/-- A note on each line but the fourth. The one on the second stands after the carriage return. -/
def margin (i : Nat) : Option Note :=
  if i = 3 then none else some ⟨utf8 "; wait #1\r",i = 1⟩

theorem assemble_annotate_ragged :
    (∀ i n, margin i = some n → Text.newline ∉ n.body) ∧
    Source.annotate margin ragged = utf8 ("end: ;; wait #1\r\n addi #\r ;; wait #1\r\n" ++
      "\t ;; wait #1\r\nend: wait r1 \nend: br end ;; wait #1\r") ∧
    (Session.start.assemble (Source.annotate margin ragged)).2.labels.get? (utf8 "end") = some 2 ∧
    (Session.start.assemble (Source.annotate margin ragged)).2.diagnostics =
      [⟨5,⟨some (utf8 "end"),utf8 "br",some (utf8 "end")⟩,.duplicateLabel 4⟩,
        ⟨2,⟨none,utf8 "addi",none⟩,.missingOperand⟩,
        ⟨4,⟨some (utf8 "end"),utf8 "wait",some (utf8 "r1")⟩,.unexpectedOperand⟩] := by
  have h : ∀ i n, margin i = some n → Text.newline ∉ n.body := by
    intro i n hn
    unfold margin at hn
    split at hn
    · cases hn
    · cases hn
      exact (by decide : Text.newline ∉ utf8 "; wait #1\r")
  obtain ⟨-,-,-,hlabels,hdiagnostics⟩ := assemble_annotate .start h ragged
  refine ⟨h,by decide +kernel,?_,?_⟩
  · rw [hlabels]
    decide +kernel
  · rw [hdiagnostics]
    decide +kernel

-- A comment that follows without a blank is read as the end of a statement only after its operand.
example : Content.parse (utf8 " load r1;x") = Content.parse (utf8 " load r1") ∧
    Content.parse (utf8 " wait;x") = .unrecognised := by decide +kernel

end Asm18
