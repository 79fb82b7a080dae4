import Mathlib.Data.List.Forall2
import Asm18.Proofs.Outcome
import Asm18.Proofs.Scanning

/-! The ends of lines. A line may end in a newline, or in a carriage return and a newline. One
carriage return is not part of the line's text, and any other at its end is a blank that says nothing,
so a source assembles the same with either end. -/
namespace Asm18

theorem mapIdx_map {α β γ : Type} (f : α → β) (g : Nat → β → γ) (l : List α) :
    (l.map f).mapIdx g = l.mapIdx fun i a => g i (f a) := by
  apply List.ext_getElem?
  intro i
  simp [Function.comp_def]

namespace Text

/-- The text with a carriage return before each newline. -/
def crlf (t : Text) : Text := t.flatMap fun b => if b = newline then [carriageReturn,b] else [b]

theorem crlf_of_not_mem {t : Text} (h : newline ∉ t) : t.crlf = t := by
  induction t with
  | nil => rfl
  | cons b t ih =>
    have hb : b ≠ newline := fun he => h (by simp [he])
    have ht := ih fun ht => h (by simp [ht])
    rw [crlf] at ht ⊢
    simp [hb, ht]

theorem crlf_line_append {t : Text} (h : newline ∉ t) (s : Text) :
    (line t ++ s).crlf = line (t ++ [carriageReturn]) ++ s.crlf := by
  have ht := crlf_of_not_mem h
  rw [crlf] at ht
  simp [crlf, line, ht]

end Text

namespace Source

/-- What a carriage return at its end does not change of any closed line, a carriage return before
each newline does not change of any piece. -/
theorem map_pieces_crlf {α : Type} {f : Text → α} {source : Text}
    (h : ∀ t, Text.line t <:+: source → f (t ++ [Text.carriageReturn]) = f t) :
    (pieces source.crlf).map f = (pieces source).map f := by
  induction source using induction_lines with
  | opened t ht => rw [Text.crlf_of_not_mem ht]
  | closed t s ht ih =>
    have hreturn : Text.newline ∉ t ++ [Text.carriageReturn] := by
      rw [List.mem_append]
      exact fun hm => hm.elim ht (by decide)
    have hfirst := h t (List.prefix_append _ s).isInfix
    have hrest := ih fun u hu => h u (hu.trans (List.suffix_append _ s).isInfix)
    rw [Text.crlf_line_append ht, pieces_line hreturn, pieces_line ht, List.map_cons, List.map_cons,
      hfirst, hrest]

theorem map_parse_crlf (source : Text) : (pieces source.crlf).map (fun p => Content.parse p.chomp) =
    (pieces source).map fun p => Content.parse p.chomp := by
  apply map_pieces_crlf
  intro t _
  rw [Content.parse_chomp, Content.parse_chomp, Content.parse_append_carriageReturn]

/-- Where no line ends in a carriage return, the texts of the lines are the same too. -/
theorem map_chomp_crlf {source : Text} (h : ¬ [Text.carriageReturn,Text.newline] <:+: source) :
    (pieces source.crlf).map Text.chomp = (pieces source).map Text.chomp := by
  apply map_pieces_crlf
  intro t ht
  have hlast : t.getLast? ≠ some Text.carriageReturn := by
    -- Otherwise its carriage return and its newline stand side by side in the source.
    intro hlast
    obtain ⟨u,rfl⟩ := List.getLast?_eq_some_iff.1 hlast
    have hend : [Text.carriageReturn,Text.newline] <:+ Text.line (u ++ [Text.carriageReturn]) :=
      ⟨u,by simp [Text.line]⟩
    exact h (hend.isInfix.trans ht)
  rw [Text.chomp_append_carriageReturn, Text.chomp, if_neg hlast]

theorem lines_crlf {source : Text} (h : ¬ [Text.carriageReturn,Text.newline] <:+: source) :
    lines source.crlf = lines source := by
  have hlines : ∀ s, lines s =
      ((pieces s).map Text.chomp).mapIdx fun i t => ⟨i + 1,t,Content.parse t⟩ := by
    intro s
    rw [mapIdx_map]
    rfl
  rw [hlines, hlines, map_chomp_crlf h]

end Source

/-- The same line with its text forgotten. -/
def Line.withoutText (l : Line) : Line := { l with text := [] }

/-- The same line of code with its text forgotten. -/
def CodeLine.withoutText (c : CodeLine) : CodeLine := { c with text := [] }

theorem Line.code?_withoutText (l : Line) :
    l.withoutText.code? = l.code?.map CodeLine.withoutText := by
  simp [code?, withoutText, CodeLine.withoutText, Function.comp_def]

theorem Source.withoutText_crlf (source : Text) :
    (lines source.crlf).map Line.withoutText = (lines source).map Line.withoutText := by
  have hlines : ∀ s, (lines s).map Line.withoutText =
      ((pieces s).map fun p => Content.parse p.chomp).mapIdx fun i c => ⟨i + 1,[],c⟩ := by
    intro s
    apply List.ext_getElem?
    intro i
    simp [lines, Line.parse, Line.withoutText, Function.comp_def]
  rw [hlines, hlines, map_parse_crlf]

/-! Neither pass reads the texts of the lines. -/

theorem Labels.duplicatesFrom_withoutText (seen : Table Text Int) (code : List CodeLine) :
    duplicatesFrom seen (code.map CodeLine.withoutText) = duplicatesFrom seen code := by
  induction code generalizing seen with
  | nil => rfl
  | cons c code ih => simp only [List.map_cons, duplicatesFrom, CodeLine.withoutText, ih]

theorem resolve_withoutText (code : List CodeLine) :
    resolve (code.map CodeLine.withoutText) = resolve code := by
  have hlabels : Labels.bindFrom 0 ∅ (code.map CodeLine.withoutText) = Labels.bindFrom 0 ∅ code :=
    Labels.bindFrom_congr (by simp [Function.comp_def, CodeLine.withoutText])
  rw [resolve, resolve, hlabels, Labels.duplicatesFrom_withoutText, List.length_map]

theorem encode_withoutText (labels : Labels) (code : List CodeLine) :
    encode labels (code.map CodeLine.withoutText) = encode labels code := by
  rw [encode, encode, mapIdx_map]
  rfl

/-- Sources whose lines of code are the same but for their texts assemble the same. -/
theorem assemble_of_code (on : Bool) {s₁ s₂ : Text}
    (h : (Source.code s₁).map CodeLine.withoutText = (Source.code s₂).map CodeLine.withoutText) :
    (assemble on s₁).result = (assemble on s₂).result ∧
    (assemble on s₁).labels = (assemble on s₂).labels ∧
    (assemble on s₁).diagnostics = (assemble on s₂).diagnostics := by
  have hresolve : resolve (Line.code (Source.lines s₁)) = resolve (Line.code (Source.lines s₂)) := by
    rw [← resolve_withoutText, ← Source.code, h, resolve_withoutText, Source.code]
  have hencode : ∀ labels, encode labels (Line.code (Source.lines s₁)) =
      encode labels (Line.code (Source.lines s₂)) := by
    intro labels
    rw [← encode_withoutText, ← Source.code, h, encode_withoutText, Source.code]
  unfold assemble
  simp only [hresolve, hencode]
  split <;> exact ⟨rfl,rfl,rfl⟩

theorem assemble_of_withoutText (on : Bool) {s₁ s₂ : Text}
    (h : (Source.lines s₁).map Line.withoutText = (Source.lines s₂).map Line.withoutText) :
    (assemble on s₁).result = (assemble on s₂).result ∧
    (assemble on s₁).labels = (assemble on s₂).labels ∧
    (assemble on s₁).diagnostics = (assemble on s₂).diagnostics := by
  apply assemble_of_code
  rw [Source.code, Source.code, ← Line.code_map Line.code?_withoutText, h,
    Line.code_map Line.code?_withoutText]

/-- A carriage return before each newline changes nothing of a source but the texts of its lines:
result, labels and diagnostics are the same, in a session with any past. Unless a line ends in a
carriage return already the texts are the same as well, and with them the warnings and the listing. -/
theorem assemble_crlf (s : Session) (source : Text) :
    List.Forall₂ (fun l m => l.number = m.number ∧ l.content = m.content)
      (Source.lines source.crlf) (Source.lines source) ∧
    (s.assemble source.crlf).1 = (s.assemble source).1 ∧
    (s.assemble source.crlf).2.labels = (s.assemble source).2.labels ∧
    (s.assemble source.crlf).2.diagnostics = (s.assemble source).2.diagnostics ∧
    (¬ [Text.carriageReturn,Text.newline] <:+: source →
      (Source.lines source.crlf).map Line.text = (Source.lines source).map Line.text ∧
      (s.assemble source.crlf).2.warnings = (s.assemble source).2.warnings ∧
      (s.assemble source.crlf).2.listing = (s.assemble source).2.listing) := by
  have hlines := Source.withoutText_crlf source
  obtain ⟨hresult,hlabels,hdiagnostics⟩ := assemble_of_withoutText s.withListing hlines
  refine ⟨?_,hresult,hlabels,hdiagnostics,fun h => ?_⟩
  · rw [← List.forall₂_eq_eq_eq, List.forall₂_map_left_iff, List.forall₂_map_right_iff] at hlines
    refine hlines.imp fun l m hlm => ?_
    simpa [Line.withoutText] using hlm
  · have hsame : assemble s.withListing source.crlf = assemble s.withListing source := by
      unfold assemble
      rw [Source.lines_crlf h]
    refine ⟨by rw [Source.lines_crlf h],?_,?_⟩
    · exact congrArg Assembly.warnings hsame
    · exact congrArg Assembly.listing hsame

/-- Carriage returns stand inside a line and at the end of the last, which is open. -/
def uneven : Text := utf8 "again: load r1\nno\rpe\n wait\r#1\nagain: br again\r"

theorem assemble_crlf_uneven :
    ¬ [Text.carriageReturn,Text.newline] <:+: uneven ∧
    (Session.start.assemble uneven.crlf).2.diagnostics.map Diagnostic.line = [4,3] ∧
    (Session.start.assemble uneven.crlf).2.warnings =
      [utf8 "line 2: not an instruction, skipped: no\rpe"] ∧
    ((Session.start.setListing true).assemble uneven.crlf).2.listing.map (List.drop 25) =
      [utf8 "again: load r1",utf8 " wait\r#1",utf8 "again: br again"] := by
  have h : ¬ [Text.carriageReturn,Text.newline] <:+: uneven := by decide +kernel
  obtain ⟨-,-,-,hdiagnostics,htexts⟩ := assemble_crlf .start uneven
  obtain ⟨-,-,-,-,hlisted⟩ := assemble_crlf (Session.start.setListing true) uneven
  refine ⟨h,?_,?_,?_⟩
  · rw [hdiagnostics]
    decide +kernel
  · rw [(htexts h).2.1]
    decide +kernel
  · rw [(hlisted h).2.2]
    decide +kernel

-- Only one carriage return is taken off, so a line that has one already keeps it in its text.
example : (Source.lines (utf8 "oops\r\n").crlf).map Line.text = [utf8 "oops\r"] ∧
    (Source.lines (utf8 "oops\r\n")).map Line.text = [utf8 "oops"] := by decide +kernel

end Asm18
