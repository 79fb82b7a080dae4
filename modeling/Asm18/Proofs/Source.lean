import Mathlib.Data.List.Basic
import Asm18.Source

/-! How a source comes apart. A source that is empty or closed by a newline is cut at its end in
any longer source, so the lines of what follows are the same but for their numbers. -/
namespace Asm18

/-- The same line, `n` lines further down. -/
def Line.later (n : Nat) (l : Line) : Line := { l with number := l.number + n }

/-- The same line of code, `n` lines further down. -/
def CodeLine.later (n : Nat) (c : CodeLine) : CodeLine := { c with number := c.number + n }

@[simp] theorem CodeLine.statement_later (n : Nat) (c : CodeLine) :
    (c.later n).statement = c.statement := rfl

theorem Line.code?_later (n : Nat) (l : Line) : (l.later n).code? = l.code?.map (·.later n) := by
  simp [code?, later, CodeLine.later, Function.comp_def]

/-- What is done to each line of code can be done to the lines before. -/
theorem Line.code_map {f : Line → Line} {g : CodeLine → CodeLine}
    (h : ∀ l, (f l).code? = l.code?.map g) (ls : List Line) :
    code (ls.map f) = (code ls).map g := by
  simp only [code, List.filterMap_map, List.map_filterMap]
  congr
  funext l
  exact h l

theorem Line.code_map_later (n : Nat) (ls : List Line) :
    code (ls.map (later n)) = (code ls).map (CodeLine.later n) :=
  code_map (code?_later n) ls

theorem Line.length_code (ls : List Line) :
    (code ls).length = ls.countP fun l => l.content.kind = .instruction := by
  induction ls with
  | nil => rfl
  | cons l ls ih =>
    rw [code] at ih ⊢
    cases hc : l.content <;> simp [code?, Content.statement?, Content.kind, hc, ih]

namespace Source

/-- The lines of code of a source. -/
def code (source : Text) : List CodeLine := Line.code (lines source)

/-- A source is an open line, which may be empty, or a closed line and a source. -/
theorem induction_lines {motive : Text → Prop} (opened : ∀ t, Text.newline ∉ t → motive t)
    (closed : ∀ t s, Text.newline ∉ t → motive s → motive (Text.line t ++ s)) (source : Text) :
    motive source := by
  induction hn : source.length using Nat.strongRecOn generalizing source with
  | ind n ih =>
    by_cases hmem : Text.newline ∈ source
    · obtain ⟨t,s,rfl,ht⟩ := List.eq_append_cons_of_mem hmem
      have hs : motive s := ih s.length (by simp at hn; omega) s rfl
      simpa [Text.line] using closed t s ht hs
    · exact opened source hmem

/-- No line of the source is left open at its end. -/
def Closed (source : Text) : Prop := source = [] ∨ ∃ t, source = Text.line t

theorem pieces_line_append (t s : Text) :
    pieces (Text.line t ++ s) = t.splitOn Text.newline ++ pieces s := by
  have hne : s.splitOn Text.newline ≠ [] := List.splitOn_ne_nil _ _
  have hsplit : (Text.line t ++ s).splitOn Text.newline =
      t.splitOn Text.newline ++ s.splitOn Text.newline := by
    rw [Text.line, List.append_assoc, List.singleton_append, List.splitOn_append_cons_self]
  have hlast : (t.splitOn Text.newline ++ s.splitOn Text.newline).getLast? =
      (s.splitOn Text.newline).getLast? := List.getLast?_append_of_ne_nil _ hne
  simp only [pieces, hsplit, hlast]
  split
  · rw [List.dropLast_append_of_ne_nil hne]
  · rfl

theorem pieces_append {s₁ : Text} (h : Closed s₁) (s₂ : Text) :
    pieces (s₁ ++ s₂) = pieces s₁ ++ pieces s₂ := by
  rcases h with rfl | ⟨t,rfl⟩
  · rfl
  · have ht := pieces_line_append t []
    rw [List.append_nil, pieces_nil, List.append_nil] at ht
    rw [pieces_line_append, ht]

theorem pieces_line {t : Text} (ht : Text.newline ∉ t) (s : Text) :
    pieces (Text.line t ++ s) = t :: pieces s := by
  rw [pieces_line_append, List.splitOn_eq_singleton ht]
  rfl

/-- An open line is the only piece, unless it is empty. -/
theorem pieces_open {t : Text} (ht : Text.newline ∉ t) : pieces t = if t = [] then [] else [t] := by
  rw [pieces, List.splitOn_eq_singleton ht]
  by_cases hnil : t = [] <;> simp [hnil]

theorem not_mem_of_mem_pieces {source t : Text} (h : t ∈ pieces source) : Text.newline ∉ t := by
  induction source using induction_lines with
  | opened u hu =>
    rw [pieces_open hu] at h
    split at h
    · cases h
    · rwa [List.mem_singleton.1 h]
  | closed u s hu ih =>
    rw [pieces_line hu] at h
    rcases List.mem_cons.1 h with rfl | h
    · exact hu
    · exact ih h

/-- Lines that are closed one after the other are cut apart again. -/
theorem pieces_flatMap_line {ts : List Text} (h : ∀ t ∈ ts, Text.newline ∉ t) :
    pieces (ts.flatMap Text.line) = ts := by
  induction ts with
  | nil => rfl
  | cons t ts ih =>
    rw [List.flatMap_cons, pieces_line (h t (by simp)), ih fun u hu => h u (by simp [hu])]

theorem pieces_eq_nil_iff {source : Text} : pieces source = [] ↔ source = [] := by
  induction source using induction_lines with
  | opened t ht => rw [pieces_open ht]; simp
  | closed t s ht _ => rw [pieces_line ht]; simp [Text.line]

/-- The last piece of a source that is not closed is not empty. -/
theorem getLast?_pieces {source : Text} (h : source.getLast? ≠ some Text.newline) :
    (pieces source).getLast? ≠ some [] := by
  induction source using induction_lines with
  | opened t ht =>
    rw [pieces_open ht]
    by_cases hnil : t = [] <;> simp [hnil]
  | closed t s ht ih =>
    have hs : s ≠ [] := by
      rintro rfl
      simp [Text.line] at h
    rw [List.getLast?_append_of_ne_nil _ hs] at h
    rw [pieces_line ht, ← List.singleton_append,
      List.getLast?_append_of_ne_nil _ (mt pieces_eq_nil_iff.1 hs)]
    exact ih h

/-- Lines of which the last is left open are cut apart again. -/
theorem pieces_unlines {ts : List Text} (h : ∀ t ∈ ts, Text.newline ∉ t)
    (hlast : ts.getLast? ≠ some []) : pieces (Text.unlines ts) = ts := by
  by_cases hnil : ts = []
  · rw [hnil]
    rfl
  · rw [pieces, Text.unlines, List.splitOn_intercalate Text.newline h hnil]
    exact if_neg hlast

theorem lines_append {s₁ : Text} (h : Closed s₁) (s₂ : Text) :
    lines (s₁ ++ s₂) = lines s₁ ++ (lines s₂).map (Line.later (lines s₁).length) := by
  rw [lines, pieces_append h, List.mapIdx_append, ← lines]
  congr 1
  rw [List.mapIdx_eq_iff]
  intro i
  have hnumber : ((i + (pieces s₁).length : Nat) : Int) + 1 = i + 1 + (lines s₁).length := by
    rw [length_lines]
    omega
  simp only [lines, List.getElem?_map, List.getElem?_mapIdx, Option.map_map, hnumber]
  rfl

theorem code_append {s₁ : Text} (h : Closed s₁) (s₂ : Text) :
    code (s₁ ++ s₂) = code s₁ ++ (code s₂).map (CodeLine.later (lines s₁).length) := by
  rw [code, lines_append h, Line.code_append, Line.code_map_later]
  rfl

theorem length_code (source : Text) : (code source).length =
    (lines source).countP fun l => l.content.kind = .instruction :=
  Line.length_code (lines source)

end Source
end Asm18
