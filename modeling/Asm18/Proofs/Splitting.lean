import Mathlib.Data.List.Forall2
import Asm18.Proofs.Listing

/-! What a source loses when it is cut into lines: one carriage return at the end of a line, and
nothing else. Its newlines say how many lines there are. There is only one way to cut it into that
many pieces that give it back when they are joined, and the lines are these pieces in order, with
the numbers from one on. -/
namespace Asm18

namespace Text

theorem unlines_cons (t : Text) {ts : List Text} (h : ts ≠ []) :
    unlines (t :: ts) = line t ++ unlines ts := by
  cases ts with
  | nil => exact absurd rfl h
  | cons u ts => exact List.intercalate_cons_cons

@[simp] theorem unlines_singleton (t : Text) : unlines [t] = t := List.intercalate_singleton

/-- Lines joined and then closed are lines closed one after the other. -/
theorem line_unlines {ts : List Text} (h : ts ≠ []) : line (unlines ts) = ts.flatMap line := by
  induction ts with
  | nil => exact absurd rfl h
  | cons t ts ih =>
    by_cases hts : ts = []
    · simp [hts]
    · have hrest := ih hts
      simp only [line, List.flatMap_cons, unlines_cons t hts, List.append_assoc] at hrest ⊢
      rw [hrest]

/-- Joined texts have the newlines that are in them and one between each two. -/
theorem count_unlines {ts : List Text} (h : ts ≠ []) :
    (unlines ts).count newline + 1 = ts.flatten.count newline + ts.length := by
  induction ts with
  | nil => exact absurd rfl h
  | cons t ts ih =>
    by_cases hts : ts = []
    · simp [hts]
    · have hrest := ih hts
      simp only [unlines_cons t hts, line, List.count_append, List.count_singleton_self,
        List.flatten_cons, List.length_cons]
      omega

theorem count_flatten_eq_zero_iff {ts : List Text} :
    ts.flatten.count newline = 0 ↔ ∀ t ∈ ts, newline ∉ t := by
  simp [List.count_eq_zero]

end Text

/-- The line has the raw text, less one carriage return if that ends in one, and what it says. -/
structure Line.Reads (l : Line) (raw : Text) : Prop where
  text : raw = l.text ++ [Text.carriageReturn] ∨
    raw = l.text ∧ raw.getLast? ≠ some Text.carriageReturn
  content : l.content = Content.parse l.text

theorem Line.reads_parse (number : Int) (raw : Text) : (parse number raw).Reads raw where
  text := raw.chomp_cases
  content := rfl

namespace Source

/-- The number of lines: each newline closes one, and one may be left open at the end. -/
def lineCount (source : Text) : Nat :=
  source.count Text.newline +
    if source ≠ [] ∧ source.getLast? ≠ some Text.newline then 1 else 0

/-- The newline at the end, if there is one. -/
def ending (source : Text) : Text :=
  if source.getLast? = some Text.newline then [Text.newline] else []

theorem unlines_pieces (source : Text) :
    Text.unlines (pieces source) ++ ending source = source := by
  induction source using induction_lines with
  | opened t ht =>
    have hlast : t.getLast? ≠ some Text.newline := mt List.mem_of_getLast? ht
    by_cases hnil : t = []
    · rw [hnil]
      rfl
    · simp [pieces_open ht, ending, hlast, hnil]
  | closed t s ht ih =>
    rw [pieces_line ht]
    by_cases hnil : s = []
    · simp [hnil, ending, Text.line]
    · have hend : ending (Text.line t ++ s) = ending s := by
        rw [ending, List.getLast?_append_of_ne_nil _ hnil, ending]
      rw [Text.unlines_cons t (mt pieces_eq_nil_iff.1 hnil), hend, List.append_assoc, ih]

/-- Each newline but the one at the end stands between two lines. -/
theorem lineCount_add_count_ending {source : Text} (h : source ≠ []) :
    lineCount source + (ending source).count Text.newline = source.count Text.newline + 1 := by
  by_cases hlast : source.getLast? = some Text.newline <;> simp [lineCount, ending, hlast, h]

/-- Texts that give the source back are as many as its lines, less the newlines in them. -/
theorem lineCount_of_unlines {source : Text} {ts : List Text} (hne : source ≠ []) (hts : ts ≠ [])
    (hjoin : Text.unlines ts ++ ending source = source) :
    lineCount source = ts.flatten.count Text.newline + ts.length := by
  have hcount := congrArg (List.count Text.newline) hjoin
  have hlines := lineCount_add_count_ending hne
  have hjoined := Text.count_unlines hts
  rw [List.count_append] at hcount
  omega

theorem length_pieces (source : Text) : (pieces source).length = lineCount source := by
  by_cases hne : source = []
  · rw [hne]
    rfl
  · have hnone : (pieces source).flatten.count Text.newline = 0 :=
      Text.count_flatten_eq_zero_iff.2 fun t ht => not_mem_of_mem_pieces ht
    have hcount := lineCount_of_unlines hne (mt pieces_eq_nil_iff.1 hne) (unlines_pieces source)
    omega

theorem lineCount_eq_zero_iff {source : Text} : lineCount source = 0 ↔ source = [] := by
  rw [← length_pieces, List.length_eq_zero_iff, pieces_eq_nil_iff]

/-- Texts of which the last is empty leave no line open when they are joined. -/
theorem closed_unlines {ts : List Text} (h : ts.getLast? = some []) : Closed (Text.unlines ts) := by
  obtain ⟨us,rfl⟩ := List.getLast?_eq_some_iff.1 h
  induction us with
  | nil => exact .inl rfl
  | cons u us ih =>
    rw [List.cons_append, Text.unlines_cons u (by simp)]
    rcases ih (by simp) with hnil | ⟨t,ht⟩
    · exact .inr ⟨u,by rw [hnil, List.append_nil]⟩
    · exact .inr ⟨Text.line u ++ t,by simp [ht, Text.line]⟩

theorem eq_pieces_of_unlines {source : Text} {ts : List Text}
    (hlength : ts.length = lineCount source)
    (hjoin : Text.unlines ts ++ ending source = source) : ts = pieces source := by
  by_cases hne : source = []
  · subst hne
    exact List.eq_nil_of_length_eq_zero hlength
  · have hts : ts ≠ [] := by
      intro hnil
      rw [hnil] at hlength
      exact hne (lineCount_eq_zero_iff.1 hlength.symm)
    -- The source has no newline to spare: all are used up between the texts and at the end.
    have hlines : ∀ t ∈ ts, Text.newline ∉ t := by
      have hcount := lineCount_of_unlines hne hts hjoin
      exact Text.count_flatten_eq_zero_iff.1 (by omega)
    by_cases hlast : source.getLast? = some Text.newline
    · have hclosed : ts.flatMap Text.line = source := by
        rw [ending, if_pos hlast] at hjoin
        rw [← Text.line_unlines hts]
        exact hjoin
      rw [← hclosed, pieces_flatMap_line hlines]
    · have hopen : Text.unlines ts = source := by
        rw [ending, if_neg hlast, List.append_nil] at hjoin
        exact hjoin
      have hfilled : ts.getLast? ≠ some [] := by
        intro hnil
        rcases closed_unlines hnil with h | ⟨t,h⟩
        · exact hne (hopen.symm.trans h)
        · exact hlast (by simp [← hopen, h, Text.line])
      rw [← hopen, pieces_unlines hlines hfilled]

/-- The pieces are the only texts that are as many as the lines and give the source back. -/
theorem eq_pieces_iff {source : Text} {ts : List Text} : ts = pieces source ↔
    ts.length = lineCount source ∧ Text.unlines ts ++ ending source = source := by
  constructor
  · intro h
    subst h
    exact ⟨length_pieces source,unlines_pieces source⟩
  · intro h
    exact eq_pieces_of_unlines h.1 h.2

theorem forall₂_reads_pieces (source : Text) :
    List.Forall₂ Line.Reads (lines source) (pieces source) := by
  refine List.forall₂_iff_get.2 ⟨length_lines source,fun i _ _ => ?_⟩
  simp only [lines, List.get_eq_getElem, List.getElem_mapIdx]
  exact Line.reads_parse _ _

theorem numbers_lines (source : Text) :
    (lines source).map Line.number = (List.range' 1 (lineCount source)).map Int.ofNat := by
  rw [← length_pieces, ← length_lines]
  exact Line.numbered_lines source

/-- Nothing is lost when a source is cut into lines but one carriage return at the end of each. The
pieces are the only ones of that number that give the source back, and a source after one that ends in
a newline has the lines it had, with their numbers increased. -/
theorem lines_lose_nothing (source : Text) :
    (lines source).map Line.number = (List.range' 1 (lineCount source)).map Int.ofNat ∧
    (∀ ts, ts = pieces source ↔
      ts.length = lineCount source ∧ Text.unlines ts ++ ending source = source) ∧
    List.Forall₂ Line.Reads (lines source) (pieces source) ∧
    ∀ before, Closed before → lines (before ++ source) =
      lines before ++ (lines source).map (Line.later (lines before).length) :=
  ⟨numbers_lines source,fun _ => eq_pieces_iff,forall₂_reads_pieces source,
    fun _ h => lines_append h source⟩

/-- Lines that end in two carriage returns, in none and in one, with empty ones among them. -/
def patchwork : Text := utf8 "; top\r\r\n\n\r\nend: wait\n"

theorem lines_lose_nothing_patchwork :
    Closed patchwork ∧
    (lines (patchwork ++ utf8 "\tbr end\r")).map Line.number = [1,2,3,4,5] ∧
    pieces (patchwork ++ utf8 "\tbr end\r") =
      [utf8 "; top\r\r",[],utf8 "\r",utf8 "end: wait",utf8 "\tbr end\r"] ∧
    lines (patchwork ++ utf8 "\tbr end\r") = lines patchwork ++
      [⟨5,utf8 "\tbr end",.instruction ⟨none,utf8 "br",some (utf8 "end")⟩⟩] := by
  have hclosed : Closed patchwork := .inr ⟨utf8 "; top\r\r\n\n\r\nend: wait",by decide⟩
  obtain ⟨hnumbers,hpieces,-,-⟩ := lines_lose_nothing (patchwork ++ utf8 "\tbr end\r")
  obtain ⟨-,-,-,happend⟩ := lines_lose_nothing (utf8 "\tbr end\r")
  refine ⟨hclosed,?_,?_,?_⟩
  · rw [hnumbers]
    decide +kernel
  · exact ((hpieces _).2 (by decide +kernel)).symm
  · rw [happend patchwork hclosed]
    decide +kernel

end Source
end Asm18
