import Asm18.LineRecord

/-! A source text as numbered lines. -/
namespace Asm18.Source

/-- The source cut at its newlines. A newline at the end closes the last piece and opens none. -/
def pieces (source : Text) : List Text :=
  let ps := source.splitOn Text.newline
  if ps.getLast? = some [] then ps.dropLast else ps

@[simp] theorem pieces_nil : pieces [] = [] := rfl

/-- The lines of a source, numbered from one. -/
def lines (source : Text) : List Line :=
  (pieces source).mapIdx fun i piece => Line.parse (i + 1) piece

@[simp] theorem lines_nil : lines [] = [] := rfl

/-- The lines of a source as records. -/
def records (source : Text) : List LineRecord := (lines source).map Line.record

@[simp] theorem length_lines (source : Text) : (lines source).length = (pieces source).length := by
  simp [lines]

end Asm18.Source
