import Asm18.Labels
import Asm18.Reporter

/-! The label table as the user sees it: one record for each label, in the order of addresses. -/
namespace Asm18.SymbolDump

/-- The text set in the given attributes, one sequence for each. -/
def paint (colour : Bool) (codes : List String) (t : Text) : Text :=
  if colour then codes.flatMap Colour.attributes ++ t ++ Colour.reset else t

def typeName (colour : Bool) : Text := utf8 "main." ++ paint colour ["32"] (utf8 "Symbol")

def fieldName (colour : Bool) (name : String) : Text := paint colour ["33"] (utf8 name)

/-- A label between quotes; an empty one has nothing to paint between them. -/
def string (colour : Bool) (t : Text) : Text :=
  let quote := paint colour ["31", "1"] [0x22]
  quote ++ (if t = [] then [] else paint colour ["31"] t) ++ quote

def number (colour : Bool) (n : Int) : Text := paint colour ["34", "1"] (Text.decimal n)

def row (colour : Bool) (label : Text × Address) : Text :=
  Text.line (utf8 "  " ++ typeName colour ++ utf8 "\x7b") ++
  Text.line (utf8 "    " ++ fieldName colour "Name" ++ utf8 ":    " ++ string colour label.1 ++
    utf8 ",") ++
  Text.line (utf8 "    " ++ fieldName colour "Address" ++ utf8 ": " ++
    number colour label.2.toInt ++ utf8 ",") ++
  Text.line (utf8 "  \x7d,")

/-- A printer of records, in colour or without. -/
abbrev Printer := Bool → List (Text × Address) → Text

/-- The layout that is documented for a printer. -/
def layout : Printer
  | colour,[] => Text.line (utf8 "[]" ++ typeName colour ++ utf8 "\x7b\x7d")
  | colour,rows =>
    Text.line (utf8 "[]" ++ typeName colour ++ utf8 "\x7b") ++ rows.flatMap (row colour) ++
      Text.line (utf8 "\x7d")

/-- All that is assumed of a printer: it lays these records out as documented. -/
def Printer.Documented (printer : Printer) (rows : List (Text × Address)) : Prop :=
  ∀ colour, printer colour rows = layout colour rows

theorem documented_layout (rows : List (Text × Address)) : Printer.Documented layout rows :=
  fun _ => rfl

def render (colour : Bool) (labels : Labels) : Text := layout colour labels.sorted

end Asm18.SymbolDump
