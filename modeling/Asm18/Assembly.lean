import Asm18.Encoding
import Asm18.Image
import Asm18.Source

/-! Both passes over a source, and what they report: words or a failure, labels, warnings, and a
listing if one is wanted. -/
namespace Asm18

inductive Failure where
  | tooLarge (count : Nat)
  | faulty (diagnostics : List Diagnostic)
deriving DecidableEq, Repr

namespace Failure

def message : Failure → Text
  | tooLarge count => Asm18.tooLarge count " instructions"
  | faulty diagnostics => Remark.renderAll (diagnostics.map Diagnostic.remark)

end Failure

namespace Listing

/-- The digits of a word, or as many question marks. -/
def digits : Except Diagnostic Word → Text
  | .ok w => Image.digits w
  | .error _ => List.replicate wordBits 0x3F

/-- Address, digits and text of one line of code. -/
def entry (address : Nat) (c : CodeLine) (result : Except Diagnostic Word) : Text :=
  Text.hex 3 address ++ utf8 "  " ++ digits result ++ utf8 "  " ++ c.text

def entries (code : List CodeLine) (results : Encoding) : List Text :=
  (code.zip results).mapIdx fun k p => entry k p.1 p.2

end Listing

structure Assembly where
  result : Except Failure (List Word)
  labels : Labels
  /-- The number of lines of code. -/
  count : Nat
  warnings : List Text
  diagnostics : List Diagnostic
  listing : List Text

/-- Assembles a source. A program with more lines of code than memory has words is not encoded. -/
def assemble (withListing : Bool) (source : Text) : Assembly :=
  let lines := Source.lines source
  let code := Line.code lines
  let r := resolve code
  if memoryWords < r.count then
    { result := .error (.tooLarge r.count)
      labels := r.labels
      count := r.count
      warnings := Line.warnings lines
      diagnostics := r.diagnostics
      listing := [] }
  else
    let e := encode r.labels code
    let diagnostics := r.diagnostics ++ e.diagnostics
    { result := if diagnostics = [] then .ok e.words else .error (.faulty diagnostics)
      labels := r.labels
      count := r.count
      warnings := Line.warnings lines
      diagnostics := diagnostics
      listing := if withListing then Listing.entries code e else [] }

end Asm18
