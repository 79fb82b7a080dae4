import Asm18.Diagnostic
import Asm18.Line
import Asm18.Table

/-! The first pass. The lines of code have the addresses 0, 1, 2 and so on, and a label stands for
the address of the last line that carries it. -/
namespace Asm18

abbrev Labels := Table Text Address

namespace Labels

/-- Ascending by address, then by the bytes of the name. -/
def before (a b : Text × Address) : Bool := a.2 < b.2 || (a.2 == b.2 && a.1 ≤ b.1)

def sorted (ls : Labels) : List (Text × Address) := ls.entries.mergeSort before

def names (ls : Labels) : List Text := ls.sorted.map Prod.fst

/-- Adds the labels of the lines of code from address `k` on. -/
def bindFrom (k : Nat) (ls : Labels) : List CodeLine → Labels
  | [] => ls
  | c :: code =>
    match c.statement.label with
    | none => bindFrom (k + 1) ls code
    | some name => bindFrom (k + 1) (ls.insert name (Int64.ofNat k)) code

/-- One diagnostic for each line whose label an earlier line carries; `seen` has the first line of
each label met so far. -/
def duplicatesFrom (seen : Table Text Int) : List CodeLine → List Diagnostic
  | [] => []
  | c :: code =>
    match c.statement.label with
    | none => duplicatesFrom seen code
    | some name =>
      match seen.get? name with
      | some first => ⟨c.number,c.statement,.duplicateLabel first⟩ :: duplicatesFrom seen code
      | none => duplicatesFrom (seen.insert name c.number) code

end Labels

structure Resolution where
  labels : Labels
  count : Nat
  diagnostics : List Diagnostic

def resolve (code : List CodeLine) : Resolution where
  labels := Labels.bindFrom 0 ∅ code
  count := code.length
  diagnostics := Labels.duplicatesFrom ∅ code

end Asm18
