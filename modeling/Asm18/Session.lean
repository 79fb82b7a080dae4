import Asm18.Assembly

/-! A session assembles one source after the other and keeps what was reported of the last. -/
namespace Asm18

structure Session where
  withListing : Bool
  last : Option Assembly

namespace Session

def start : Session := ⟨false,none⟩

/-- Switches the listing of later assemblies on or off. -/
def setListing (s : Session) (on : Bool) : Session := { s with withListing := on }

def assemble (s : Session) (source : Text) : Except Failure (List Word) × Session :=
  let a := Asm18.assemble s.withListing source
  (a.result,{ s with last := some a })

def labels (s : Session) : Labels := (s.last.map Assembly.labels).getD ∅

def warnings (s : Session) : List Text := (s.last.map Assembly.warnings).getD []

def diagnostics (s : Session) : List Diagnostic := (s.last.map Assembly.diagnostics).getD []

def listing (s : Session) : List Text := (s.last.map Assembly.listing).getD []

@[simp] theorem labels_setListing (s : Session) (on : Bool) :
    (s.setListing on).labels = s.labels := rfl

@[simp] theorem warnings_setListing (s : Session) (on : Bool) :
    (s.setListing on).warnings = s.warnings := rfl

@[simp] theorem diagnostics_setListing (s : Session) (on : Bool) :
    (s.setListing on).diagnostics = s.diagnostics := rfl

@[simp] theorem listing_setListing (s : Session) (on : Bool) :
    (s.setListing on).listing = s.listing := rfl

end Session
end Asm18
