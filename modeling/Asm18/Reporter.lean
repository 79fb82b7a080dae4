import Asm18.Diagnostic

/-! Warnings and errors as the user sees them, in colour if wanted. -/
namespace Asm18

namespace Colour

/-- The escape sequence that sets the given display attributes. -/
def attributes (codes : String) : Text := [0x1B] ++ utf8 "[" ++ utf8 codes ++ utf8 "m"

def reset : Text := attributes "0"

end Colour

structure Reporter where
  path : Text
  colour : Bool

namespace Reporter

def tag (r : Reporter) (text codes : String) : Text :=
  if r.colour then Colour.attributes codes ++ utf8 text ++ Colour.reset else utf8 text

def warning (r : Reporter) (message : Text) : Text :=
  Text.line (r.path ++ utf8 ": " ++ r.tag "warning:" "1;33" ++ utf8 " " ++ message)

def error (r : Reporter) (remark : Remark) : Text :=
  Text.line (r.path ++ utf8 ":" ++ Text.decimal remark.line ++ utf8 ": " ++
    r.tag "error:" "1;31" ++ utf8 " " ++ remark.message)

end Reporter
end Asm18
