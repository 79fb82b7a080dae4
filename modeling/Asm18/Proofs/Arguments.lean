import Asm18.Command.Log

/-! The level of verbosity among the arguments. It is stored and never looked at while arguments are
read, so that arguments which differ in nothing else are read alike. -/
namespace Asm18.Command

variable {m : Type → Type}

/-- The arguments of the program, as they are read with the flags of its log. -/
def LogLibrary.read (library : LogLibrary m) (arguments : List Text) :
    Except FlagError Arguments :=
  Arguments.read library.known preset arguments

namespace Assignment

variable {known : FlagSet} {a b : Arguments}

end Assignment

namespace Arguments

variable {known : FlagSet} {a b : Arguments}

end Arguments

namespace SpellsLevel

variable {library : LogLibrary m} {value : Text} {n : Int}

end SpellsLevel

end Asm18.Command
