import Asm18.Command.Flag

/-! The help text of the command: what it is for, and how it is used. -/
namespace Asm18.Command

def purpose : Text :=
  Text.unlines (
    ["engr433asm converts an ENGR 433 assembly source file into a program",
      "memory initialisation file: 2048 lines of 18 binary digits, one per word.",
      "",
      "The output file defaults to program.data. Nothing is written when the",
      "source contains errors."].map utf8)

namespace Flag

/-- The first column of the help on a flag. -/
def helpHead (f : Flag) : Text :=
  let name := utf8 "--" ++ f.name ++ if f.valueName = [] then [] else utf8 " " ++ f.valueName
  match f.letter with
  | some c => utf8 "  -" ++ [c] ++ utf8 ", " ++ name
  | none => utf8 "      " ++ name

/-- The help on flags, in the order of their names, with what they are for in a second column. -/
def helpLines (flags : List Flag) : List Text :=
  let width := flags.foldl (fun n f => max n f.helpHead.length) 0
  (flags.mergeSort fun f g => f.name ≤ g.name).map fun f =>
    f.helpHead ++ List.replicate (width + 3 - f.helpHead.length) 0x20 ++ f.summary

end Flag

def usage (flags : List Flag) : Text :=
  (["Usage:",
    "  engr433asm [flags] infile [outfile]",
    "",
    "Examples:",
    "  engr433asm blink.asm",
    "  engr433asm -l blink.asm blink.data",
    "  engr433asm --symbols --color=never blink.asm",
    "",
    "Flags:"].map utf8 ++ Flag.helpLines flags).flatMap Text.line

/-- The parts of the help text, which are written one after the other. -/
def help (flags : List Flag) : List Text := [purpose,[Text.newline,Text.newline],usage flags]

end Asm18.Command
