import Asm18.Assembly
import Asm18.Command.Flag
import Asm18.FileSystem

/-! Why a command fails. -/
namespace Asm18.Command

inductive CommandError where
  | flag (error : FlagError)
  | argumentCount (count : Nat)
  | colorMode (mode : Text)
  | unreadable (error : FileError)
  | undumped (reason : Text)
  | faulty (count : Nat) (output : Text)
  | tooLarge (count : Nat)
  | uncreatable (error : FileError)
  | unwritten (output : Text) (fault : Image.WriteFault)
deriving DecidableEq, Repr

namespace CommandError

def message : CommandError → Text
  | flag error => error.message
  | argumentCount count =>
    utf8 "accepts between 1 and 2 arg(s), received " ++ Text.natural count
  | colorMode mode =>
    utf8 "invalid --color value " ++ Text.quoted mode ++ utf8 " (want auto, always or never)"
  | unreadable error => utf8 "reading input file: " ++ error.message
  | undumped reason => reason
  | faulty count output =>
    Text.natural count ++ utf8 " error(s), " ++ output ++ utf8 " not written"
  | tooLarge count => (Failure.tooLarge count).message
  | uncreatable error => utf8 "creating output file: " ++ error.message
  | unwritten output fault => utf8 "writing " ++ output ++ utf8 ": " ++ fault.message

end CommandError

end Asm18.Command
