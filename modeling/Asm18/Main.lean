import Asm18.Command.Run

/-! The program on real files and outputs. -/
namespace Asm18.Console

def fileName (path : Text) : String := (String.fromUTF8? path.toByteArray).getD ""

/-- The reason that the system gives, by its error number where several share a kind. -/
def reason : IO.Error → FileReason
  | .noFileOrDirectory _ _ _ => .noSuchFile
  | .inappropriateType _ code details =>
    if code = 21 then .isDirectory else if code = 20 then .notDirectory else .other (utf8 details)
  | .invalidArgument _ code details =>
    if code = 36 then .nameTooLong else if code = 22 then .invalidName else .other (utf8 details)
  | .resourceExhausted _ code details => if code = 28 then .noSpace else .other (utf8 details)
  | e => .other (utf8 (toString e))

/-- A directory can be opened, and fails only when it is read. -/
def readAction : FileReason → FileAction
  | .isDirectory => .reading
  | _ => .opening

def attempt {α ε : Type} (action : IO α) (error : IO.Error → ε) : IO (Except ε α) := do
  try return .ok (← action)
  catch e => return .error (error e)

def read (path : Text) : IO (Except FileError Text) :=
  attempt (do return (← IO.FS.readBinFile (fileName path)).toList) fun e =>
    ⟨readAction (reason e),path,reason e⟩

/-- A handle with the path it was opened by. -/
structure OpenHandle where
  path : Text
  handle : IO.FS.Handle

def create (path : Text) : IO (Except FileError OpenHandle) :=
  attempt (do return ⟨path,← IO.FS.Handle.mk (fileName path) .write⟩) fun e =>
    ⟨.opening,path,reason e⟩

def append (f : OpenHandle) (t : Text) : IO (Except FileError Unit) :=
  attempt (do
    f.handle.write t.toByteArray
    f.handle.flush) fun e => ⟨.writing,f.path,reason e⟩

def print (t : Text) : IO (Except Text Unit) :=
  attempt (do
    let stdout ← IO.getStdout
    stdout.write t.toByteArray
    stdout.flush) fun e => (FileError.mk .writing (utf8 "/dev/stdout") (reason e)).message

def warn (t : Text) : IO Unit := do
  discard (attempt (do (← IO.getStderr).write t.toByteArray) reason)

instance : Host IO where
  Handle := OpenHandle
  read := read
  create := create
  append := append
  print := print
  warn := warn
  isTerminal := do (← IO.getStderr).isTty

end Asm18.Console

def main (arguments : List String) : IO UInt32 :=
  Asm18.Command.program (arguments.map Asm18.utf8)
