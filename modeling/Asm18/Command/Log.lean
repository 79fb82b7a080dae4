import Asm18.Assembly
import Asm18.Command.Flag

/-! The log of a run: what was read, how the passes went, and what was written. It is kept by a
library, which has flags of its own. -/
namespace Asm18.Command

/-- A message of the log, which the level of verbosity lets through or not. -/
structure LogEntry where
  level : Int
  message : Text

namespace LogEntry

/-- Each entry ends its line. -/
def render (e : LogEntry) : Text :=
  let t := utf8 "[I] " ++ e.message
  if t.getLast? = some Text.newline then t else Text.line t

def readSource (path source : Text) : LogEntry :=
  ⟨1,utf8 "read " ++ path ++ utf8 " (" ++ Text.natural source.length ++ utf8 " bytes)"⟩

def label (l : Text × Address) : LogEntry :=
  ⟨2,utf8 "label " ++ l.1 ++ utf8 " = " ++ Text.decimal l.2.toInt⟩

/-- The second pass is not reached by a program that is too large. -/
def secondPass (a : Assembly) : List LogEntry :=
  if memoryWords < a.count then []
  else
    [⟨1,utf8 "pass 2: " ++ Text.natural a.count ++ utf8 " words, " ++
      Text.natural a.diagnostics.length ++ utf8 " diagnostics"⟩]

/-- The course of an assembly. -/
def passes (a : Assembly) : List LogEntry :=
  ⟨1,utf8 "pass 1: " ++ Text.natural a.count ++ utf8 " instructions, " ++
    Text.natural a.labels.size ++ utf8 " labels"⟩ ::
    (a.labels.sorted.map label ++ secondPass a)

def wrote (path : Text) : LogEntry := ⟨1,utf8 "wrote " ++ path⟩

end LogEntry

structure LogFlag where
  name : Text
  isSwitch : Bool
  valueName : Text
  summary : Text

def LogFlag.flag (f : LogFlag) : Flag := .ofLog f.name (.logging f.isSwitch) f.valueName f.summary

/-- The flag that keeps the log on standard error. -/
def toStderr : LogFlag :=
  ⟨utf8 "logtostderr",true,[],utf8 "log to standard error instead of files"⟩

/-- What the program asks of the log before it reads its arguments. -/
def preset : List (Text × Text) := [(toStderr.name,utf8 "true")]

/-- What keeps the log. It has flags besides the level, may have something against a value for one of
them, and records entries by the values that its flags have been given and the level. -/
structure LogLibrary (m : Type → Type) where
  flags : List LogFlag
  complaint : Text → Text → Option Text
  record : List (Text × Text) → Int → LogEntry → m Unit

/-- The flags of the command with those of its log. -/
def LogLibrary.known {m : Type → Type} (library : LogLibrary m) : FlagSet :=
  ⟨Flag.basic ++ Flag.verbosity :: library.flags.map LogFlag.flag,library.complaint⟩

end Asm18.Command
