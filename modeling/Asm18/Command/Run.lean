import Asm18.Command.Error
import Asm18.Command.Help
import Asm18.Command.Log
import Asm18.Host
import Asm18.SymbolDump

/-! The command: reads a source file, reports on it, and writes the image of its program. The output
file is not touched unless the source assembles. -/
namespace Asm18.Command

/-- Whether a mode asks for colour; `auto` does so on a terminal. -/
def useColour (mode : Text) (terminal : Bool) : Except CommandError Bool :=
  if mode = utf8 "always" then .ok true
  else if mode = utf8 "never" then .ok false
  else if mode = utf8 "auto" then .ok terminal
  else .error (.colorMode mode)

structure Job where
  settings : Settings
  input : Text
  output : Text

variable {m : Type → Type} [Monad m] [Host m]

/-- Keeps the log on standard error, at a level. -/
def log (level : Int) (e : LogEntry) : m Unit :=
  if e.level ≤ level then Host.warn e.render else pure ()

def recordAll (record : LogEntry → m Unit) : List LogEntry → m Unit
  | [] => pure ()
  | e :: es => do
    record e
    recordAll record es

def warnAll : List Text → m Unit
  | [] => pure ()
  | t :: ts => do
    Host.warn t
    warnAll ts

/-- Prints one text after the other, whether or not they are taken. -/
def printAll : List Text → m Unit
  | [] => pure ()
  | t :: ts => do
    discard (Host.print t)
    printAll ts

/-- Prints the parts of the help text, up to the first that is refused; the reason is reported. -/
def printHelp : List Text → m Unit
  | [] => pure ()
  | t :: ts => do
    match ← Host.print t with
    | .ok () => printHelp ts
    | .error reason => Host.warn (Text.line reason)

/-- Appends one block after the other, up to the first that is refused. -/
def appendAll (f : Host.Handle m) : List Text → m (Except Text Unit)
  | [] => pure (.ok ())
  | t :: ts => do
    match ← Host.append f t with
    | .ok () => appendAll f ts
    | .error e => pure (.error e.message)

def writeImage (output : Text) (words : List Word) : m (Except CommandError Unit) := do
  match ← Host.create output with
  | .error e => pure (.error (.uncreatable e))
  | .ok f =>
    let d := Image.delivery words
    match d.finish (← appendAll f d.blocks) with
    | .error fault => pure (.error (.unwritten output fault))
    | .ok () => pure (.ok ())

/-- Prints the label table. -/
def dumpSymbols (printer : SymbolDump.Printer) (colour : Bool) (labels : Labels) :
    m (Except CommandError Unit) := do
  match ← Host.print (printer colour labels.sorted) with
  | .ok () => pure (.ok ())
  | .error reason => pure (.error (.undumped reason))

/-- Prints the label table if it is wanted. -/
def showSymbols (s : Settings) (colour : Bool) (labels : Labels) : m (Except CommandError Unit) :=
  if s.symbols then dumpSymbols SymbolDump.layout colour labels else pure (.ok ())

def success (output : Text) (count : Nat) : Text :=
  Text.line (utf8 "Successfully assembled to " ++ output ++ utf8 " (" ++ Text.natural count ++
    utf8 " of " ++ Text.natural memoryWords ++ utf8 " words)")

/-- What is left to do once the source has been reported on. -/
def finish (record : LogEntry → m Unit) (job : Job) (r : Reporter) :
    Except Failure (List Word) → m (Except CommandError Unit)
  | .error (.tooLarge count) => pure (.error (.tooLarge count))
  | .error (.faulty diagnostics) => do
    warnAll (diagnostics.map fun d => r.error d.remark)
    pure (.error (.faulty diagnostics.length job.output))
  | .ok words => do
    match ← writeImage job.output words with
    | .error e => pure (.error e)
    | .ok () =>
      record (.wrote job.output)
      discard (Host.print (success job.output words.length))
      pure (.ok ())

/-- Assembles a source and reports on it. -/
def process (record : LogEntry → m Unit) (job : Job) (colour : Bool) (source : Text) :
    m (Except CommandError Unit) := do
  let a := assemble job.settings.listing source
  let r : Reporter := ⟨job.input,colour⟩
  record (.readSource job.input source)
  recordAll record (LogEntry.passes a)
  warnAll (a.warnings.map r.warning)
  printAll (a.listing.map Text.line)
  match ← showSymbols job.settings colour a.labels with
  | .error e => pure (.error e)
  | .ok () => finish record job r a.result

/-- Does a job, with entries for the log recorded as given. -/
def run (record : LogEntry → m Unit) (job : Job) : m (Except CommandError Unit) := do
  match useColour job.settings.color (← Host.isTerminal) with
  | .error e => pure (.error e)
  | .ok colour =>
    match ← Host.read job.input with
    | .error e => pure (.error (.unreadable e))
    | .ok source => process record job colour source

def defaultOutput : Text := utf8 "program.data"

/-- The job that positional arguments describe. -/
def job? (a : Arguments) : Except CommandError Job :=
  match a.positionals with
  | [input] => .ok ⟨a.settings,input,defaultOutput⟩
  | [input,output] => .ok ⟨a.settings,input,output⟩
  | other => .error (.argumentCount other.length)

/-- Runs the command with the given arguments, where flags of the log may have values before. -/
def executeWith (library : LogLibrary m) (known : FlagSet) (given : List (Text × Text))
    (arguments : List Text) : m (Except CommandError Unit) :=
  match Arguments.read known given arguments with
  | .error e => pure (.error (.flag e))
  | .ok a =>
    if a.settings.help then do
      printHelp (help known.flags)
      pure (.ok ())
    else
      match job? a with
      | .error e => pure (.error e)
      | .ok job => run (library.record a.logging a.settings.verbosity) job

/-- The last value given to the flag counts. -/
def asksStderr (given : List (Text × Text)) : Bool :=
  (given.reverse.lookup toStderr.name).any fun value => switch? value = some true

/-- A log that can be kept on standard error, and is dropped otherwise. -/
def LogLibrary.plain : LogLibrary m where
  flags := [toStderr]
  complaint _ value := if (switch? value).isSome then none else some (utf8 "parse error")
  record given level e := if asksStderr given then log level e else pure ()

/-- Runs the command without flags of the log. -/
def execute (flags : List Flag) (arguments : List Text) : m (Except CommandError Unit) :=
  executeWith .plain ⟨flags,fun _ _ => none⟩ [] arguments

/-- The whole program, with any log: a failed command is reported on standard error. Gives the exit
code. -/
def programWith (library : LogLibrary m) (arguments : List Text) : m UInt32 := do
  match ← executeWith library library.known preset arguments with
  | .ok () => pure 0
  | .error e =>
    Host.warn (Text.line (utf8 "error: " ++ e.message))
    pure 1

def program (arguments : List Text) : m UInt32 := programWith .plain arguments

end Asm18.Command
