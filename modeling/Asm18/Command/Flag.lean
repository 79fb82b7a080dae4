import Asm18.Text.Integer
import Asm18.Text.Quoted

/-! Command line arguments. Flags and positional arguments may be mixed; `--` ends the flags. A flag
has a long name and may have a letter, and letters may be joined in a group. Flags of the log are
known here by name only: their values are kept as they are given. -/
namespace Asm18.Command

inductive Setting where
  | color
  | help
  | listing
  | symbols
  | verbosity
  /-- Another value for the log. -/
  | logging (isSwitch : Bool)
deriving DecidableEq, Repr

structure Flag where
  name : Text
  letter : Option UInt8
  setting : Setting
  /-- What the help text calls its value. -/
  valueName : Text
  summary : Text
deriving DecidableEq, Repr

namespace Flag

def color : Flag :=
  ⟨utf8 "color",none,.color,utf8 "string",
    utf8 "colour diagnostics: auto, always or never (default \"auto\")"⟩

def help : Flag := ⟨utf8 "help",some 0x68,.help,[],utf8 "help for engr433asm"⟩

def listing : Flag := ⟨utf8 "listing",some 0x6C,.listing,[],utf8 "print an assembly listing"⟩

def symbols : Flag := ⟨utf8 "symbols",some 0x73,.symbols,[],utf8 "print the label table"⟩

/-- The flags of the command itself. -/
def basic : List Flag := [color,help,listing,symbols]

/-- A flag of the log. If its name is a single letter, it has that letter too. -/
def ofLog (name : Text) (setting : Setting) (valueName summary : Text) : Flag :=
  ⟨name,if name.length = 1 then name.head? else none,setting,valueName,summary⟩

def verbosity : Flag :=
  ofLog (utf8 "v") .verbosity (utf8 "Level") (utf8 "log level for V logs")

/-- A switch takes a value only after an equals sign, and is on without one. -/
def isSwitch (f : Flag) : Bool :=
  match f.setting with
  | .help | .listing | .symbols => true
  | .color | .verbosity => false
  | .logging isSwitch => isSwitch

/-- How messages refer to a flag. -/
def title (f : Flag) : Text :=
  match f.letter with
  | some c => utf8 "-" ++ [c] ++ utf8 ", --" ++ f.name
  | none => utf8 "--" ++ f.name

end Flag

/-- The flags that are known, and what there is against a value for a flag of the log. -/
structure FlagSet where
  flags : List Flag
  complaint : Text → Text → Option Text

structure Settings where
  color : Text
  help : Bool
  listing : Bool
  symbols : Bool
  verbosity : Int
deriving DecidableEq, Repr

namespace Settings

def initial : Settings := ⟨utf8 "auto",false,false,false,0⟩

end Settings

inductive FlagError where
  | badForm (argument : Text)
  | unknownName (name : Text)
  | unknownLetter (letter : UInt8) (group : Text)
  | missingValue (argument : Text)
  | missingLetterValue (letter : UInt8) (group : Text)
  | invalidSwitch (flag : Flag) (value : Text)
  | invalidLevel (flag : Flag) (value : Text) (fault : Text.IntegerFault)
  | rejected (flag : Flag) (value complaint : Text)
deriving DecidableEq, Repr

namespace FlagError

/-- The wording for a value that a flag does not take. -/
def refused (flag : Flag) (value complaint : Text) : Text :=
  utf8 "invalid argument " ++ Text.quoted value ++ utf8 " for " ++ Text.quoted flag.title ++
    utf8 " flag: " ++ complaint

/-- The same with the step that failed and why. -/
def invalid (flag : Flag) (value : Text) (step reason : String) : Text :=
  refused flag value (utf8 "strconv." ++ utf8 step ++ utf8 ": parsing " ++ Text.quoted value ++
    utf8 ": " ++ utf8 reason)

def message : FlagError → Text
  | badForm argument => utf8 "bad flag syntax: " ++ argument
  | unknownName name => utf8 "unknown flag: --" ++ name
  | unknownLetter letter group =>
    utf8 "unknown shorthand flag: " ++ Text.quotedByte letter ++ utf8 " in -" ++ group
  | missingValue argument => utf8 "flag needs an argument: " ++ argument
  | missingLetterValue letter group =>
    utf8 "flag needs an argument: " ++ Text.quotedByte letter ++ utf8 " in -" ++ group
  | invalidSwitch flag value => invalid flag value "ParseBool" "invalid syntax"
  | invalidLevel flag value .malformed => invalid flag value "Atoi" "invalid syntax"
  | invalidLevel flag value .outOfRange => invalid flag value "Atoi" "value out of range"
  | rejected flag value complaint => refused flag value complaint

end FlagError

def switch? (value : Text) : Option Bool :=
  if value ∈ ["1", "t", "T", "TRUE", "true", "True"].map utf8 then some true
  else if value ∈ ["0", "f", "F", "FALSE", "false", "False"].map utf8 then some false
  else none

structure Arguments where
  settings : Settings
  positionals : List Text
  /-- The flags of the log by name, with their values, in the order they are given. -/
  logging : List (Text × Text)
deriving DecidableEq, Repr

/-- A flag with the value it is given. -/
structure Assignment where
  flag : Flag
  value : Text
deriving DecidableEq, Repr

namespace Assignment

/-- The setting of a switch, by what becomes of the arguments at its value. -/
def applySwitch (x : Assignment) (set : Bool → Arguments) : Except FlagError Arguments :=
  match switch? x.value with
  | some b => .ok (set b)
  | none => .error (.invalidSwitch x.flag x.value)

/-- A level is kept as a number of 32 bits. -/
def apply (known : FlagSet) (a : Arguments) (x : Assignment) : Except FlagError Arguments :=
  match x.flag.setting with
  | .color => .ok { a with settings.color := x.value }
  | .help => x.applySwitch fun b => { a with settings.help := b }
  | .listing => x.applySwitch fun b => { a with settings.listing := b }
  | .symbols => x.applySwitch fun b => { a with settings.symbols := b }
  | .verbosity =>
    match Text.readInteger x.value with
    | .ok n => .ok { a with settings.verbosity := n.bmod 0x100000000 }
    | .error fault => .error (.invalidLevel x.flag x.value fault)
  | .logging _ =>
    match known.complaint x.flag.name x.value with
    | none => .ok { a with logging := a.logging ++ [(x.flag.name,x.value)] }
    | some complaint => .error (.rejected x.flag x.value complaint)

def applyAll (known : FlagSet) (a : Arguments) : List Assignment → Except FlagError Arguments
  | [] => .ok a
  | x :: rest =>
    match apply known a x with
    | .ok a => applyAll known a rest
    | .error e => .error e

end Assignment

def dash : UInt8 := 0x2D

def equals : UInt8 := 0x3D

/-- What an argument assigns, and whether it takes the next argument as its value. -/
structure Reading where
  assignments : List Assignment
  takesNext : Bool

namespace Reading

def single (f : Flag) (value : Text) : Reading := ⟨[⟨f,value⟩],false⟩

/-- The flag with the next argument, or the error if there is none. -/
def fromNext (f : Flag) (next : Option Text) (missing : FlagError) : Except FlagError Reading :=
  match next with
  | some value => .ok ⟨[⟨f,value⟩],true⟩
  | none => .error missing

end Reading

/-- Reads `--name` or `--name=value`. -/
def readLong (flags : List Flag) (argument : Text) (next : Option Text) :
    Except FlagError Reading :=
  let body := argument.drop 2
  if body.head? = none ∨ body.head? = some dash ∨ body.head? = some equals then
    .error (.badForm argument)
  else
    let name := body.takeWhile fun b => b ≠ equals
    match flags.find? fun f => f.name = name with
    | none => .error (.unknownName name)
    | some f =>
      match body.dropWhile fun b => b ≠ equals with
      | _ :: value => .ok (.single f value)
      | [] =>
        if f.isSwitch then .ok (.single f (utf8 "true"))
        else Reading.fromNext f next (.missingValue argument)

/-- The value after an equals sign, which is one only if something follows it. -/
def letterValue? : Text → Option Text
  | e :: b :: rest => if e = equals then some (b :: rest) else none
  | _ => none

/-- Reads the letters of a group. What starts with `test.` is meant for a test runner. -/
def readGroup (flags : List Flag) (next : Option Text) : Text → Except FlagError Reading
  | [] => .ok ⟨[],false⟩
  | c :: rest =>
    if (utf8 "test.").isPrefixOf (c :: rest) then .ok ⟨[],false⟩
    else
      match flags.find? fun f => f.letter = some c with
      | none => .error (.unknownLetter c (c :: rest))
      | some f =>
        match letterValue? rest with
        | some value => .ok (.single f value)
        | none =>
          if f.isSwitch then
            match readGroup flags next rest with
            | .ok r => .ok { r with assignments := ⟨f,utf8 "true"⟩ :: r.assignments }
            | .error e => .error e
          else if rest = [] then Reading.fromNext f next (.missingLetterValue c [c])
          else .ok (.single f rest)

/-- A single dash is an argument of its own, and so is the empty text. -/
def isPositional : Text → Bool
  | b :: _ :: _ => b ≠ dash
  | _ => true

def readFlag (flags : List Flag) (argument : Text) (next : Option Text) :
    Except FlagError Reading :=
  if argument[1]? = some dash then readLong flags argument next
  else readGroup flags next (argument.drop 1)

namespace Arguments

def readFrom (known : FlagSet) (a : Arguments) : List Text → Except FlagError Arguments
  | [] => .ok a
  | argument :: rest =>
    if isPositional argument then
      readFrom known { a with positionals := a.positionals ++ [argument] } rest
    else if argument = [dash,dash] then .ok { a with positionals := a.positionals ++ rest }
    else
      match readFlag known.flags argument rest.head? with
      | .error e => .error e
      | .ok r =>
        match Assignment.applyAll known a r.assignments with
        | .error e => .error e
        | .ok a => readFrom known a (if r.takesNext then rest.tail else rest)
termination_by arguments => arguments.length
decreasing_by
  · rw [List.length_cons]
    omega
  · rw [List.length_cons]
    split
    · rw [List.length_tail]
      omega
    · omega

/-- Reads arguments, where flags of the log may have values before. -/
def read (known : FlagSet) (given : List (Text × Text)) (arguments : List Text) :
    Except FlagError Arguments :=
  readFrom known ⟨.initial,[],given⟩ arguments

end Arguments
end Asm18.Command
