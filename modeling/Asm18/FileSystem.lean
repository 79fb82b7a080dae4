import Asm18.Table
import Asm18.Text.Basic

/-! A tree of files and directories, with the device on which every write fails for lack of space.
Paths are walked one component after the other, and every component but the last must be a
directory. -/
namespace Asm18

inductive FileAction where
  | opening
  | reading
  | writing
deriving DecidableEq, Repr

inductive FileReason where
  | noSuchFile
  | notDirectory
  | isDirectory
  | nameTooLong
  | invalidName
  | noSpace
  /-- A reason that only the surroundings know. -/
  | other (description : Text)
deriving DecidableEq, Repr

/-- An action on the file at a path that failed; the path is as it was given. -/
structure FileError where
  action : FileAction
  path : Text
  reason : FileReason
deriving DecidableEq, Repr

namespace FileAction

def message : FileAction → Text
  | opening => utf8 "open"
  | reading => utf8 "read"
  | writing => utf8 "write"

end FileAction

namespace FileReason

def message : FileReason → Text
  | noSuchFile => utf8 "no such file or directory"
  | notDirectory => utf8 "not a directory"
  | isDirectory => utf8 "is a directory"
  | nameTooLong => utf8 "file name too long"
  | invalidName => utf8 "invalid argument"
  | noSpace => utf8 "no space left on device"
  | other description => description

end FileReason

namespace FileError

def message (e : FileError) : Text :=
  e.action.message ++ utf8 " " ++ e.path ++ utf8 ": " ++ e.reason.message

end FileError

/-- The components from the root on. -/
abbrev Path := List Text

namespace Path

def slash : UInt8 := 0x2F

def components (path : Text) : List Text := (path.splitOn slash).filter fun c => c ≠ []

def isAbsolute (path : Text) : Bool := path.head? = some slash

/-- A path that ends in a slash stands for a directory. -/
def endsInSlash (path : Text) : Bool := path.getLast? = some slash

def render (p : Path) : Text := [slash].intercalate p

/-- A path has fewer bytes than this. -/
def lengthBound : Nat := 4096

/-- The greatest length of a component. -/
def nameLimit : Nat := 255

/-- Why there is nothing at a place: its name may be longer than any file's. -/
def absence (p : Path) : FileReason :=
  if nameLimit < (p.getLast?.getD []).length then .nameTooLong else .noSuchFile

end Path

inductive Node where
  | file (content : Text)
  | directory
  /-- A device that can be opened and has no room, with what comes of reading it. -/
  | full (reading : Except FileReason Text)
deriving Repr

/-- A file opened for writing: the path it was opened by, and where that led. -/
structure OpenFile where
  path : Text
  place : Path
deriving DecidableEq, Repr

structure FileSystem where
  nodes : Table Path Node
  workingDirectory : Path

namespace FileSystem

def node? (fs : FileSystem) (p : Path) : Option Node :=
  if p = [] then some .directory else fs.nodes.get? p

def set (fs : FileSystem) (p : Path) (n : Node) : FileSystem :=
  { fs with nodes := fs.nodes.insert p n }

theorem node?_set_of_ne (fs : FileSystem) {p q : Path} (n : Node) (h : q ≠ p) :
    (fs.set p n).node? q = fs.node? q := by
  simp [node?, set, h]

theorem node?_set (fs : FileSystem) {p : Path} (n : Node) (h : p ≠ []) :
    (fs.set p n).node? p = some n := by
  simp [node?, set, h]

/-- One step of a walk, which has to start from a directory. -/
def enter (fs : FileSystem) (p : Path) (name : Text) : Except FileReason Path :=
  match fs.node? p with
  | none => .error (Path.absence p)
  | some .directory =>
    .ok (if name = utf8 "." then p else if name = utf8 ".." then p.dropLast else p ++ [name])
  | some _ => .error .notDirectory

def walk (fs : FileSystem) (p : Path) : List Text → Except FileReason Path
  | [] => .ok p
  | name :: names =>
    match fs.enter p name with
    | .ok q => fs.walk q names
    | .error e => .error e

/-- Where a path leads. The place need not be taken, but the way there must exist. -/
def locate (fs : FileSystem) (path : Text) : Except FileReason Path :=
  if 0 ∈ path then .error .invalidName
  else if Path.lengthBound ≤ path.length then .error .nameTooLong
  else if path = [] then .error .noSuchFile
  else fs.walk (if Path.isAbsolute path then [] else fs.workingDirectory) (Path.components path)

/-- As `locate`, but a path that ends in a slash has to lead to a directory. -/
def locateExisting (fs : FileSystem) (path : Text) : Except FileReason Path :=
  match fs.locate path with
  | .error e => .error e
  | .ok p => if Path.endsInSlash path then fs.enter p (utf8 ".") else .ok p

/-- The whole content of a file. What comes of reading the device is its own affair. -/
def read (fs : FileSystem) (path : Text) : Except FileError Text :=
  match fs.locateExisting path with
  | .error reason => .error ⟨.opening,path,reason⟩
  | .ok p =>
    match fs.node? p with
    | none => .error ⟨.opening,path,Path.absence p⟩
    | some (.file content) => .ok content
    | some .directory => .error ⟨.reading,path,.isDirectory⟩
    | some (.full (.ok content)) => .ok content
    | some (.full (.error reason)) => .error ⟨.reading,path,reason⟩

/-- Makes an empty file, or empties the one that is there, and opens it. -/
def create (fs : FileSystem) (path : Text) : Except FileError (OpenFile × FileSystem) :=
  match fs.locate path with
  | .error reason => .error ⟨.opening,path,reason⟩
  | .ok p =>
    if Path.endsInSlash path then .error ⟨.opening,path,.isDirectory⟩
    else
      match fs.node? p with
      | none =>
        if Path.absence p = .noSuchFile then .ok (⟨path,p⟩,fs.set p (.file []))
        else .error ⟨.opening,path,Path.absence p⟩
      | some (.file _) => .ok (⟨path,p⟩,fs.set p (.file []))
      | some .directory => .error ⟨.opening,path,.isDirectory⟩
      | some (.full _) => .ok (⟨path,p⟩,fs)

/-- Writes at the end of an open file. -/
def append (fs : FileSystem) (f : OpenFile) (t : Text) : Except FileError FileSystem :=
  match fs.node? f.place with
  | none => .error ⟨.writing,f.path,.noSuchFile⟩
  | some (.file content) => .ok (fs.set f.place (.file (content ++ t)))
  | some .directory => .error ⟨.writing,f.path,.isDirectory⟩
  | some (.full _) => .error ⟨.writing,f.path,.noSpace⟩

/-- The directories on the way to a place, and that place itself. -/
def addDirectory (fs : FileSystem) (p : Path) : FileSystem :=
  (List.range p.length).foldl (fun fs k => fs.set (p.take (k + 1)) .directory) fs

def addNode (fs : FileSystem) (p : Path) (n : Node) : FileSystem :=
  (fs.addDirectory p.dropLast).set p n

/-- A working directory with nothing in it, and the device at its place. -/
def fresh : FileSystem :=
  let home : Path := [utf8 "tmp",utf8 "work"]
  let fs : FileSystem := ⟨∅,home⟩
  (fs.addDirectory home).addNode [utf8 "dev",utf8 "full"]
    (.full (.error (.other (utf8 "cannot allocate memory"))))

/-- The place of a relative path without dots. -/
def below (fs : FileSystem) (path : Text) : Path := fs.workingDirectory ++ Path.components path

/-- The files that are new or have another content, by their place. -/
def changes (before after : FileSystem) : List (Path × Text) :=
  after.nodes.entries.filterMap fun (p,n) =>
    match before.node? p,n with
    | some (.file old),.file content => if old = content then none else some (p,content)
    | _,.file content => some (p,content)
    | _,_ => none

end FileSystem
end Asm18
