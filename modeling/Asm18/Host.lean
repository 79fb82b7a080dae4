import Asm18.FileSystem
import Asm18.Sink

/-! What a command asks of its surroundings, and surroundings that live in memory. -/
namespace Asm18

class Host (m : Type → Type) where
  /-- A file opened for writing. -/
  Handle : Type
  read : Text → m (Except FileError Text)
  /-- Makes an empty file, or empties the one that is there, and opens it. -/
  create : Text → m (Except FileError Handle)
  /-- Writes at the end of an open file. -/
  append : Handle → Text → m (Except FileError Unit)
  /-- Writes to standard output, or gives the reason why it cannot. -/
  print : Text → m (Except Text Unit)
  /-- Writes to standard error. -/
  warn : Text → m Unit
  /-- Whether standard error is a terminal. -/
  isTerminal : m Bool

/-- Files and the two outputs. -/
structure World where
  files : FileSystem
  stdout : Sink
  stderr : Sink

namespace World

def read (path : Text) (w : World) : Except FileError Text × World := (w.files.read path,w)

def create (path : Text) (w : World) : Except FileError OpenFile × World :=
  match w.files.create path with
  | .ok (f,files) => (.ok f,{ w with files := files })
  | .error e => (.error e,w)

def append (f : OpenFile) (t : Text) (w : World) : Except FileError Unit × World :=
  match w.files.append f t with
  | .ok files => (.ok (),{ w with files := files })
  | .error e => (.error e,w)

def print (t : Text) (w : World) : Except Text Unit × World :=
  match w.stdout.write t with
  | .ok sink => (.ok (),{ w with stdout := sink })
  | .error reason => (.error reason,w)

def warn (t : Text) (w : World) : Unit × World :=
  match w.stderr.write t with
  | .ok sink => ((),{ w with stderr := sink })
  | .error _ => ((),w)

instance : Host (StateM World) where
  Handle := OpenFile
  read path := World.read path
  create path := World.create path
  append f t := World.append f t
  print t := World.print t
  warn t := World.warn t
  isTerminal := fun w => (w.stderr.terminal,w)

end World
end Asm18
