import Asm18.Instruction
import Asm18.Sink
import Asm18.Text.Numeral

/-! The image of program memory: one line of 18 binary digits for each of its words, unused words
being zero. It is delivered in blocks of 4096 bytes, the last of them shorter; a block is
delivered when it is full and there is more to come, and the rest at the end. -/
namespace Asm18

/-- The wording for a program with more words than memory holds. -/
def tooLarge (count : Nat) (unit : String) : Text :=
  utf8 "program does not fit in program memory: " ++ Text.natural count ++ utf8 unit ++
    utf8 ", memory holds " ++ Text.natural memoryWords

namespace Image

inductive Fault where
  | tooLarge (count : Nat)
  | wideWord (word : Word) (address : Nat)
deriving DecidableEq, Repr

namespace Fault

def message : Fault → Text
  | tooLarge count => Asm18.tooLarge count " words"
  | wideWord word address =>
    utf8 "word 0x" ++ Text.hex 1 word.toNat ++ utf8 " at address " ++ Text.natural address ++
      utf8 " is wider than 18 bits"

end Fault

def fits (w : Word) : Bool := w.toNat ≤ wordMask

/-- The words followed by as many zeros as fill the memory. -/
def pad (words : List Word) : Except Fault (List Word) :=
  if memoryWords < words.length then .error (.tooLarge words.length)
  else .ok (words.rightpad memoryWords 0)

/-- The digits of a word, most significant first. -/
def digits (w : Word) : Text := Text.binary wordBits w.toNat

theorem length_digits {w : Word} (h : fits w) : (digits w).length = wordBits := by
  have hw : w.toNat ≤ wordMask := by simpa [fits] using h
  have hl : (Nat.toDigits 2 w.toNat).length ≤ wordBits := by
    rw [Nat.length_toDigits_le_iff (by decide) (by decide)]
    exact Nat.lt_succ_of_le hw
  apply Text.length_binary
  rwa [Text.digits, List.length_map]

def line (w : Word) : Text := Text.line (digits w)

def blockSize : Nat := 4096

/-- The first `count` blocks of a text. -/
def cut : Nat → Text → List Text
  | 0, _ => []
  | count + 1, t => t.take blockSize :: cut count (t.drop blockSize)

def blocks (t : Text) : List Text := cut ((t.length + blockSize - 1) / blockSize) t

/-- What a writer delivers, and the fault it then stops at. -/
structure Delivery where
  blocks : List Text
  fault : Option Fault

/-- At a word that is too wide the writer stops, and drops the block it was filling. -/
def delivery (words : List Word) : Delivery :=
  match pad words with
  | .error e => ⟨[],some e⟩
  | .ok memory =>
    let written := blocks ((memory.takeWhile fits).flatMap line)
    match memory.dropWhile fits with
    | [] => ⟨written,none⟩
    | w :: _ => ⟨written.dropLast,some (.wideWord w (memory.takeWhile fits).length)⟩

inductive WriteFault where
  | content (fault : Fault)
  | refused (reason : Text)
deriving DecidableEq, Repr

namespace WriteFault

def message : WriteFault → Text
  | content fault => fault.message
  | refused reason => reason

end WriteFault

/-- How writing ends, given how the delivery of the blocks ended. -/
def Delivery.finish (d : Delivery) : Except Text Unit → Except WriteFault Unit
  | .error reason => .error (.refused reason)
  | .ok () =>
    match d.fault with
    | some fault => .error (.content fault)
    | none => .ok ()

def write (sink : Sink) (words : List Word) : Sink × Except WriteFault Unit :=
  let d := delivery words
  let (sink,result) := sink.writeAll d.blocks
  (sink,d.finish result)

end Image
end Asm18
