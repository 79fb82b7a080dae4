import Asm18.Text.Basic

/-! The instruction set. A word of program memory has 18 bits: the opcode stands in the upper
eight and the operand field in the lower ten. Branch opcodes are multiples of four, so a branch
has twelve bits for its displacement. -/
namespace Asm18

abbrev Word := UInt32

def wordBits : Nat := 18

/-- The greatest value of a memory word. -/
def wordMask : Nat := 0x3FFFF

/-- Program memory holds this many words. -/
def memoryWords : Nat := 2048

/-- What an instruction expects after its mnemonic. -/
inductive OperandClass where
  | none
  | immediate
  | register
  | branch
deriving DecidableEq, Repr

namespace OperandClass

def name : OperandClass → String
  | none => "none"
  | immediate => "immediate"
  | register => "register"
  | branch => "branch"

def ofCode? : Int → Option OperandClass
  | 0 => some none
  | 1 => some immediate
  | 2 => some register
  | 3 => some branch
  | _ => Option.none

/-- The name of the class with a numeric code. -/
def nameOfCode (code : Int) : String := ((ofCode? code).map name).getD "unknown"

end OperandClass

structure Instruction where
  mnemonic : Text
  opcode : UInt32
  operand : OperandClass
deriving DecidableEq, Repr

namespace Instruction

/-- The word with the given opcode and field. -/
def compose (opcode field : UInt32) : Word := opcode <<< 10 ||| field

def word (i : Instruction) (field : UInt32) : Word := compose i.opcode field

def all : List Instruction :=
  [⟨utf8 "load",0,.register⟩,
    ⟨utf8 "loadi0",1,.immediate⟩,
    ⟨utf8 "loadi1",3,.immediate⟩,
    ⟨utf8 "loadi2",5,.immediate⟩,
    ⟨utf8 "loadi3",7,.immediate⟩,
    ⟨utf8 "loads0",57,.none⟩,
    ⟨utf8 "loads1",59,.none⟩,
    ⟨utf8 "loads2",61,.none⟩,
    ⟨utf8 "loads3",63,.none⟩,
    ⟨utf8 "store",64,.register⟩,
    ⟨utf8 "add",8,.register⟩,
    ⟨utf8 "addi",9,.immediate⟩,
    ⟨utf8 "shr",17,.none⟩,
    ⟨utf8 "shl",25,.none⟩,
    ⟨utf8 "and",32,.register⟩,
    ⟨utf8 "andi",33,.immediate⟩,
    ⟨utf8 "or",40,.register⟩,
    ⟨utf8 "ori",41,.immediate⟩,
    ⟨utf8 "xor",48,.register⟩,
    ⟨utf8 "xori",49,.immediate⟩,
    ⟨utf8 "br",128,.branch⟩,
    ⟨utf8 "brz",132,.branch⟩,
    ⟨utf8 "brnz",136,.branch⟩,
    ⟨utf8 "brp",140,.branch⟩,
    ⟨utf8 "brn",144,.branch⟩,
    ⟨utf8 "wait",188,.none⟩,
    ⟨utf8 "ssegl",192,.none⟩,
    ⟨utf8 "ssegi",193,.immediate⟩,
    ⟨utf8 "ssegh",196,.none⟩,
    ⟨utf8 "ledl",200,.none⟩,
    ⟨utf8 "ledh",204,.none⟩]

/-- Mnemonics are matched byte for byte. -/
def lookup (mnemonic : Text) : Option Instruction := all.find? fun i => i.mnemonic = mnemonic

/-- Every mnemonic, in ascending order of bytes. -/
def mnemonics : List Text := (all.map mnemonic).mergeSort fun a b => a ≤ b

theorem nodup_mnemonics : (all.map mnemonic).Nodup := by decide

theorem nodup_opcodes : (all.map opcode).Nodup := by decide

theorem opcode_lt {i : Instruction} (h : i ∈ all) : i.opcode < 256 := by
  revert i
  decide

theorem branch_opcode {i : Instruction} (h : i ∈ all) (hb : i.operand = .branch) :
    i.opcode % 4 = 0 := by
  revert i
  decide

theorem lookup_sound {m : Text} {i : Instruction} (h : lookup m = some i) :
    i ∈ all ∧ i.mnemonic = m :=
  ⟨List.mem_of_find?_eq_some h,by simpa using List.find?_some h⟩

end Instruction
end Asm18
