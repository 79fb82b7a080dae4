import Asm18.Encoding
import Asm18.Proofs.Literal

/-! The second pass on a single line: the arithmetic of words and displacements, and when each
class of operand has a field or else which fault. Displacements are exact although addresses wrap
around. -/
namespace Asm18

/-- The lower twelve bits of a word, read in two's complement. -/
def branchOffset (w : Word) : Int := (BitVec.ofNat 12 w.toNat).toInt

namespace Instruction

theorem toNat_opcode_lt {i : Instruction} (h : i ∈ all) : i.opcode.toNat < 256 := by
  simpa using UInt32.lt_iff_toNat_lt.1 (opcode_lt h)

theorem toNat_branch_opcode {i : Instruction} (h : i ∈ all) (hb : i.operand = .branch) :
    i.opcode.toNat % 4 = 0 := by
  simpa using congrArg UInt32.toNat (branch_opcode h hb)

theorem toNat_word {i : Instruction} (h : i ∈ all) (f : UInt32) :
    (i.word f).toNat = i.opcode.toNat * 1024 ||| f.toNat := by
  have hop := toNat_opcode_lt h
  have hs : (i.opcode <<< 10).toNat = i.opcode.toNat * 1024 := by
    rw [UInt32.toNat_shiftLeft]
    simp only [UInt32.reduceToNat, Nat.reduceMod, Nat.shiftLeft_eq, Nat.reducePow]
    omega
  rw [word, compose, UInt32.toNat_or, hs]

theorem toNat_word_of_lt {i : Instruction} (h : i ∈ all) {f : UInt32} (hf : f.toNat < 1024) :
    (i.word f).toNat = i.opcode.toNat * 1024 + f.toNat := by
  have hor := Nat.shiftLeft_add_eq_or_of_lt (show f.toNat < 2 ^ 10 by omega) i.opcode.toNat
  simp only [Nat.shiftLeft_eq, Nat.reducePow] at hor
  rw [toNat_word h, hor]

/-- A branch has two more bits for its field, which are clear in its opcode. -/
theorem toNat_word_of_branch {i : Instruction} (h : i ∈ all) (hb : i.operand = .branch)
    {f : UInt32} (hf : f.toNat < 4096) : (i.word f).toNat = i.opcode.toNat * 1024 + f.toNat := by
  have hm := toNat_branch_opcode h hb
  have hq : i.opcode.toNat / 4 * 4096 = i.opcode.toNat * 1024 := by omega
  have hor := Nat.shiftLeft_add_eq_or_of_lt (show f.toNat < 2 ^ 12 by omega) (i.opcode.toNat / 4)
  simp only [Nat.shiftLeft_eq, Nat.reducePow, hq] at hor
  rw [toNat_word h, hor]

end Instruction

theorem toNat_ofInt_emod (d : Int) : (UInt32.ofInt (d % 4096)).toNat = (d % 4096).toNat := by
  rw [UInt32.ofInt, UInt32.toNat_ofNat_of_lt']
  · omega
  · simp only [UInt32.size, Int.reducePow]
    omega

theorem branchOffset_of_emod {w : Word} {d : Int} (hl : -2048 ≤ d) (hu : d < 2048)
    (h : (w.toNat : Int) % 4096 = d % 4096) : branchOffset w = d := by
  have hb : branchOffset w = (w.toNat : Int).bmod 4096 := by
    rw [branchOffset, BitVec.toInt_ofNat']
  rw [hb, Int.bmod_def]
  omega

/-- The word of a branch over a distance: the opcode above, the distance in the lower twelve bits. -/
theorem Instruction.branch_word_of_offset {i : Instruction} (h : i ∈ all)
    (hb : i.operand = .branch) {d : Int} (hl : -2048 ≤ d) (hu : d < 2048) :
    ((i.word (UInt32.ofInt (d % 4096))).toNat : Int) = i.opcode.toNat * 1024 + d % 4096 ∧
    (i.word (UInt32.ofInt (d % 4096))).toNat / 4096 = i.opcode.toNat / 4 ∧
    branchOffset (i.word (UInt32.ofInt (d % 4096))) = d := by
  have hm := toNat_branch_opcode h hb
  have hf := toNat_ofInt_emod d
  have hw := toNat_word_of_branch h hb (show (UInt32.ofInt (d % 4096)).toNat < 4096 by omega)
  exact ⟨by omega,by omega,branchOffset_of_emod hl hu (by omega)⟩

/-- The difference of two addresses wraps around only if it is out of range for a branch anyway. -/
theorem toInt_sub_inRange_iff {here : Address} (target : Address) (h0 : 0 ≤ here.toInt)
    (h1 : here.toInt + 2048 ≤ 0x8000000000000000) :
    (-2048 ≤ (target - here).toInt ∧ (target - here).toInt < 2048) ↔
      (-2048 ≤ target.toInt - here.toInt ∧ target.toInt - here.toInt < 2048) := by
  have hl := target.le_toInt
  have hu := target.toInt_lt
  rw [Int64.toInt_sub, Int.bmod_def]
  omega

theorem toInt_sub_of_inRange {a b : Address} (hl : -2048 ≤ a.toInt - b.toInt)
    (hu : a.toInt - b.toInt ≤ 2048) : (a - b).toInt = a.toInt - b.toInt := by
  rw [Int64.toInt_sub, Int.bmod_def]
  omega

theorem displacement_eq_ok_iff {here target : Address} {f : UInt32} (h0 : 0 ≤ here.toInt)
    (h1 : here.toInt + 2048 ≤ 0x8000000000000000) :
    displacement here target = .ok f ↔ -2048 ≤ target.toInt - here.toInt ∧
      target.toInt - here.toInt < 2048 ∧
      f = UInt32.ofInt ((target.toInt - here.toInt) % 4096) := by
  have hrange := toInt_sub_inRange_iff target h0 h1
  have hlow : (-(branchSpan / 2)).toInt = -2048 := rfl
  have hhigh : (branchSpan / 2).toInt = 2048 := rfl
  have hspan : branchSpan.toInt = 4096 := rfl
  unfold displacement
  simp only [Int64.lt_iff_toInt_lt, Int64.le_iff_toInt_le, hlow, hhigh]
  by_cases hin : -2048 ≤ target.toInt - here.toInt ∧ target.toInt - here.toInt < 2048
  · have hd := toInt_sub_of_inRange hin.1 (by omega)
    have hr : (here - target).toInt = here.toInt - target.toInt :=
      toInt_sub_of_inRange (by omega) (by omega)
    have hw : (branchSpan - (here - target)).toInt = 4096 - (here.toInt - target.toInt) := by
      rw [Int64.toInt_sub, hspan, hr, Int.bmod_def]
      omega
    rw [if_neg (by omega)]
    by_cases hle : here.toInt ≤ target.toInt
    · rw [if_pos hle, hd, Int.emod_eq_of_lt (by omega) (by omega)]
      simp [hin, eq_comm]
    · rw [if_neg hle, hw, show (target.toInt - here.toInt) % 4096 =
        4096 - (here.toInt - target.toInt) by omega]
      simp [hin, eq_comm]
  · rw [if_pos (by omega)]
    simp only [reduceCtorEq, false_iff]
    omega

theorem toInt_ofNat_of_lt_memoryWords {k : Nat} (h : k < memoryWords) :
    (Int64.ofNat k).toInt = k := by
  apply Int64.toInt_ofNat_of_lt
  simp only [memoryWords] at h
  omega

/-- Inside the memory every distance fits a branch. -/
theorem displacement_ofNat {k j : Nat} (hk : k < memoryWords) (hj : j < memoryWords) :
    displacement (Int64.ofNat k) (Int64.ofNat j) =
      .ok (UInt32.ofInt (((j : Int) - k) % 4096)) := by
  have hka := toInt_ofNat_of_lt_memoryWords hk
  have hja := toInt_ofNat_of_lt_memoryWords hj
  simp only [memoryWords] at hk hj
  rw [displacement_eq_ok_iff (by omega) (by omega), hka, hja]
  exact ⟨by omega,by omega,rfl⟩

/-- From one end of the memory to the other there are 2047 words, and a branch goes no further. -/
example : displacement 0 2047 = .ok 2047 ∧ displacement 2047 0 = .ok 2049 ∧
    displacement 0 2048 = .error (.branchOutOfRange 0 2048) := ⟨rfl,rfl,rfl⟩

theorem emptyField_eq_ok_iff {operand : Option Text} {f : UInt32} :
    emptyField operand = .ok f ↔ operand = none ∧ f = 0 := by
  cases operand with
  | none => simp [emptyField, eq_comm]
  | some t => simp [emptyField]

theorem literalField_eq_ok_iff {mark : UInt8} {limit : Nat} {out : Fault}
    {operand : Option Text} {f : UInt32} :
    literalField mark limit out operand = .ok f ↔ ∃ digits v, operand = some (mark :: digits) ∧
      Literal.read digits = .ok v ∧ v ≤ limit ∧ f = UInt32.ofNat v := by
  constructor
  · intro h
    unfold literalField at h
    split at h
    · cases h
    · cases h
    · rename_i b digits
      by_cases hb : b = mark
      · subst hb
        rw [if_neg (by simp)] at h
        split at h
        · rename_i v hv
          by_cases hl : v ≤ limit
          · rw [if_pos hl] at h
            cases h
            exact ⟨digits,v,rfl,hv,hl,rfl⟩
          · rw [if_neg hl] at h
            cases h
        · cases h
        · cases h
      · rw [if_pos hb] at h
        cases h
  · intro h
    obtain ⟨digits,v,rfl,hv,hl,rfl⟩ := h
    simp [literalField, hv, hl]

theorem branchField_eq_ok_iff {here : Address} {labels : Labels} {operand : Option Text}
    {f : UInt32} : branchField here labels operand = .ok f ↔ ∃ name target,
      operand = some name ∧ labels.get? name = some target ∧ displacement here target = .ok f := by
  cases operand with
  | none => simp [branchField]
  | some name => cases hn : labels.get? name <;> simp [branchField, hn]

theorem Statement.encode_eq_ok_iff {s : Statement} {here : Address} {labels : Labels} {w : Word} :
    s.encode here labels = .ok w ↔ ∃ i f, Instruction.lookup s.mnemonic = some i ∧
      i.operand.field here labels s.operand = .ok f ∧ w = i.word f := by
  unfold Statement.encode
  cases hi : Instruction.lookup s.mnemonic with
  | none => simp
  | some i =>
    cases hf : i.operand.field here labels s.operand with
    | error e => simp [Except.map, hf]
    | ok f => simp [Except.map, hf, eq_comm]

theorem emptyField_error {operand : Option Text} {f : Fault} (h : emptyField operand = .error f) :
    f = .unexpectedOperand := by
  cases operand with
  | none => cases h
  | some t =>
    cases h
    rfl

theorem literalField_error {mark : UInt8} {limit : Nat} {out f : Fault} {operand : Option Text}
    (h : literalField mark limit out operand = .error f) :
    f = .missingOperand ∨ f = .invalidOperand ∨ f = out := by
  unfold literalField at h
  split at h
  · cases h
    simp
  · cases h
    simp
  · split at h
    · cases h
      simp
    · split at h
      · split at h
        · cases h
        · cases h
          simp
      · cases h
        simp
      · cases h
        simp

theorem branchField_error {here : Address} {labels : Labels} {operand : Option Text} {f : Fault}
    (h : branchField here labels operand = .error f) : f = .missingTarget ∨ f = .unknownLabel ∨
      ∃ name target, operand = some name ∧ labels.get? name = some target ∧
        displacement here target = .error f := by
  cases operand with
  | none =>
    cases h
    simp
  | some name =>
    cases hn : labels.get? name with
    | none =>
      simp only [branchField, hn] at h
      cases h
      simp
    | some target =>
      simp only [branchField, hn] at h
      exact .inr (.inr ⟨name,target,rfl,hn,h⟩)

theorem Statement.encode_eq_error_iff {s : Statement} {here : Address} {labels : Labels}
    {f : Fault} : s.encode here labels = .error f ↔
      Instruction.lookup s.mnemonic = none ∧ f = .unknownMnemonic ∨
      ∃ i, Instruction.lookup s.mnemonic = some i ∧
        i.operand.field here labels s.operand = .error f := by
  unfold Statement.encode
  cases hi : Instruction.lookup s.mnemonic with
  | none => simp [eq_comm]
  | some i => cases hf : i.operand.field here labels s.operand <;> simp [Except.map, hf]

/-- Only a branch to a label that is bound can be out of range. -/
theorem Statement.encode_branchOutOfRange {s : Statement} {here : Address} {labels : Labels}
    {f : Fault} (h : s.encode here labels = .error f) (hf : f.kind = .branchOutOfRange) :
    ∃ name target, s.operand = some name ∧ labels.get? name = some target ∧
      displacement here target = .error f := by
  rcases encode_eq_error_iff.1 h with ⟨-,rfl⟩ | ⟨i,-,hfield⟩
  · cases hf
  · cases hclass : i.operand with
    | none =>
      rw [hclass] at hfield
      cases emptyField_error hfield
      cases hf
    | immediate =>
      rw [hclass] at hfield
      rcases literalField_error hfield with rfl | rfl | rfl <;> cases hf
    | register =>
      rw [hclass] at hfield
      rcases literalField_error hfield with rfl | rfl | rfl <;> cases hf
    | branch =>
      rw [hclass] at hfield
      rcases branchField_error hfield with rfl | rfl | hd
      · cases hf
      · cases hf
      · exact hd

theorem CodeLine.encode_eq_ok_iff {c : CodeLine} {here : Address} {labels : Labels} {w : Word} :
    c.encode here labels = .ok w ↔ c.statement.encode here labels = .ok w := by
  unfold CodeLine.encode
  cases c.statement.encode here labels with
  | error f =>
    constructor <;> intro h <;> cases h
  | ok v =>
    constructor <;> intro h <;> cases h <;> rfl

theorem CodeLine.encode_of_error {c : CodeLine} {here : Address} {labels : Labels} {f : Fault}
    (h : c.statement.encode here labels = .error f) :
    c.encode here labels = .error ⟨c.number,c.statement,f⟩ := by
  rw [CodeLine.encode, h]
  rfl

/-- A program is encoded if each line has its word at the same place. -/
theorem encode_eq_map_ok_iff {labels : Labels} {code : List CodeLine} {ws : List Word} :
    encode labels code = ws.map .ok ↔ ws.length = code.length ∧
      ∀ (k : Nat) (c : CodeLine) (w : Word), code[k]? = some c → ws[k]? = some w →
        c.statement.encode (Int64.ofNat k) labels = .ok w := by
  constructor
  · intro h
    have hl := congrArg List.length h
    refine ⟨by simpa using hl.symm,fun k c w hc hw => ?_⟩
    have hk := List.mapIdx_eq_iff.1 h k
    simp only [hc, hw, List.getElem?_map, Option.map_some, Option.some.injEq] at hk
    exact CodeLine.encode_eq_ok_iff.1 hk.symm
  · intro h
    obtain ⟨hl,hall⟩ := h
    rw [encode, List.mapIdx_eq_iff]
    intro k
    rw [List.getElem?_map]
    cases hc : code[k]? with
    | none =>
      rw [List.getElem?_eq_none_iff] at hc
      rw [List.getElem?_eq_none (by omega)]
      rfl
    | some c =>
      have hk := (List.getElem?_eq_some_iff.1 hc).1
      have hw := List.getElem?_eq_getElem (show k < ws.length by omega)
      rw [hw, Option.map_some, Option.map_some, CodeLine.encode_eq_ok_iff.2 (hall k c _ hc hw)]

namespace Encoding

@[simp] theorem words_nil : words [] = [] := rfl

@[simp] theorem words_cons_ok (w : Word) (e : Encoding) : words (.ok w :: e) = w :: words e := rfl

@[simp] theorem words_cons_error (d : Diagnostic) (e : Encoding) :
    words (.error d :: e) = 0 :: words e := rfl

@[simp] theorem diagnostics_nil : diagnostics [] = [] := rfl

@[simp] theorem diagnostics_cons_ok (w : Word) (e : Encoding) :
    diagnostics (.ok w :: e) = diagnostics e := rfl

@[simp] theorem diagnostics_cons_error (d : Diagnostic) (e : Encoding) :
    diagnostics (.error d :: e) = d :: diagnostics e := rfl

@[simp] theorem words_append (a b : Encoding) : words (a ++ b) = words a ++ words b :=
  List.map_append

@[simp] theorem diagnostics_append (a b : Encoding) :
    diagnostics (a ++ b) = diagnostics a ++ diagnostics b :=
  List.filterMap_append

/-- There is no diagnostic exactly if every line has its word. -/
theorem diagnostics_eq_nil_iff {e : Encoding} :
    diagnostics e = [] ↔ ∃ ws : List Word, e = ws.map .ok := by
  induction e with
  | nil => simp
  | cons r e ih =>
    cases r with
    | error d =>
      simp only [diagnostics_cons_error, reduceCtorEq, false_iff]
      intro h
      obtain ⟨ws,hw⟩ := h
      obtain ⟨w,vs,-,hv,-⟩ := List.map_eq_cons_iff.1 hw.symm
      cases hv
    | ok w =>
      rw [diagnostics_cons_ok, ih]
      constructor
      · intro h
        obtain ⟨ws,rfl⟩ := h
        exact ⟨w :: ws,rfl⟩
      · intro h
        obtain ⟨ws,hw⟩ := h
        obtain ⟨v,vs,rfl,-,hvs⟩ := List.map_eq_cons_iff.1 hw.symm
        exact ⟨vs,hvs.symm⟩

theorem words_map_ok (ws : List Word) : words (ws.map .ok) = ws := by
  induction ws with
  | nil => rfl
  | cons w ws ih => rw [List.map_cons, words_cons_ok, ih]

end Encoding

theorem encode_concat (labels : Labels) (code : List CodeLine) (c : CodeLine) :
    encode labels (code ++ [c]) =
      encode labels code ++ [c.encode (Int64.ofNat code.length) labels] := by
  simp [encode, List.mapIdx_append]

theorem getElem?_words_encode {labels : Labels} {code : List CodeLine} {k : Nat} {c : CodeLine}
    (h : code[k]? = some c) : (encode labels code).words[k]? =
      some ((c.statement.encode (Int64.ofNat k) labels).toOption.getD 0) := by
  have hword : Encoding.word (c.encode (Int64.ofNat k) labels) =
      (c.statement.encode (Int64.ofNat k) labels).toOption.getD 0 := by
    cases he : c.statement.encode (Int64.ofNat k) labels with
    | ok w => rw [CodeLine.encode_eq_ok_iff.2 he]; rfl
    | error f => rw [CodeLine.encode_of_error he]; rfl
  simp [Encoding.words, encode, h, hword]

theorem getElem?_words_encode_congr {labels : Labels} {a b : List CodeLine} {k : Nat}
    (h : a[k]? = b[k]?) : (encode labels a).words[k]? = (encode labels b).words[k]? := by
  simp [Encoding.words, encode, h]

theorem exists_encode_eq_map_ok {labels : Labels} {code : List CodeLine}
    (h : ∀ (k : Nat) (c : CodeLine), code[k]? = some c →
      ∃ w, c.statement.encode (Int64.ofNat k) labels = .ok w) :
    ∃ ws : List Word, encode labels code = ws.map .ok := by
  apply Encoding.diagnostics_eq_nil_iff.1
  rw [Encoding.diagnostics, List.filterMap_eq_nil_iff]
  intro r hr
  obtain ⟨k,hk,rfl⟩ := List.mem_mapIdx.1 hr
  obtain ⟨w,hw⟩ := h k _ (List.getElem?_eq_getElem hk)
  rw [CodeLine.encode_eq_ok_iff.2 hw]
  rfl

end Asm18
