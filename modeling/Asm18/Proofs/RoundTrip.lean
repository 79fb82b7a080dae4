import Mathlib.Data.List.Nodup
import Asm18.Proofs.Assembly
import Asm18.Proofs.Printing

/-! Programs apart from their spelling. A printed program always assembles, and each of its words
tells its mnemonic and its value, or the way to its target, by the instruction set alone. -/
namespace Asm18

/-- What an instruction is applied to. The target of a branch is a name in a program and a distance
in a word. -/
inductive Argument (τ : Type) where
  | none
  | immediate (value : Fin 1024)
  | register (number : Fin 1024)
  | branch (target : τ)
deriving DecidableEq, Repr

namespace Argument

variable {σ τ : Type}

def operandClass : Argument τ → OperandClass
  | none => .none
  | immediate _ => .immediate
  | register _ => .register
  | branch _ => .branch

def target? : Argument τ → Option τ
  | branch target => some target
  | _ => Option.none

def map (f : τ → σ) : Argument τ → Argument σ
  | none => none
  | immediate v => immediate v
  | register v => register v
  | branch target => branch (f target)

/-- The operand as it is written. -/
def operand : Argument Text → Option Text
  | none => Option.none
  | immediate v => some (utf8 "#" ++ Text.natural v)
  | register v => some (utf8 "r" ++ Text.natural v)
  | branch name => some name

end Argument

/-- The argument in a word, which depends on the class of the operand. -/
def OperandClass.argument (c : OperandClass) (w : Word) : Argument Int :=
  match c with
  | .none => .none
  | .immediate => .immediate (Fin.ofNat 1024 w.toNat)
  | .register => .register (Fin.ofNat 1024 w.toNat)
  | .branch => .branch (branchOffset w)

namespace Instruction

/-- The instruction of a word: a branch if its upper six bits are those of one, and otherwise the
one with the opcode in its upper eight. -/
def ofWord? (w : Word) : Option Instruction :=
  (all.find? fun i => i.operand = .branch ∧ w.toNat / 4096 = i.opcode.toNat / 4).or
    (all.find? fun i => w.toNat / 1024 = i.opcode.toNat)

theorem find?_all {p : Instruction → Bool} {i : Instruction} (hi : i ∈ all) (hp : p i = true)
    (hone : ∀ j ∈ all, p j = true → j = i) : all.find? p = some i := by
  cases hf : all.find? p with
  | none => exact absurd hp (List.find?_eq_none.1 hf i hi)
  | some j => rw [hone j (List.mem_of_find?_eq_some hf) (List.find?_some hf)]

theorem lookup_of_mem {i : Instruction} (hi : i ∈ all) : lookup i.mnemonic = some i := by
  refine find?_all hi (by simp) fun j hj hm => ?_
  exact List.inj_on_of_nodup_map nodup_mnemonics hj hi (by simpa using hm)

theorem eq_of_toNat_opcode {i j : Instruction} (hi : i ∈ all) (hj : j ∈ all)
    (h : i.opcode.toNat = j.opcode.toNat) : i = j :=
  List.inj_on_of_nodup_map nodup_opcodes hi hj (UInt32.toNat_inj.1 h)

/-- The two more bits of a branch field take no opcode from another instruction. -/
theorem opcode_apart : ∀ i ∈ all, i.operand ≠ .branch → ∀ j ∈ all, j.operand = .branch →
    i.opcode.toNat / 4 ≠ j.opcode.toNat / 4 := by
  decide

theorem ofWord?_of_branch {i : Instruction} {w : Word} (hi : i ∈ all) (hb : i.operand = .branch)
    (hw : w.toNat / 4096 = i.opcode.toNat / 4) : ofWord? w = some i := by
  have hfind : all.find? (fun i => i.operand = .branch ∧ w.toNat / 4096 = i.opcode.toNat / 4) =
      some i := by
    refine find?_all hi (by simp [hb, hw]) fun j hj hp => ?_
    simp only [decide_eq_true_eq] at hp
    have hmi := toNat_branch_opcode hi hb
    have hmj := toNat_branch_opcode hj hp.1
    exact eq_of_toNat_opcode hj hi (by omega)
  rw [ofWord?, hfind, Option.some_or]

theorem ofWord?_of_opcode {i : Instruction} {w : Word} (hi : i ∈ all) (hb : i.operand ≠ .branch)
    (hw : w.toNat / 1024 = i.opcode.toNat) : ofWord? w = some i := by
  have hnone : all.find? (fun j => j.operand = .branch ∧ w.toNat / 4096 = j.opcode.toNat / 4) =
      none := by
    rw [List.find?_eq_none]
    intro j hj hp
    simp only [decide_eq_true_eq] at hp
    exact opcode_apart i hi hb j hj hp.1 (by omega)
  have hfind : all.find? (fun j => w.toNat / 1024 = j.opcode.toNat) = some i := by
    refine find?_all hi (by simp [hw]) fun j hj hp => ?_
    simp only [decide_eq_true_eq] at hp
    exact eq_of_toNat_opcode hj hi (by omega)
  rw [ofWord?, hnone, hfind, Option.none_or]

end Instruction

/-- The mnemonic and the argument of a word. -/
def decode (w : Word) : Option (Text × Argument Int) :=
  (Instruction.ofWord? w).map fun i => (i.mnemonic,i.operand.argument w)

theorem decode_of_field {i : Instruction} {f : UInt32} (hi : i ∈ Instruction.all)
    (hb : i.operand ≠ .branch) (hf : f.toNat < 1024) :
    decode (i.word f) = some (i.mnemonic,i.operand.argument (i.word f)) ∧
      (i.word f).toNat % 1024 = f.toNat := by
  have hw := Instruction.toNat_word_of_lt hi hf
  have hword := Instruction.ofWord?_of_opcode hi hb (show (i.word f).toNat / 1024 = _ by omega)
  exact ⟨by rw [decode, hword, Option.map_some],by omega⟩

theorem decode_of_value {i : Instruction} {v : Fin 1024} (hi : i ∈ Instruction.all)
    (hb : i.operand ≠ .branch) :
    decode (i.word (UInt32.ofNat v)) =
        some (i.mnemonic,i.operand.argument (i.word (UInt32.ofNat v))) ∧
      Fin.ofNat 1024 (i.word (UInt32.ofNat v)).toNat = v := by
  have hv := v.isLt
  have hn := toNat_ofNat_of_le_wordMask (show v.val ≤ wordMask by simp only [wordMask]; omega)
  obtain ⟨hd,hm⟩ := decode_of_field hi hb (show (UInt32.ofNat v).toNat < 1024 by omega)
  refine ⟨hd,Fin.ext ?_⟩
  rw [Fin.val_ofNat, hm, hn]

theorem literalField_natural (mark : UInt8) (out : Fault) {limit v : Nat} (hl : v ≤ limit)
    (hv : v < 1024) :
    literalField mark limit out (some (mark :: Text.natural v)) = .ok (UInt32.ofNat v) := by
  have hread : Literal.read (Text.natural v) = .ok v :=
    (Literal.denotes_natural v).read (by simp only [Literal.bound]; omega)
  exact literalField_eq_ok_iff.2 ⟨_,v,rfl,hread,hl,rfl⟩

/-- An argument of the right class has a field, which is decoded to the same value or to the
distance to the target. -/
theorem exists_field {i : Instruction} {a : Argument Text} {k : Nat} {labels : Labels}
    {address : Text → Nat} (hi : i ∈ Instruction.all) (hc : i.operand = a.operandClass)
    (hk : k < memoryWords) (ht : ∀ name, a.target? = some name →
      address name < memoryWords ∧ labels.get? name = some (Int64.ofNat (address name))) :
    ∃ f, i.operand.field (Int64.ofNat k) labels a.operand = .ok f ∧
      decode (i.word f) = some (i.mnemonic,a.map fun name => (address name : Int) - k) := by
  cases a with
  | none =>
    have hb : i.operand ≠ .branch := by simp [hc, Argument.operandClass]
    have hd := (decode_of_field hi hb (show (0 : UInt32).toNat < 1024 by decide)).1
    rw [hc] at hd ⊢
    exact ⟨0,rfl,hd⟩
  | immediate v =>
    have hb : i.operand ≠ .branch := by simp [hc, Argument.operandClass]
    obtain ⟨hd,hv⟩ := decode_of_value (v := v) hi hb
    have hf := literalField_natural immediateMark .immediateOutOfRange
      (show v ≤ immediateLimit by simp only [immediateLimit]; omega) v.isLt
    rw [hc] at hd ⊢
    refine ⟨_,hf,?_⟩
    rw [hd, Argument.operandClass, OperandClass.argument, hv]
    rfl
  | register v =>
    have hb : i.operand ≠ .branch := by simp [hc, Argument.operandClass]
    obtain ⟨hd,hv⟩ := decode_of_value (v := v) hi hb
    have hf := literalField_natural registerMark .registerOutOfRange
      (show v ≤ wordMask by simp only [wordMask]; omega) v.isLt
    rw [hc] at hd ⊢
    refine ⟨_,hf,?_⟩
    rw [hd, Argument.operandClass, OperandClass.argument, hv]
    rfl
  | branch name =>
    -- Only here does it matter where the word stands.
    obtain ⟨hj,hget⟩ := ht name rfl
    have hdisp := displacement_ofNat hk hj
    obtain ⟨-,htop,hoff⟩ := branch_word hi hc hk hj hdisp
    rw [hc]
    refine ⟨_,branchField_eq_ok_iff.2 ⟨name,_,rfl,hget,hdisp⟩,?_⟩
    rw [decode, Instruction.ofWord?_of_branch hi hc htop, Option.map_some, hc]
    simp only [Argument.operandClass, OperandClass.argument, Argument.map]
    congr 3
    omega

theorem isLiteral_natural (v : Nat) : IsLiteral (Text.natural v) := by
  have hdigits : utf8 "0123456789" ⊆ Grammar.literalBytes := by decide
  exact ⟨Text.digits_ne_nil 10 v,List.Subset.trans (Literal.natural_subset v) hdigits⟩

theorem isName_register (v : Nat) : IsName (utf8 "r" ++ Text.natural v) := by
  have hmark : utf8 "r" ⊆ Grammar.wordBytes := by decide
  have hdigits : utf8 "0123456789" ⊆ Grammar.wordBytes := by decide
  refine ⟨by simp [Text.natural, Text.digits_ne_nil],?_⟩
  exact List.append_subset.2 ⟨hmark,List.Subset.trans (Literal.natural_subset v) hdigits⟩

theorem Argument.isOperand {a : Argument Text} (h : ∀ name, a.target? = some name → IsName name)
    {o : Text} (ho : a.operand = some o) : IsOperand o := by
  cases a with
  | none => cases ho
  | immediate v =>
    cases ho
    exact .inr ⟨_,isLiteral_natural v,rfl⟩
  | register v =>
    cases ho
    exact .inl (isName_register v)
  | branch name =>
    cases ho
    exact .inl (h _ rfl)

/-- A line of a program. Its mnemonic is one of the instruction set that takes such an argument. -/
structure Item where
  label : Option Text
  mnemonic : Text
  argument : Argument Text
  label_isName : ∀ name ∈ label, IsName name := by decide
  listed : ∃ i ∈ Instruction.all, i.mnemonic = mnemonic ∧ i.operand = argument.operandClass := by
    decide

def Item.statement (it : Item) : Statement := ⟨it.label,it.mnemonic,it.argument.operand⟩

/-- A program that fits the memory, whose labels are distinct and whose branches have targets. -/
structure Program where
  items : List Item
  fits : items.length ≤ memoryWords := by decide
  distinct : (items.filterMap Item.label).Nodup := by decide
  defined : ∀ it ∈ items, ∀ name ∈ it.argument.target?, name ∈ items.filterMap Item.label := by
    decide

namespace Program

def statements (p : Program) : List Statement := p.items.map Item.statement

/-- The program in writing. -/
def source (p : Program) : Text := Source.print p.statements

/-- The place of the item that carries the label. -/
def address (p : Program) (name : Text) : Nat := p.items.findIdx fun it => it.label = some name

theorem label_address (p : Program) {name : Text} (h : name ∈ p.items.filterMap Item.label) :
    (p.items[p.address name]?.bind Item.label) = some name := by
  obtain ⟨it,hit,hl⟩ := List.mem_filterMap.1 h
  have hlt : p.address name < p.items.length :=
    List.findIdx_lt_length_of_exists ⟨it,hit,by simpa using hl⟩
  rw [List.getElem?_eq_getElem hlt, Option.bind_some]
  exact of_decide_eq_true (List.findIdx_getElem (w := hlt))

theorem wellFormed (p : Program) : ∀ s ∈ p.statements, s.WellFormed := by
  have hmnemonic : ∀ i ∈ Instruction.all, IsName i.mnemonic := by decide
  intro s hs
  obtain ⟨it,hit,rfl⟩ := List.mem_map.1 hs
  obtain ⟨i,hi,hm,-⟩ := it.listed
  have hname := hmnemonic i hi
  rw [hm] at hname
  refine ⟨it.label_isName,hname,fun o ho => Argument.isOperand (fun name ht => ?_) ho⟩
  obtain ⟨target,-,hl⟩ := List.mem_filterMap.1 (p.defined it hit name ht)
  exact target.label_isName name hl

theorem code_source (p : Program) : Source.code p.source = Source.number p.statements :=
  Source.code_print p.wellFormed

theorem length_code (p : Program) : (Source.code p.source).length = p.items.length := by
  rw [code_source, Source.number, List.length_mapIdx, statements, List.length_map]

theorem getElem?_code (p : Program) (k : Nat) : (Source.code p.source)[k]? =
    p.items[k]?.map fun it => ⟨k + 1,it.statement.print,it.statement⟩ := by
  rw [code_source, Source.number, statements, List.getElem?_mapIdx, List.getElem?_map,
    Option.map_map]
  rfl

theorem carries_code_iff (p : Program) {k : Nat} {name : Text} :
    Carries (Source.code p.source) k name ↔ (p.items[k]?.bind Item.label) = some name := by
  rw [Carries, getElem?_code]
  cases p.items[k]? <;> simp [Item.statement]

theorem nodup_carried (p : Program) : (Labels.carried (Source.code p.source)).Nodup := by
  have hlabels : Labels.carried (Source.code p.source) = p.items.filterMap Item.label := by
    have hs := Source.map_statement_number p.statements
    calc Labels.carried (Source.code p.source)
        = ((Source.number p.statements).map CodeLine.statement).filterMap Statement.label := by
          rw [code_source, List.filterMap_map]
          rfl
      _ = p.items.filterMap Item.label := by
          rw [hs, statements, List.filterMap_map]
          rfl
  rw [hlabels]
  exact p.distinct

theorem address_lt (p : Program) {name : Text} (h : name ∈ p.items.filterMap Item.label) :
    p.address name < memoryWords := by
  have hfits := p.fits
  have hc := (p.carries_code_iff.2 (p.label_address h)).lt_length
  rw [length_code] at hc
  omega

theorem exists_word (p : Program) {k : Nat} {it : Item} (h : p.items[k]? = some it) :
    ∃ w, it.statement.encode (Int64.ofNat k) (Labels.bindFrom 0 ∅ (Source.code p.source)) = .ok w ∧
      decode w = some (it.mnemonic,it.argument.map fun name => (p.address name : Int) - k) := by
  have hfits := p.fits
  have hk := (List.getElem?_eq_some_iff.1 h).1
  obtain ⟨i,hi,hm,hc⟩ := it.listed
  have htarget : ∀ name, it.argument.target? = some name → p.address name < memoryWords ∧
      (Labels.bindFrom 0 ∅ (Source.code p.source)).get? name =
        some (Int64.ofNat (p.address name)) := by
    intro name ht
    have hmem := p.defined it (List.mem_of_getElem? h) name ht
    refine ⟨p.address_lt hmem,(Labels.get?_bindFrom_empty_eq_some_iff p.nodup_carried).2 ?_⟩
    exact ⟨_,p.carries_code_iff.2 (p.label_address hmem),rfl⟩
  obtain ⟨f,hf,hd⟩ := exists_field hi hc (show k < memoryWords by omega) htarget
  refine ⟨i.word f,Statement.encode_eq_ok_iff.2 ⟨i,f,?_,hf,rfl⟩,hm ▸ hd⟩
  have hlook := Instruction.lookup_of_mem hi
  rwa [hm] at hlook

theorem assembles (p : Program) : ∃ ws, Assembles (Source.code p.source) ws := by
  have hwords : ∀ (k : Nat) (c : CodeLine), (Source.code p.source)[k]? = some c →
      ∃ w, c.statement.encode (Int64.ofNat k) (Labels.bindFrom 0 ∅ (Source.code p.source)) =
        .ok w := by
    intro k c hc
    rw [getElem?_code, Option.map_eq_some_iff] at hc
    obtain ⟨it,hit,rfl⟩ := hc
    obtain ⟨w,hw,-⟩ := p.exists_word hit
    exact ⟨w,hw⟩
  obtain ⟨ws,hws⟩ := exists_encode_eq_map_ok hwords
  exact ⟨ws,p.length_code ▸ p.fits,p.nodup_carried,hws⟩

theorem decode_words (p : Program) {ws : List Word} (h : Assembles (Source.code p.source) ws) :
    ws.map decode = p.items.mapIdx fun k it =>
      some (it.mnemonic,it.argument.map fun name => (p.address name : Int) - k) := by
  symm
  rw [List.mapIdx_eq_iff]
  intro k
  rw [List.getElem?_map]
  cases hit : p.items[k]? with
  | none =>
    have hlen := h.length_eq
    rw [List.getElem?_eq_none_iff, ← length_code, ← hlen] at hit
    rw [List.getElem?_eq_none hit]
    rfl
  | some it =>
    have hc := p.getElem?_code k
    rw [hit, Option.map_some] at hc
    obtain ⟨w,hw,he⟩ := h.word hc
    obtain ⟨v,hv,hd⟩ := p.exists_word hit
    rw [hv] at he
    cases he
    rw [hw, Option.map_some, Option.map_some, hd]

end Program

/-- A program in writing assembles without a warning, and its words are decoded to its mnemonics
and values. A branch is decoded to the distance to the item that carries its label. -/
theorem decode_assemble_source (on : Bool) (p : Program) :
    ∃ ws, (assemble on p.source).result = .ok ws ∧ (assemble on p.source).warnings = [] ∧
      ws.map decode = p.items.mapIdx (fun k it =>
        some (it.mnemonic,it.argument.map fun name => (p.address name : Int) - k)) ∧
      ∀ it ∈ p.items, ∀ name ∈ it.argument.target?,
        (p.items[p.address name]?.bind Item.label) = some name := by
  obtain ⟨ws,hws⟩ := p.assembles
  refine ⟨ws,assemble_result_eq_ok_iff.2 hws,?_,p.decode_words hws,?_⟩
  · rw [warnings_assemble, Program.source, Source.warnings_print p.wellFormed]
  · intro it hit name ht
    exact p.label_address (p.defined it hit name ht)

/-- Its labels look like a number, a register and a mnemonic. -/
def lookalikes : Program where
  items :=
    [{ label := some (utf8 "007"), mnemonic := utf8 "loadi3", argument := .immediate 1023 },
      { label := none, mnemonic := utf8 "brnz", argument := .branch (utf8 "wait") },
      { label := some (utf8 "r5"), mnemonic := utf8 "store", argument := .register 5 },
      { label := none, mnemonic := utf8 "br", argument := .branch (utf8 "007") },
      { label := some (utf8 "wait"), mnemonic := utf8 "wait", argument := .none }]

example : lookalikes.source =
    utf8 "007: loadi3 #1023\n brnz wait\nr5: store r5\n br 007\nwait: wait\n" := by decide +kernel

end Asm18
