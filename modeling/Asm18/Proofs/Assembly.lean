import Asm18.Assembly
import Asm18.Proofs.Encoding
import Asm18.Proofs.Labels
import Asm18.Proofs.Source

/-! When a source assembles, and what its words are then. Both passes count the same addresses, so
that a branch, from where it stands, reaches the one line that carries its label. -/
namespace Asm18

/-- The lines of code fit the memory, carry distinct labels, and each has its word. -/
structure Assembles (code : List CodeLine) (ws : List Word) : Prop where
  fits : code.length ≤ memoryWords
  nodup : (Labels.carried code).Nodup
  encoded : encode (Labels.bindFrom 0 ∅ code) code = ws.map .ok

/-- A program that does not fit the memory has its labels looked at and is left at that. -/
theorem assemble_of_lt {on : Bool} {source : Text}
    (h : memoryWords < (Source.code source).length) : assemble on source =
      { result := .error (.tooLarge (Source.code source).length)
        labels := Labels.bindFrom 0 ∅ (Source.code source)
        count := (Source.code source).length
        warnings := Line.warnings (Source.lines source)
        diagnostics := Labels.duplicatesFrom ∅ (Source.code source)
        listing := [] } := by
  have hc : memoryWords < (resolve (Line.code (Source.lines source))).count := h
  unfold assemble
  simp only []
  rw [if_pos hc]
  rfl

theorem assemble_of_le {on : Bool} {source : Text} {e : Encoding}
    (h : (Source.code source).length ≤ memoryWords)
    (he : encode (Labels.bindFrom 0 ∅ (Source.code source)) (Source.code source) = e) :
    assemble on source =
      { result :=
          if Labels.duplicatesFrom ∅ (Source.code source) ++ e.diagnostics = [] then .ok e.words
          else .error (.faulty (Labels.duplicatesFrom ∅ (Source.code source) ++ e.diagnostics))
        labels := Labels.bindFrom 0 ∅ (Source.code source)
        count := (Source.code source).length
        warnings := Line.warnings (Source.lines source)
        diagnostics := Labels.duplicatesFrom ∅ (Source.code source) ++ e.diagnostics
        listing := if on then Listing.entries (Source.code source) e else [] } := by
  have hc : ¬ memoryWords < (resolve (Line.code (Source.lines source))).count := Nat.not_lt.2 h
  subst he
  unfold assemble
  simp only []
  rw [if_neg hc]
  rfl

@[simp] theorem labels_assemble (on : Bool) (source : Text) :
    (assemble on source).labels = Labels.bindFrom 0 ∅ (Source.code source) := by
  rcases Nat.lt_or_ge memoryWords (Source.code source).length with h | h
  · rw [assemble_of_lt h]
  · rw [assemble_of_le h rfl]

@[simp] theorem warnings_assemble (on : Bool) (source : Text) :
    (assemble on source).warnings = Line.warnings (Source.lines source) := by
  rcases Nat.lt_or_ge memoryWords (Source.code source).length with h | h
  · rw [assemble_of_lt h]
  · rw [assemble_of_le h rfl]

theorem assemble_result_eq_ok_iff {on : Bool} {source : Text} {ws : List Word} :
    (assemble on source).result = .ok ws ↔ Assembles (Source.code source) ws := by
  constructor
  · intro h
    by_cases hfits : (Source.code source).length ≤ memoryWords
    · rw [assemble_of_le hfits rfl] at h
      split at h
      · rename_i hnil
        obtain ⟨hd,he⟩ := List.append_eq_nil_iff.1 hnil
        obtain ⟨vs,hw⟩ := Encoding.diagnostics_eq_nil_iff.1 he
        rw [hw, Encoding.words_map_ok] at h
        cases h
        exact ⟨hfits,Labels.duplicatesFrom_empty_eq_nil_iff.1 hd,hw⟩
      · cases h
    · rw [assemble_of_lt (Nat.not_le.1 hfits)] at h
      cases h
  · intro h
    have hd := Labels.duplicatesFrom_empty_eq_nil_iff.2 h.nodup
    have he := Encoding.diagnostics_eq_nil_iff.2 ⟨ws,rfl⟩
    rw [assemble_of_le h.fits h.encoded, hd, he, List.append_nil, if_pos rfl,
      Encoding.words_map_ok]

/-- Running the assembler tells whether it has the given words as its result. -/
instance (r : Except Failure (List Word)) (ws : List Word) : Decidable (r = .ok ws) :=
  match r with
  | .ok vs => decidable_of_iff (vs = ws) (by simp)
  | .error _ => isFalse (by simp)

namespace Assembles

variable {code : List CodeLine} {ws : List Word}

theorem length_eq (h : Assembles code ws) : ws.length = code.length :=
  (encode_eq_map_ok_iff.1 h.encoded).1

/-- The word of the line at an address. -/
theorem word {k : Nat} {c : CodeLine} (h : Assembles code ws) (hc : code[k]? = some c) :
    ∃ w, ws[k]? = some w ∧
      c.statement.encode (Int64.ofNat k) (Labels.bindFrom 0 ∅ code) = .ok w := by
  obtain ⟨hl,hall⟩ := encode_eq_map_ok_iff.1 h.encoded
  have hk := (List.getElem?_eq_some_iff.1 hc).1
  have hw := List.getElem?_eq_getElem (show k < ws.length by omega)
  exact ⟨_,hw,hall k c _ hc hw⟩

end Assembles

/-- What the word of a statement at address `k` has to be, by the class of its operand. -/
inductive Realises (code : List CodeLine) (k : Nat) (s : Statement) (w : Word) : Prop where
  | plain {i : Instruction} : Instruction.lookup s.mnemonic = some i → i.operand = .none →
      s.operand = none → w.toNat = i.opcode.toNat * 1024 → Realises code k s w
  | immediate {i : Instruction} {digits : Text} {v : Nat} :
      Instruction.lookup s.mnemonic = some i → i.operand = .immediate →
      s.operand = some (utf8 "#" ++ digits) → Literal.Denotes digits v → v < 1024 →
      w.toNat = i.opcode.toNat * 1024 + v → Realises code k s w
  | register {i : Instruction} {digits : Text} {v : Nat} :
      Instruction.lookup s.mnemonic = some i → i.operand = .register →
      s.operand = some (utf8 "r" ++ digits) → Literal.Denotes digits v → v ≤ wordMask →
      w.toNat = i.opcode.toNat * 1024 ||| v → Realises code k s w
  | branch {i : Instruction} {name : Text} {j : Nat} :
      Instruction.lookup s.mnemonic = some i → i.operand = .branch →
      s.operand = some name → (∀ l, Carries code l name ↔ l = j) →
      w.toNat ≤ wordMask → w.toNat / 4096 = i.opcode.toNat / 4 →
      (k : Int) + branchOffset w = j → Realises code k s w

/-- The word of a branch from one address of the memory to another. -/
theorem branch_word {i : Instruction} {f : UInt32} {k j : Nat} (hi : i ∈ Instruction.all)
    (hb : i.operand = .branch) (hk : k < memoryWords) (hj : j < memoryWords)
    (h : displacement (Int64.ofNat k) (Int64.ofNat j) = .ok f) :
    (i.word f).toNat ≤ wordMask ∧ (i.word f).toNat / 4096 = i.opcode.toNat / 4 ∧
      (k : Int) + branchOffset (i.word f) = j := by
  rw [displacement_ofNat hk hj] at h
  cases h
  simp only [memoryWords] at hk hj
  have hop := Instruction.toNat_opcode_lt hi
  obtain ⟨-,htop,hoff⟩ := Instruction.branch_word_of_offset hi hb
    (show -2048 ≤ (j : Int) - k by omega) (by omega)
  simp only [wordMask]
  omega

theorem toNat_ofNat_of_le_wordMask {v : Nat} (h : v ≤ wordMask) : (UInt32.ofNat v).toNat = v := by
  apply UInt32.toNat_ofNat_of_lt'
  simp only [wordMask] at h
  simp only [UInt32.size]
  omega

theorem Assembles.realises {code : List CodeLine} {ws : List Word} {k : Nat} {c : CodeLine}
    {w : Word} (h : Assembles code ws) (hc : code[k]? = some c)
    (he : c.statement.encode (Int64.ofNat k) (Labels.bindFrom 0 ∅ code) = .ok w) :
    Realises code k c.statement w := by
  obtain ⟨i,f,hi,hf,rfl⟩ := Statement.encode_eq_ok_iff.1 he
  have hall := (Instruction.lookup_sound hi).1
  cases hclass : i.operand with
  | none =>
    rw [hclass] at hf
    obtain ⟨ho,rfl⟩ := emptyField_eq_ok_iff.1 hf
    have hw := Instruction.toNat_word_of_lt hall (show (0 : UInt32).toNat < 1024 by decide)
    exact .plain hi hclass ho (by simpa using hw)
  | immediate =>
    rw [hclass] at hf
    obtain ⟨digits,v,ho,hr,hv,rfl⟩ := literalField_eq_ok_iff.1 hf
    simp only [immediateLimit] at hv
    have hn := toNat_ofNat_of_le_wordMask (show v ≤ wordMask by simp only [wordMask]; omega)
    have hw := Instruction.toNat_word_of_lt hall (show (UInt32.ofNat v).toNat < 1024 by omega)
    rw [hn] at hw
    exact .immediate hi hclass ho (Literal.read_eq_ok_iff.1 hr).1 (by omega) hw
  | register =>
    rw [hclass] at hf
    obtain ⟨digits,v,ho,hr,hv,rfl⟩ := literalField_eq_ok_iff.1 hf
    have hw := Instruction.toNat_word hall (UInt32.ofNat v)
    rw [toNat_ofNat_of_le_wordMask hv] at hw
    exact .register hi hclass ho (Literal.read_eq_ok_iff.1 hr).1 hv hw
  | branch =>
    rw [hclass] at hf
    obtain ⟨name,target,ho,ht,hd⟩ := branchField_eq_ok_iff.1 hf
    obtain ⟨j,hj,rfl⟩ := (Labels.get?_bindFrom_empty_eq_some_iff h.nodup).1 ht
    have hone := Labels.nodup_carried_iff.1 h.nodup
    have hlen := h.fits
    have hk := (List.getElem?_eq_some_iff.1 hc).1
    have hjl := hj.lt_length
    obtain ⟨hmask,htop,hoff⟩ := branch_word hall hclass (by omega) (by omega) hd
    refine .branch hi hclass ho (fun l => ⟨fun hl => hone l j name hl hj,?_⟩) hmask htop hoff
    intro hl
    rw [hl]
    exact hj

/-- In a source that assembles each line of code has its word: the opcode with the value of its
operand, or with the distance to the only line of code that carries the label it names. -/
theorem assemble_realises {on : Bool} {source : Text} {ws : List Word}
    (h : (assemble on source).result = .ok ws) :
    ws.length = ((Source.lines source).countP fun l => l.content.kind = .instruction) ∧
    ∀ k c, (Source.code source)[k]? = some c →
      ∃ w, ws[k]? = some w ∧ Realises (Source.code source) k c.statement w := by
  have ha := assemble_result_eq_ok_iff.1 h
  constructor
  · rw [ha.length_eq, Source.length_code]
  · intro k c hc
    obtain ⟨w,hw,he⟩ := ha.word hc
    exact ⟨w,hw,ha.realises hc he⟩

/-- A source with a comment, a blank line, a line that is skipped, and branches both ways. -/
def waitLoop : Text :=
  utf8 "; count\nstart: load r0\n\n brz done\noops\n br start\ndone: wait\n"

theorem assemble_realises_waitLoop :
    (assemble false waitLoop).result = .ok [0, 135170, 135166, 192512] ∧
    Realises (Source.code waitLoop) 2 ⟨none,utf8 "br",some (utf8 "start")⟩ 135166 := by
  have h : (assemble false waitLoop).result = .ok [0, 135170, 135166, 192512] := by decide +kernel
  have hc : (Source.code waitLoop)[2]? =
      some ⟨6,utf8 " br start",⟨none,utf8 "br",some (utf8 "start")⟩⟩ := by decide +kernel
  obtain ⟨w,hw,hr⟩ := (assemble_realises h).2 2 _ hc
  cases hw
  exact ⟨h,hr⟩

end Asm18
