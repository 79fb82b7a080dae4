import Mathlib.Data.List.TakeWhile
import Asm18.Proofs.Assembly

/-! Words fit the memory. A register number is held only to the width of a word and goes unmasked into
it, and the field of a branch is a difference of wrapping addresses; each is narrow enough all the
same, so that the image of an assembled program can always be written. -/
namespace Asm18

/-- The field of an operand is no wider than a word, whatever addresses the labels stand for. -/
theorem OperandClass.field_le {c : OperandClass} {here : Address} {labels : Labels}
    {operand : Option Text} {f : UInt32} (h0 : 0 ≤ here.toInt)
    (h1 : here.toInt + 2048 ≤ 0x8000000000000000) (h : c.field here labels operand = .ok f) :
    f.toNat ≤ wordMask := by
  cases c with
  | none =>
    obtain ⟨-,rfl⟩ := emptyField_eq_ok_iff.1 h
    decide
  | immediate =>
    obtain ⟨digits,v,-,-,hv,rfl⟩ := literalField_eq_ok_iff.1 h
    have hmask : v ≤ wordMask := Nat.le_trans hv (by decide)
    rwa [toNat_ofNat_of_le_wordMask hmask]
  | register =>
    obtain ⟨digits,v,-,-,hv,rfl⟩ := literalField_eq_ok_iff.1 h
    rwa [toNat_ofNat_of_le_wordMask hv]
  | branch =>
    obtain ⟨name,target,-,-,hd⟩ := branchField_eq_ok_iff.1 h
    obtain ⟨-,-,rfl⟩ := (displacement_eq_ok_iff h0 h1).1 hd
    rw [toNat_ofInt_emod]
    simp only [wordMask]
    omega

theorem Instruction.word_le {i : Instruction} {f : UInt32} (hi : i ∈ all)
    (hf : f.toNat ≤ wordMask) : (i.word f).toNat ≤ wordMask := by
  have hop := toNat_opcode_lt hi
  simp only [wordMask] at hf ⊢
  have hor : i.opcode.toNat * 1024 ||| f.toNat < 2 ^ 18 :=
    Nat.or_lt_two_pow (by omega) (by omega)
  rw [toNat_word hi]
  omega

theorem Statement.encode_le {s : Statement} {here : Address} {labels : Labels} {w : Word}
    (h0 : 0 ≤ here.toInt) (h1 : here.toInt + 2048 ≤ 0x8000000000000000)
    (h : s.encode here labels = .ok w) : w.toNat ≤ wordMask := by
  obtain ⟨i,f,hi,hf,rfl⟩ := encode_eq_ok_iff.1 h
  exact Instruction.word_le (Instruction.lookup_sound hi).1 (OperandClass.field_le h0 h1 hf)

theorem words_encode_le {labels : Labels} {code : List CodeLine}
    (h : code.length + 2048 < 0x8000000000000000) :
    ∀ w ∈ (encode labels code).words, w.toNat ≤ wordMask := by
  intro w hw
  obtain ⟨k,hk⟩ := List.mem_iff_getElem?.1 hw
  have hlt := (List.getElem?_eq_some_iff.1 hk).1
  rw [Encoding.length_words, length_encode] at hlt
  rw [getElem?_words_encode (List.getElem?_eq_getElem hlt), Option.some.injEq] at hk
  have hhere : (Int64.ofNat k).toInt = k := Int64.toInt_ofNat_of_lt (by omega)
  cases he : code[k].statement.encode (Int64.ofNat k) labels with
  | ok v =>
    rw [he] at hk
    cases hk
    exact Statement.encode_le (by omega) (by omega) he
  | error f =>
    rw [he] at hk
    cases hk
    exact Nat.zero_le wordMask

theorem Assembles.words_le {code : List CodeLine} {ws : List Word} (h : Assembles code ws) :
    ∀ w ∈ ws, w.toNat ≤ wordMask := by
  have hlen := h.fits
  simp only [memoryWords] at hlen
  rw [← Encoding.words_map_ok ws, ← h.encoded]
  exact words_encode_le (by omega)

/-- A sink without a bound refuses nothing. -/
theorem Sink.writeAll_of_room {s : Sink} (h : s.room = none) (ts : List Text) :
    (s.writeAll ts).2 = .ok () := by
  induction ts generalizing s with
  | nil => rfl
  | cons t ts ih =>
    simp only [writeAll, write, h]
    exact ih rfl

namespace Image

theorem pad_of_le {words : List Word} (h : words.length ≤ memoryWords) :
    pad words = .ok (words.rightpad memoryWords 0) :=
  if_neg (Nat.not_lt.2 h)

theorem fits_of_mem_rightpad {words : List Word} (h : ∀ w ∈ words, w.toNat ≤ wordMask) :
    ∀ w ∈ words.rightpad memoryWords 0, fits w = true := by
  intro w hw
  rcases List.mem_append.1 hw with hw | hw
  · exact decide_eq_true (h w hw)
  · rw [List.eq_of_mem_replicate hw]
    rfl

/-- Words that fit are delivered to the last. -/
theorem delivery_of_fits {words : List Word} (hl : words.length ≤ memoryWords)
    (h : ∀ w ∈ words, w.toNat ≤ wordMask) :
    delivery words = ⟨blocks ((words.rightpad memoryWords 0).flatMap line),none⟩ := by
  have hall := fits_of_mem_rightpad h
  simp only [delivery, pad_of_le hl, List.takeWhile_eq_self_iff.2 hall,
    List.dropWhile_eq_nil_iff.2 hall]

/-- Writing them ends as the sink will have it. -/
theorem write_of_fits {words : List Word} (hl : words.length ≤ memoryWords)
    (h : ∀ w ∈ words, w.toNat ≤ wordMask) (sink : Sink) : (write sink words).2 =
      (sink.writeAll (blocks ((words.rightpad memoryWords 0).flatMap line))).2.mapError .refused := by
  simp only [write, delivery_of_fits hl h]
  cases (sink.writeAll (blocks ((words.rightpad memoryWords 0).flatMap line))).2 <;> rfl

theorem refused_of_write {words : List Word} (hl : words.length ≤ memoryWords)
    (h : ∀ w ∈ words, w.toNat ≤ wordMask) {sink : Sink} {e : WriteFault}
    (he : (write sink words).2 = .error e) : ∃ reason, e = .refused reason := by
  rw [write_of_fits hl h] at he
  cases hr : (sink.writeAll (blocks ((words.rightpad memoryWords 0).flatMap line))).2 with
  | ok u =>
    rw [hr] at he
    cases he
  | error reason =>
    rw [hr] at he
    cases he
    exact ⟨reason,rfl⟩

theorem write_unbounded {words : List Word} (hl : words.length ≤ memoryWords)
    (h : ∀ w ∈ words, w.toNat ≤ wordMask) : (write .unbounded words).2 = .ok () := by
  rw [write_of_fits hl h, Sink.writeAll_of_room rfl]
  rfl

end Image

/-- Every word of the second pass fits the memory, for any records and any addresses of labels. So the
words of a source that assembles can be padded, and nothing but a refusal of the sink can keep their
image from being written. -/
theorem words_fit_memory :
    (∀ (labels : Labels) (rs : List LineRecord), rs.length + 2048 < 0x8000000000000000 →
      ∀ w ∈ (encode labels (LineRecord.code rs)).words, w.toNat ≤ 0x3FFFF) ∧
    ∀ (on : Bool) (source : Text) (ws : List Word), (assemble on source).result = .ok ws →
      (∃ memory, Image.pad ws = .ok memory) ∧
      (∀ (sink : Sink) (e : Image.WriteFault), (Image.write sink ws).2 = .error e →
        ∃ reason, e = .refused reason) ∧
      (Image.write .unbounded ws).2 = .ok () := by
  constructor
  · intro labels rs h
    have hlen : (LineRecord.code rs).length ≤ rs.length := List.length_filterMap_le _ _
    exact words_encode_le (by omega)
  · intro on source ws h
    have ha := assemble_result_eq_ok_iff.1 h
    have hlen : ws.length ≤ memoryWords := ha.length_eq ▸ ha.fits
    exact ⟨⟨_,Image.pad_of_le hlen⟩,fun sink e => Image.refused_of_write hlen ha.words_le,
      Image.write_unbounded hlen ha.words_le⟩

/-- The greatest register number that fits a word leaves nothing of the opcode. -/
def widest : Text := utf8 " store r0x3ffff\n"

theorem words_fit_memory_widest :
    (assemble false widest).result = .ok [0x3FFFF] ∧
    (∀ w ∈ (encode ∅ (LineRecord.code (Source.records widest))).words, w.toNat ≤ 0x3FFFF) ∧
    (Image.write .unbounded [0x3FFFF]).2 = .ok () := by
  have h : (assemble false widest).result = .ok [0x3FFFF] := by decide +kernel
  have hlen : (Source.records widest).length = 1 := by decide +kernel
  exact ⟨h,words_fit_memory.1 ∅ _ (by omega),(words_fit_memory.2 false widest _ h).2.2⟩

end Asm18
