import Mathlib.Data.List.DropRight
import Asm18.Proofs.Capacity

/-! The image of a program and how to read it. Its lines are binary numerals of one width, so that
the words can be read back, and nothing of them is lost but how many zeros stood at their end. -/
namespace Asm18

namespace Text

/-- The number that binary digits stand for, most significant first. -/
def ofBinary (t : Text) : Nat := t.foldl (fun v b => 2 * v + (b.toNat - 0x30)) 0

theorem ofBinary_concat (t : Text) (b : UInt8) :
    ofBinary (t ++ [b]) = 2 * ofBinary t + (b.toNat - 0x30) := by
  simp [ofBinary]

theorem ofBinary_digits (n : Nat) : ofBinary (digits 2 n) = n := by
  have hdigit : ∀ d < 2, d.digitChar.toUInt8.toNat - 0x30 = d := by decide
  induction n using Nat.strongRecOn with
  | ind n ih =>
    by_cases hn : n < 2
    · have hone := ofBinary_concat [] n.digitChar.toUInt8
      rw [hdigit n hn] at hone
      rw [digits_of_lt hn]
      simpa [ofBinary] using hone
    · rw [digits_of_le (by decide) (by omega), ofBinary_concat, ih (n / 2) (by omega),
        hdigit (n % 2) (by omega)]
      omega

/-- Zeros in front do not change a number. -/
theorem ofBinary_zeroFill (width : Nat) (t : Text) : ofBinary (zeroFill width t) = ofBinary t := by
  have hzeros : ∀ k, (List.replicate k (0x30 : UInt8)).foldl
      (fun v b => 2 * v + (b.toNat - 0x30)) 0 = 0 := by
    intro k
    induction k with
    | zero => rfl
    | succ k ih => rw [List.replicate_succ, List.foldl_cons]; exact ih
  rw [ofBinary, zeroFill, List.leftpad, List.foldl_append, hzeros]
  rfl

theorem ofBinary_binary (width n : Nat) : ofBinary (binary width n) = n := by
  rw [binary, ofBinary_zeroFill, ofBinary_digits]

theorem binary_subset (width n : Nat) : binary width n ⊆ utf8 "01" := by
  rw [binary, zeroFill, List.leftpad, List.append_subset]
  constructor
  · intro b hb
    rw [List.eq_of_mem_replicate hb]
    decide
  · exact digits_subset (by decide) (by decide) n

end Text

/-- A sink without a bound takes everything. -/
theorem Sink.text_writeAll_of_room {s : Sink} (h : s.room = none) (ts : List Text) :
    (s.writeAll ts).1.text = s.text ++ ts.flatten := by
  induction ts generalizing s with
  | nil => simp [writeAll]
  | cons t ts ih =>
    simp only [writeAll, write, h]
    rw [ih rfl]
    simp [text]

namespace Image

theorem flatten_cut (count : Nat) (t : Text) :
    (cut count t).flatten = t.take (count * blockSize) := by
  induction count generalizing t with
  | zero => simp [cut]
  | succ count ih =>
    rw [cut, List.flatten_cons, ih, Nat.succ_mul, Nat.add_comm, List.take_add]

/-- The blocks of a text are the text. -/
theorem flatten_blocks (t : Text) : (blocks t).flatten = t := by
  rw [blocks, flatten_cut]
  apply List.take_of_length_le
  simp only [blockSize]
  omega

/-- The words as lines, and lines of zeros for the rest of the memory. -/
def text (words : List Word) : Text := (words.rightpad memoryWords 0).flatMap line

/-- What can be written: words that fit the memory, no more than it holds. -/
def Accepted (words : List Word) : Prop :=
  words.length ≤ memoryWords ∧ ∀ w ∈ words, w.toNat ≤ wordMask

instance (words : List Word) : Decidable (Accepted words) :=
  inferInstanceAs (Decidable (_ ∧ _))

theorem Accepted.delivery {words : List Word} (h : Accepted words) :
    delivery words = ⟨blocks (text words),none⟩ :=
  delivery_of_fits h.1 h.2

theorem Accepted.text_write {words : List Word} (h : Accepted words) :
    (write .unbounded words).1.text = text words := by
  simp only [write, h.delivery]
  rw [Sink.text_writeAll_of_room rfl, flatten_blocks]
  rfl

theorem delivery_of_lt {words : List Word} (h : memoryWords < words.length) :
    delivery words = ⟨[],some (.tooLarge words.length)⟩ := by
  simp only [delivery, pad, if_pos h]

/-- The word at `k` is the first that is too wide. -/
structure FirstWide (words : List Word) (k : Nat) (w : Word) : Prop where
  word : words[k]? = some w
  wide : wordMask < w.toNat
  first : ∀ j v, j < k → words[j]? = some v → v.toNat ≤ wordMask

theorem exists_firstWide {words : List Word} (h : ¬ ∀ w ∈ words, w.toNat ≤ wordMask) :
    ∃ k w, FirstWide words k w := by
  have hwide : ∃ w ∈ words, decide (wordMask < w.toNat) = true := by
    simpa only [not_forall, Nat.not_le, exists_prop, decide_eq_true_eq] using h
  have hk := List.findIdx_lt_length_of_exists hwide
  refine ⟨words.findIdx fun w => wordMask < w.toNat,_,List.getElem?_eq_getElem hk,?_,?_⟩
  · simpa using List.findIdx_getElem (w := hk)
  · intro j v hj hv
    obtain ⟨hlt,rfl⟩ := List.getElem?_eq_some_iff.1 hv
    simpa using List.not_of_lt_findIdx hj

theorem delivery_of_firstWide {words : List Word} {k : Nat} {w : Word}
    (hl : words.length ≤ memoryWords) (h : FirstWide words k w) :
    delivery words =
      ⟨(blocks ((words.take k).flatMap line)).dropLast,some (.wideWord w k)⟩ := by
  obtain ⟨hk,hw⟩ := List.getElem?_eq_some_iff.1 h.word
  have hmemory : words.rightpad memoryWords 0 = words.take k ++
      w :: (words.drop (k + 1) ++ List.replicate (memoryWords - words.length) 0) := by
    rw [List.rightpad, ← List.cons_append, ← List.append_assoc, ← hw, List.getElem_cons_drop,
      List.take_append_drop]
  have hfit : ∀ v ∈ words.take k, fits v = true := by
    intro v hv
    obtain ⟨j,hj⟩ := List.mem_iff_getElem?.1 hv
    have hlt : j < k := by
      have hj' := (List.getElem?_eq_some_iff.1 hj).1
      rw [List.length_take] at hj'
      omega
    rw [List.getElem?_take_of_lt hlt] at hj
    exact decide_eq_true (h.first j v hlt hj)
  have hwide : fits w = false := decide_eq_false (Nat.not_le.2 h.wide)
  simp only [delivery, pad_of_le hl, hmemory, List.takeWhile_append_of_pos hfit,
    List.dropWhile_append_of_pos hfit, List.takeWhile_cons, List.dropWhile_cons, hwide]
  simp [Nat.le_of_lt hk]

theorem length_line_of_fits {w : Word} (h : fits w = true) : (line w).length = wordBits + 1 := by
  rw [line, Text.length_line, length_digits h]

theorem length_flatMap_line {words : List Word} (h : ∀ w ∈ words, fits w = true) :
    (words.flatMap line).length = words.length * (wordBits + 1) := by
  induction words with
  | nil => rfl
  | cons w words ih =>
    rw [List.flatMap_cons, List.length_append, length_line_of_fits (h w (by simp)),
      ih fun v hv => h v (by simp [hv]), List.length_cons, Nat.succ_mul, Nat.add_comm]

theorem digits_subset (w : Word) : digits w ⊆ utf8 "01" := Text.binary_subset wordBits w.toNat

theorem ofBinary_digits (w : Word) : Text.ofBinary (digits w) = w.toNat :=
  Text.ofBinary_binary wordBits w.toNat

theorem length_rightpad {words : List Word} (h : words.length ≤ memoryWords) :
    (words.rightpad memoryWords 0).length = memoryWords := by
  rw [List.length_rightpad, Nat.max_eq_left h]

theorem getElem?_rightpad {words : List Word} {i : Nat} (h : i < memoryWords) :
    (words.rightpad memoryWords 0)[i]? = some (words.getD i 0) := by
  rw [List.rightpad, List.getD_eq_getElem?_getD]
  by_cases hi : i < words.length
  · rw [List.getElem?_append_left hi, List.getElem?_eq_getElem hi, Option.getD_some]
  · have hnone := List.getElem?_eq_none (Nat.not_lt.1 hi)
    rw [List.getElem?_append_right (by omega), List.getElem?_replicate_of_lt (by omega), hnone]
    rfl

/-- A text that holds words as the memory does: 2048 lines of 18 binary digits, of which line `i`
is the number of word `i`, or zero if there is no such word. -/
structure Holds (t : Text) (words : List Word) : Prop where
  length : t.length = 38912
  closed : t = (Source.pieces t).flatMap Text.line
  count : (Source.pieces t).length = 2048
  digits : ∀ l ∈ Source.pieces t, l.length = 18 ∧ l ⊆ utf8 "01"
  value : ∀ i < 2048, (Source.pieces t)[i]?.map Text.ofBinary = some (words.getD i 0).toNat

theorem pieces_text (words : List Word) :
    Source.pieces (text words) = (words.rightpad memoryWords 0).map digits := by
  have hlines : text words = ((words.rightpad memoryWords 0).map digits).flatMap Text.line := by
    rw [text, List.flatMap_map]
    rfl
  rw [hlines]
  apply Source.pieces_flatMap_line
  intro l hl hn
  obtain ⟨w,-,rfl⟩ := List.mem_map.1 hl
  exact absurd (digits_subset w hn) (by decide)

theorem Accepted.holds {words : List Word} (h : Accepted words) : Holds (text words) words where
  length := by
    rw [text, length_flatMap_line (fits_of_mem_rightpad h.2), length_rightpad h.1]
    rfl
  closed := by
    rw [pieces_text, List.flatMap_map]
    rfl
  count := by
    rw [pieces_text, List.length_map, length_rightpad h.1]
    rfl
  digits := by
    intro l hl
    rw [pieces_text] at hl
    obtain ⟨w,hw,rfl⟩ := List.mem_map.1 hl
    exact ⟨length_digits (fits_of_mem_rightpad h.2 w hw),digits_subset w⟩
  value := by
    intro i hi
    rw [pieces_text, List.getElem?_map, getElem?_rightpad hi, Option.map_some, Option.map_some,
      ofBinary_digits]

theorem Accepted.blocks_ne_nil {words : List Word} (h : Accepted words) :
    blocks (text words) ≠ [] := by
  intro hnil
  have hlen := h.holds.length
  rw [← flatten_blocks (text words), hnil] at hlen
  cases hlen

/-- The words without the zeros at their end. -/
def trim (words : List Word) : List Word := words.rdropWhile (· = 0)

theorem trim_concat_zero (words : List Word) : trim (words ++ [0]) = trim words := by
  simp [trim]

theorem trim_rightpad (n : Nat) (words : List Word) : trim (words.rightpad n 0) = trim words := by
  rw [List.rightpad]
  induction n - words.length with
  | zero => simp
  | succ k ih => rw [List.replicate_succ', ← List.append_assoc, trim_concat_zero, ih]

theorem rightpad_trim {n : Nat} {words : List Word} (h : words.length ≤ n) :
    (trim words).rightpad n 0 = words.rightpad n 0 := by
  induction words using List.reverseRecOn with
  | nil => rfl
  | append_singleton words w ih =>
    rw [List.length_append, List.length_singleton] at h
    by_cases hw : w = 0
    · subst hw
      have hone : n - words.length = n - (words ++ [0]).length + 1 := by
        rw [List.length_append, List.length_singleton]
        omega
      rw [trim_concat_zero, ih (by omega)]
      simp only [List.rightpad, hone, List.replicate_succ, List.append_assoc,
        List.singleton_append]
    · rw [trim, List.rdropWhile_concat, if_neg (by simpa using hw)]

/-- An image tells the words but for zeros at their end. -/
theorem Holds.trim_eq {t : Text} {a b : List Word} (ha : Holds t a) (hb : Holds t b)
    (hla : a.length ≤ memoryWords) (hlb : b.length ≤ memoryWords) : trim a = trim b := by
  have hpad : a.rightpad memoryWords 0 = b.rightpad memoryWords 0 := by
    apply List.ext_getElem?
    intro i
    by_cases hi : i < memoryWords
    · have hvalue := (ha.value i hi).symm.trans (hb.value i hi)
      rw [Option.some.injEq, UInt32.toNat_inj] at hvalue
      rw [getElem?_rightpad hi, getElem?_rightpad hi, hvalue]
    · rw [List.getElem?_eq_none (by rw [length_rightpad hla]; omega),
        List.getElem?_eq_none (by rw [length_rightpad hlb]; omega)]
  rw [← trim_rightpad memoryWords a, hpad, trim_rightpad]

theorem text_eq_iff {a b : List Word} (ha : Accepted a) (hb : Accepted b) :
    text a = text b ↔ trim a = trim b := by
  constructor
  · intro h
    have hheld := ha.holds
    rw [h] at hheld
    exact hheld.trim_eq hb.holds ha.1 hb.1
  · intro h
    rw [text, text, ← rightpad_trim ha.1, h, rightpad_trim hb.1]

/-- Without a bound on the target only the words decide how writing ends. -/
theorem result_write_unbounded (words : List Word) :
    (write .unbounded words).2 = (delivery words).finish (.ok ()) := by
  simp only [write]
  rw [Sink.writeAll_of_room rfl]

theorem write_of_lt {words : List Word} (h : memoryWords < words.length) :
    (write .unbounded words).2 = .error (.content (.tooLarge words.length)) := by
  rw [result_write_unbounded, delivery_of_lt h]
  rfl

theorem write_of_firstWide {words : List Word} {k : Nat} {w : Word}
    (hl : words.length ≤ memoryWords) (h : FirstWide words k w) :
    (write .unbounded words).2 = .error (.content (.wideWord w k)) := by
  rw [result_write_unbounded, delivery_of_firstWide hl h]
  rfl

theorem write_eq_ok_iff {words : List Word} :
    (write .unbounded words).2 = .ok () ↔ Accepted words := by
  constructor
  · intro h
    by_cases hl : words.length ≤ memoryWords
    · refine ⟨hl,Classical.byContradiction fun hwide => ?_⟩
      obtain ⟨k,w,hk⟩ := exists_firstWide hwide
      rw [write_of_firstWide hl hk] at h
      cases h
    · rw [write_of_lt (Nat.not_le.1 hl)] at h
      cases h
  · intro h
    exact write_unbounded h.1 h.2

theorem write_eq_error {words : List Word} {e : WriteFault}
    (h : (write .unbounded words).2 = .error e) :
    (memoryWords < words.length ∧ e = .content (.tooLarge words.length)) ∨
    (words.length ≤ memoryWords ∧ ∃ k w, FirstWide words k w ∧ e = .content (.wideWord w k)) := by
  by_cases hl : words.length ≤ memoryWords
  · have hwide : ¬ ∀ w ∈ words, w.toNat ≤ wordMask := by
      intro hall
      rw [write_eq_ok_iff.2 ⟨hl,hall⟩] at h
      cases h
    obtain ⟨k,w,hk⟩ := exists_firstWide hwide
    rw [write_of_firstWide hl hk] at h
    cases h
    exact .inr ⟨hl,k,w,hk,rfl⟩
  · rw [write_of_lt (Nat.not_le.1 hl)] at h
    cases h
    exact .inl ⟨Nat.not_le.1 hl,rfl⟩

/-- To a target that takes everything, words are written exactly if memory holds as many and none is
wider than 18 bits. The image then gives them back, up to the zeros at their end. -/
theorem image_roundTrip (words : List Word) :
    ((write .unbounded words).2 = .ok () ↔
      words.length ≤ 2048 ∧ ∀ w ∈ words, w.toNat ≤ 0x3FFFF) ∧
    ((write .unbounded words).2 = .ok () → Holds (write .unbounded words).1.text words ∧
      ∀ others, (write .unbounded others).2 = .ok () →
        ((write .unbounded words).1.text = (write .unbounded others).1.text ↔
          trim words = trim others)) ∧
    ∀ e, (write .unbounded words).2 = .error e →
      (2048 < words.length ∧ e = .content (.tooLarge words.length)) ∨
      (words.length ≤ 2048 ∧ ∃ k w, FirstWide words k w ∧ e = .content (.wideWord w k)) := by
  refine ⟨write_eq_ok_iff,fun h => ?_,fun e he => write_eq_error he⟩
  have ha := write_eq_ok_iff.1 h
  rw [ha.text_write]
  refine ⟨ha.holds,fun others ho => ?_⟩
  have hb := write_eq_ok_iff.1 ho
  rw [hb.text_write]
  exact text_eq_iff ha hb

theorem image_roundTrip_samples :
    (write .unbounded [0x3FFFF, 0, 5, 0]).1.text = (write .unbounded [0x3FFFF, 0, 5]).1.text ∧
    (write .unbounded [0x3FFFF, 0, 5]).1.text ≠ (write .unbounded [0x3FFFF, 5]).1.text ∧
    (write .unbounded [7, 0x40000, 0x50000]).2 = .error (.content (.wideWord 0x40000 1)) := by
  have hlong := (image_roundTrip [0x3FFFF, 0, 5, 0]).1.2 (by simp)
  have hshort := (image_roundTrip [0x3FFFF, 0, 5]).1.2 (by simp)
  have hother := (image_roundTrip [0x3FFFF, 5]).1.2 (by simp)
  refine ⟨(((image_roundTrip _).2.1 hlong).2 _ hshort).2 (by decide),?_,?_⟩
  · intro h
    exact absurd ((((image_roundTrip _).2.1 hshort).2 _ hother).1 h) (by decide)
  · cases hw : (write .unbounded [7, 0x40000, 0x50000]).2 with
    | ok u => exact absurd ((image_roundTrip _).1.1 hw) (by simp)
    | error e =>
      rcases (image_roundTrip _).2.2 e hw with ⟨hl,-⟩ | ⟨-,k,w,hk,rfl⟩
      · exact absurd hl (by decide)
      · rcases k with _ | _ | k
        · cases hk.word
          exact absurd hk.wide (by decide)
        · cases hk.word
          rfl
        · exact absurd (hk.first 1 0x40000 (by omega) rfl) (by decide)

end Image
end Asm18
