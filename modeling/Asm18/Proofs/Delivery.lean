import Asm18.Proofs.Image

/-! Delivery to a target that may be short of room. A writer that holds lines back until they fill a
block delivers the blocks of the image, so that a target that refuses a block has taken the full
blocks before it. Whether a word that is too wide is met before a block is refused depends on how
many of the lines before it have been delivered. -/
namespace Asm18

namespace Sink

/-- What has been taken is the first bytes of a text, as many as are counted. -/
def Took (s : Sink) (t : Text) (count : Nat) : Prop := s.text <+: t ∧ s.text.length = count

theorem took_of_eq {s : Sink} {t : Text} {count : Nat} (h : s.text = t.take count)
    (hc : count ≤ t.length) : s.Took t count := by
  refine ⟨h ▸ List.take_prefix count t,?_⟩
  rw [h, List.length_take_of_le hc]

theorem write_of_le {s : Sink} {n : Nat} {t : Text} (h : s.room = some n) (ht : t.length ≤ n) :
    s.write t = .ok { s with room := some (n - t.length), chunks := t :: s.chunks } := by
  simp only [write, h, if_pos ht]

theorem write_of_lt {s : Sink} {n : Nat} {t : Text} (h : s.room = some n) (ht : n < t.length) :
    s.write t = .error s.refusal := by
  simp only [write, h, if_neg (Nat.not_le.2 ht)]

end Sink

namespace Image

/-- Lines on their way to a target. -/
structure Buffer where
  held : Text
  target : Sink

namespace Buffer

/-- Takes a text that is no longer than a block. If there is more than the block that is being
filled can hold, that block goes to the target and the rest is held back. -/
def put (b : Buffer) (t : Text) : Except Text Buffer :=
  if b.held.length + t.length ≤ blockSize then .ok { b with held := b.held ++ t }
  else
    match b.target.write ((b.held ++ t).take blockSize) with
    | .ok target => .ok ⟨(b.held ++ t).drop blockSize,target⟩
    | .error reason => .error reason

/-- Sends what is held, if there is anything. -/
def flush (b : Buffer) : Sink × Except WriteFault Unit :=
  if b.held = [] then (b.target,.ok ())
  else
    match b.target.write b.held with
    | .ok target => (target,.ok ())
    | .error reason => (b.target,.error (.refused reason))

/-- Puts the lines of words one after the other, up to a word that is too wide or a refusal. -/
def stream (b : Buffer) (address : Nat) : List Word → Sink × Except WriteFault Unit
  | [] => b.flush
  | w :: words =>
    if fits w then
      match b.put (line w) with
      | .ok b => b.stream (address + 1) words
      | .error reason => (b.target,.error (.refused reason))
    else (b.target,.error (.content (.wideWord w address)))

end Buffer

/-- Writes an image line by line through a buffer. -/
def writeLines (target : Sink) (words : List Word) : Sink × Except WriteFault Unit :=
  match pad words with
  | .error fault => (target,.error (.content fault))
  | .ok memory => Buffer.stream ⟨[],target⟩ 0 memory

@[simp] theorem blocks_nil : blocks [] = [] := rfl

theorem blocks_of_le {t : Text} (hne : t ≠ []) (h : t.length ≤ blockSize) : blocks t = [t] := by
  have hpos := List.length_pos_iff.2 hne
  have hcount : (t.length + blockSize - 1) / blockSize = 1 := by
    simp only [blockSize] at h ⊢
    omega
  rw [blocks, hcount, cut, cut, List.take_of_length_le h]

theorem blocks_of_lt {t : Text} (h : blockSize < t.length) :
    blocks t = t.take blockSize :: blocks (t.drop blockSize) := by
  have hcount : (t.length + blockSize - 1) / blockSize =
      ((t.drop blockSize).length + blockSize - 1) / blockSize + 1 := by
    rw [List.length_drop]
    simp only [blockSize] at h ⊢
    omega
  rw [blocks, hcount, cut, blocks]

theorem blocks_ne_nil {t : Text} (h : t ≠ []) : blocks t ≠ [] := by
  rcases Nat.lt_or_ge blockSize t.length with hl | hl
  · rw [blocks_of_lt hl]
    simp
  · rw [blocks_of_le h hl]
    simp

/-- The blocks of a text that a writer delivers, which keeps the last to itself if it stops. -/
def pending (t : Text) : Option Fault → List Text
  | none => blocks t
  | some _ => (blocks t).dropLast

/-- Delivers a text and then ends with the fault, if there is one. -/
def deliver (target : Sink) (t : Text) (fault : Option Fault) : Sink × Except WriteFault Unit :=
  ((target.writeAll (pending t fault)).1,
    Delivery.finish ⟨pending t fault,fault⟩ (target.writeAll (pending t fault)).2)

theorem deliver_of_lt {target : Sink} {t : Text} (fault : Option Fault)
    (h : blockSize < t.length) : deliver target t fault =
      match target.write (t.take blockSize) with
      | .ok target => deliver target (t.drop blockSize) fault
      | .error reason => (target,.error (.refused reason)) := by
  have hne : blocks (t.drop blockSize) ≠ [] := by
    apply blocks_ne_nil
    rw [ne_eq, List.drop_eq_nil_iff]
    omega
  have hpending : pending t fault = t.take blockSize :: pending (t.drop blockSize) fault := by
    cases fault with
    | none => exact blocks_of_lt h
    | some fault => simp only [pending, blocks_of_lt h, List.dropLast_cons_of_ne_nil hne]
  simp only [deliver, hpending, Sink.writeAll]
  cases target.write (t.take blockSize) <;> rfl

theorem deliver_fault {target : Sink} {t : Text} (fault : Fault) (h : t.length ≤ blockSize) :
    deliver target t (some fault) = (target,.error (.content fault)) := by
  have hpending : pending t (some fault) = [] := by
    by_cases ht : t = []
    · rw [ht]
      rfl
    · rw [pending, blocks_of_le ht h]
      rfl
  rw [deliver, hpending]
  rfl

/-- The first word that is too wide, counted from an address. -/
def wideFrom (address : Nat) (words : List Word) : Option Fault :=
  match words.dropWhile fits with
  | [] => none
  | w :: _ => some (.wideWord w (address + (words.takeWhile fits).length))

theorem wideFrom_cons {w : Word} (h : fits w = true) (address : Nat) (words : List Word) :
    wideFrom address (w :: words) = wideFrom (address + 1) words := by
  simp only [wideFrom, List.dropWhile_cons_of_pos h, List.takeWhile_cons_of_pos h, List.length_cons]
  cases words.dropWhile fits with
  | nil => rfl
  | cons v rest => simp only [Nat.add_assoc, Nat.add_comm 1]

theorem write_eq_deliver {words : List Word} (h : words.length ≤ memoryWords) (target : Sink) :
    write target words = deliver target
      (((words.rightpad memoryWords 0).takeWhile fits).flatMap line)
      (wideFrom 0 (words.rightpad memoryWords 0)) := by
  simp only [write, delivery, pad_of_le h, wideFrom, deliver]
  cases (words.rightpad memoryWords 0).dropWhile fits with
  | nil => rfl
  | cons w rest => simp only [Nat.zero_add, pending]

namespace Buffer

theorem flush_eq {b : Buffer} (h : b.held.length ≤ blockSize) :
    b.flush = deliver b.target b.held none := by
  by_cases hne : b.held = []
  · rw [flush, if_pos hne, hne]
    rfl
  · rw [flush, if_neg hne, deliver, pending, blocks_of_le hne h]
    simp only [Sink.writeAll]
    cases b.target.write b.held <;> rfl

/-- A buffer with at most one block in it delivers what it holds and the lines of the words. -/
theorem stream_eq {b : Buffer} (h : b.held.length ≤ blockSize) (address : Nat)
    (words : List Word) : b.stream address words =
      deliver b.target (b.held ++ (words.takeWhile fits).flatMap line)
        (wideFrom address words) := by
  induction words generalizing b address with
  | nil =>
    rw [stream, flush_eq h]
    simp [wideFrom]
  | cons w words ih =>
    rw [stream]
    by_cases hw : fits w = true
    · rw [if_pos hw, wideFrom_cons hw, List.takeWhile_cons_of_pos hw, List.flatMap_cons,
        ← List.append_assoc]
      have hline := length_line_of_fits hw
      rw [put]
      by_cases hroom : b.held.length + (line w).length ≤ blockSize
      · rw [if_pos hroom]
        exact ih (by simpa using hroom) (address + 1)
      · have hlong : blockSize ≤ (b.held ++ line w).length := by
          rw [List.length_append]
          omega
        rw [if_neg hroom, deliver_of_lt _ (by simp; omega), List.take_append_of_le_length hlong,
          List.drop_append_of_le_length hlong]
        cases b.target.write ((b.held ++ line w).take blockSize) with
        | error reason => rfl
        | ok target =>
          refine ih ?_ (address + 1)
          simp only [List.length_drop, List.length_append, hline]
          simp only [blockSize, wordBits] at h ⊢
          omega
    · rw [if_neg hw]
      simp only [wideFrom, List.dropWhile_cons_of_neg hw, List.takeWhile_cons_of_neg hw,
        List.flatMap_nil, List.append_nil, List.length_nil, Nat.add_zero]
      rw [deliver_fault _ h]

end Buffer

theorem writeLines_eq (target : Sink) (words : List Word) :
    writeLines target words = write target words := by
  by_cases h : words.length ≤ memoryWords
  · rw [writeLines, pad_of_le h, write_eq_deliver h]
    exact Buffer.stream_eq (Nat.zero_le _) 0 _
  · simp only [writeLines, write, delivery, pad, if_pos (Nat.not_le.1 h)]
    rfl

theorem blocks_full_append {t u : Text} (h : t.length = blockSize) :
    blocks (t ++ u) = t :: blocks u := by
  by_cases hu : u = []
  · have hne : t ≠ [] := List.ne_nil_of_length_pos (by rw [h]; decide)
    rw [hu, List.append_nil, blocks_of_le hne (Nat.le_of_eq h), blocks_nil]
  · have hpos := List.length_pos_iff.2 hu
    rw [blocks_of_lt (by rw [List.length_append]; omega), List.take_left' h, List.drop_left' h]

/-- A target with room for so many bytes takes all of a text, or the full blocks that it has room
for. -/
theorem writeAll_blocks {s : Sink} {n : Nat} (h : s.room = some n) (t : Text) :
    (t.length ≤ n → (s.writeAll (blocks t)).2 = .ok () ∧
      (s.writeAll (blocks t)).1.text = s.text ++ t) ∧
    (n < t.length → (s.writeAll (blocks t)).2 = .error s.refusal ∧
      (s.writeAll (blocks t)).1.text = s.text ++ t.take (blockSize * (n / blockSize))) := by
  induction hl : t.length using Nat.strongRecOn generalizing s n t with
  | ind l ih =>
    subst hl
    rcases Nat.lt_or_ge blockSize t.length with hlong | hshort
    · have hblock : (t.take blockSize).length = blockSize :=
        List.length_take_of_le (Nat.le_of_lt hlong)
      rw [blocks_of_lt hlong, Sink.writeAll]
      rcases Nat.lt_or_ge n blockSize with hn | hn
      · rw [Sink.write_of_lt h (by rw [hblock]; exact hn), Nat.div_eq_of_lt hn]
        exact ⟨fun hle => by omega,fun _ => ⟨rfl,by simp⟩⟩
      · rw [Sink.write_of_le h (by rw [hblock]; exact hn), hblock]
        generalize hs : ({ s with
          room := some (n - blockSize), chunks := t.take blockSize :: s.chunks } : Sink) = s'
        have htext : s'.text = s.text ++ t.take blockSize := by simp [← hs, Sink.text]
        have hrest : (t.drop blockSize).length = t.length - blockSize := List.length_drop
        have hless : (t.drop blockSize).length < t.length := by
          rw [hrest]
          simp only [blockSize] at hlong ⊢
          omega
        obtain ⟨hall,hfull⟩ := ih _ hless (show s'.room = some (n - blockSize) by rw [← hs])
          (t.drop blockSize) rfl
        constructor
        · intro hle
          obtain ⟨hok,ht⟩ := hall (by omega)
          rw [htext, List.append_assoc, List.take_append_drop] at ht
          exact ⟨hok,ht⟩
        · intro hlt
          obtain ⟨herror,ht⟩ := hfull (by omega)
          have hcount : blockSize * (n / blockSize) =
              blockSize + blockSize * ((n - blockSize) / blockSize) := by
            simp only [blockSize] at hn ⊢
            omega
          rw [htext, List.append_assoc, ← List.take_add, ← hcount] at ht
          exact ⟨herror.trans (by rw [← hs]),ht⟩
    · by_cases hne : t = []
      · subst hne
        exact ⟨fun _ => ⟨rfl,by simp [blocks_nil, Sink.writeAll]⟩,fun hlt => by simp at hlt⟩
      · rw [blocks_of_le hne hshort, Sink.writeAll]
        rcases Nat.lt_or_ge n t.length with hn | hn
        · rw [Sink.write_of_lt h hn, Nat.div_eq_of_lt (by omega)]
          exact ⟨fun hle => by omega,fun _ => ⟨rfl,by simp⟩⟩
        · rw [Sink.write_of_le h hn]
          exact ⟨fun _ => ⟨rfl,by simp [Sink.writeAll, Sink.text]⟩,fun hlt => by omega⟩

/-- A writer that stops has delivered the full blocks that were followed by something. -/
theorem pending_fault (t : Text) (fault : Fault) :
    pending t (some fault) = blocks (t.take (blockSize * ((t.length - 1) / blockSize))) := by
  induction hl : t.length using Nat.strongRecOn generalizing t with
  | ind l ih =>
    subst hl
    rcases Nat.lt_or_ge blockSize t.length with hlong | hshort
    · have hrest : (t.drop blockSize).length = t.length - blockSize := List.length_drop
      have hne : blocks (t.drop blockSize) ≠ [] := by
        apply blocks_ne_nil
        apply List.ne_nil_of_length_pos
        omega
      have hless : (t.drop blockSize).length < t.length := by
        rw [hrest]
        simp only [blockSize] at hlong ⊢
        omega
      have hcount : blockSize * ((t.length - 1) / blockSize) =
          blockSize + blockSize * (((t.drop blockSize).length - 1) / blockSize) := by
        rw [hrest]
        simp only [blockSize] at hlong ⊢
        omega
      have hblock : (t.take blockSize).length = blockSize :=
        List.length_take_of_le (Nat.le_of_lt hlong)
      rw [hcount, List.take_add, blocks_full_append hblock, ← ih _ hless _ rfl, pending,
        blocks_of_lt hlong, List.dropLast_cons_of_ne_nil hne, pending]
    · have hnone : (t.length - 1) / blockSize = 0 := by
        apply Nat.div_eq_of_lt
        simp only [blockSize] at hshort ⊢
        omega
      rw [hnone, Nat.mul_zero, List.take_zero, blocks_nil]
      by_cases hne : t = []
      · rw [hne]
        rfl
      · rw [pending, blocks_of_le hne hshort]
        rfl

theorem deliver_bounded (limit : Nat) (reason t : Text) :
    (t.length ≤ limit → (deliver (.bounded limit reason) t none).2 = .ok () ∧
      (deliver (.bounded limit reason) t none).1.Took t t.length) ∧
    (limit < t.length →
      (deliver (.bounded limit reason) t none).2 = .error (.refused reason) ∧
      (deliver (.bounded limit reason) t none).1.Took t (blockSize * (limit / blockSize))) := by
  obtain ⟨hall,hfull⟩ := writeAll_blocks (s := .bounded limit reason) rfl t
  rw [Sink.text_bounded, List.nil_append] at hall hfull
  constructor
  · intro h
    obtain ⟨hok,ht⟩ := hall h
    refine ⟨?_,Sink.took_of_eq (ht.trans List.take_length.symm) (Nat.le_refl _)⟩
    rw [deliver, pending, hok]
    rfl
  · intro h
    obtain ⟨herror,ht⟩ := hfull h
    refine ⟨?_,Sink.took_of_eq ht ?_⟩
    · rw [deliver, pending, herror]
      rfl
    · exact Nat.le_trans (Nat.mul_div_le limit blockSize) (Nat.le_of_lt h)

theorem deliver_bounded_fault (limit : Nat) (reason t : Text) (fault : Fault) {count : Nat}
    (hcount : count = blockSize * ((t.length - 1) / blockSize)) :
    (count ≤ limit →
      (deliver (.bounded limit reason) t (some fault)).2 = .error (.content fault) ∧
      (deliver (.bounded limit reason) t (some fault)).1.Took t count) ∧
    (limit < count →
      (deliver (.bounded limit reason) t (some fault)).2 = .error (.refused reason) ∧
      (deliver (.bounded limit reason) t (some fault)).1.Took t
        (blockSize * (limit / blockSize))) := by
  have hle : count ≤ t.length := by
    have hmul := Nat.mul_div_le (t.length - 1) blockSize
    omega
  have hlength : (t.take count).length = count := List.length_take_of_le hle
  have hpending : pending t (some fault) = blocks (t.take count) := by
    rw [pending_fault, hcount]
  obtain ⟨hall,hfull⟩ := writeAll_blocks (s := .bounded limit reason) rfl (t.take count)
  rw [Sink.text_bounded, List.nil_append, hlength, ← hpending] at hall hfull
  constructor
  · intro h
    obtain ⟨hok,ht⟩ := hall h
    refine ⟨?_,Sink.took_of_eq ht hle⟩
    rw [deliver, hok]
    rfl
  · intro h
    obtain ⟨herror,ht⟩ := hfull h
    have hmul := Nat.mul_div_le limit blockSize
    rw [List.take_take, Nat.min_eq_left (by omega)] at ht
    refine ⟨?_,Sink.took_of_eq ht (by omega)⟩
    rw [deliver, herror]
    rfl

/-- The lines of the memory below an address. -/
def linesBelow (words : List Word) (address : Nat) : Text :=
  ((words.rightpad memoryWords 0).take address).flatMap line

theorem linesBelow_memoryWords {words : List Word} (h : words.length ≤ memoryWords) :
    linesBelow words memoryWords = text words := by
  rw [linesBelow, List.take_of_length_le (Nat.le_of_eq (length_rightpad h)), text]

theorem Accepted.write_eq {words : List Word} (h : Accepted words) (target : Sink) :
    write target words = deliver target (linesBelow words memoryWords) none := by
  rw [linesBelow_memoryWords h.1]
  simp only [write, h.delivery]
  rfl

theorem FirstWide.lt_length {words : List Word} {k : Nat} {w : Word} (h : FirstWide words k w) :
    k < words.length :=
  (List.getElem?_eq_some_iff.1 h.word).1

theorem FirstWide.linesBelow_eq {words : List Word} {k : Nat} {w : Word}
    (h : FirstWide words k w) : linesBelow words k = (words.take k).flatMap line := by
  rw [linesBelow, List.rightpad, List.take_append_of_le_length (Nat.le_of_lt h.lt_length)]

theorem FirstWide.length_linesBelow {words : List Word} {k : Nat} {w : Word}
    (h : FirstWide words k w) : (linesBelow words k).length = 19 * k := by
  have hfits : ∀ v ∈ words.take k, fits v = true := by
    intro v hv
    obtain ⟨j,hj,rfl⟩ := List.mem_take_iff_getElem.1 hv
    exact decide_eq_true (h.first j _ (by omega) (List.getElem?_eq_getElem (by omega)))
  rw [h.linesBelow_eq, length_flatMap_line hfits,
    List.length_take_of_le (Nat.le_of_lt h.lt_length), Nat.mul_comm]
  rfl

theorem FirstWide.write_eq {words : List Word} {k : Nat} {w : Word}
    (hl : words.length ≤ memoryWords) (h : FirstWide words k w) (target : Sink) :
    write target words = deliver target (linesBelow words k) (some (.wideWord w k)) := by
  rw [h.linesBelow_eq]
  simp only [write, delivery_of_firstWide hl h]
  rfl

/-- Below 4096 lines of 19 bytes, a block never ends with a line, but for the beginning. -/
theorem blocks_before_line {k : Nat} (h : k < memoryWords) :
    (19 * k - 1) / 4096 = 19 * k / 4096 := by
  simp only [memoryWords] at h
  by_cases hk : k = 0
  · rw [hk]
  · have hmod : 19 * k % 4096 ≠ 0 := by
      intro hzero
      have hdvd : 4096 ∣ k :=
        Nat.Coprime.dvd_of_dvd_mul_left (by decide) (Nat.dvd_of_mod_eq_zero hzero)
      have hle := Nat.le_of_dvd (Nat.pos_of_ne_zero hk) hdvd
      omega
    omega

/-- What a target with a limit takes of an image. It takes full blocks until one is refused, and a
word that is too wide is reported if the full blocks before it are taken. -/
theorem write_to_limit {words : List Word} (h : words.length ≤ 2048) (limit : Nat)
    (reason : Text) :
    writeLines (.bounded limit reason) words = write (.bounded limit reason) words ∧
    ((∀ w ∈ words, w.toNat ≤ 0x3FFFF) → (linesBelow words 2048).length = 38912 ∧
      ((write (.bounded limit reason) words).2 = .ok () ↔ 38912 ≤ limit) ∧
      (38912 ≤ limit →
        (write (.bounded limit reason) words).1.Took (linesBelow words 2048) 38912) ∧
      (limit < 38912 → (write (.bounded limit reason) words).2 = .error (.refused reason) ∧
        (write (.bounded limit reason) words).1.Took (linesBelow words 2048)
          (4096 * (limit / 4096)))) ∧
    ∀ k w, FirstWide words k w → (linesBelow words k).length = 19 * k ∧
      (4096 * (19 * k / 4096) ≤ limit →
        (write (.bounded limit reason) words).2 = .error (.content (.wideWord w k)) ∧
        (write (.bounded limit reason) words).1.Took (linesBelow words k)
          (4096 * (19 * k / 4096))) ∧
      (limit < 4096 * (19 * k / 4096) →
        (write (.bounded limit reason) words).2 = .error (.refused reason) ∧
        (write (.bounded limit reason) words).1.Took (linesBelow words k)
          (4096 * (limit / 4096))) := by
  refine ⟨writeLines_eq _ words,fun hfits => ?_,fun k w hk => ?_⟩
  · have ha : Accepted words := ⟨h,hfits⟩
    have hlength : (linesBelow words 2048).length = 38912 := by
      rw [show linesBelow words 2048 = text words from linesBelow_memoryWords h, ha.holds.length]
    obtain ⟨hall,hfull⟩ := deliver_bounded limit reason (linesBelow words 2048)
    rw [hlength, ← show write _ words = deliver _ (linesBelow words 2048) none from ha.write_eq _]
      at hall hfull
    refine ⟨hlength,⟨fun hok => ?_,fun hle => (hall hle).1⟩,fun hle => (hall hle).2,hfull⟩
    apply Nat.le_of_not_lt
    intro hlt
    rw [(hfull hlt).1] at hok
    cases hok
  · have hlength := hk.length_linesBelow
    have hcount : 4096 * (19 * k / 4096) =
        blockSize * (((linesBelow words k).length - 1) / blockSize) := by
      rw [hlength, blockSize, blocks_before_line (Nat.lt_of_lt_of_le hk.lt_length h)]
    rw [hk.write_eq h]
    exact ⟨hlength,deliver_bounded_fault limit reason _ _ hcount⟩

/-- One block and eight bytes stand before the word at 216. -/
theorem write_to_limit_wide :
    (write (.bounded 4096 (utf8 "full")) (List.replicate 216 1 ++ [0x40000])).2 =
      .error (.content (.wideWord 0x40000 216)) ∧
    (write (.bounded 4095 (utf8 "full")) (List.replicate 216 1 ++ [0x40000])).2 =
      .error (.refused (utf8 "full")) ∧
    (write (.bounded 38911 (utf8 "full")) [1]).1.text.length = 36864 := by
  have hfirst : ∀ n, FirstWide (List.replicate n 1 ++ [0x40000]) n 0x40000 := by
    intro n
    refine ⟨by simp,by decide,fun j v hj hv => ?_⟩
    rw [List.getElem?_append_left (by simpa using hj), List.getElem?_replicate_of_lt hj] at hv
    cases hv
    decide
  have hlength : ∀ n < 2048, (List.replicate n (1 : Word) ++ [0x40000]).length ≤ 2048 := by
    intro n hn
    rw [List.length_append, List.length_replicate]
    exact hn
  have hshort := hlength 216 (by decide)
  refine ⟨?_,?_,?_⟩
  · exact (((write_to_limit hshort 4096 (utf8 "full")).2.2 216 _ (hfirst 216)).2.1 (by decide)).1
  · exact (((write_to_limit hshort 4095 (utf8 "full")).2.2 216 _ (hfirst 216)).2.2 (by decide)).1
  · exact (((write_to_limit (by simp) 38911 (utf8 "full")).2.1 (by simp)).2.2.2 (by decide)).2.2

end Image
end Asm18
