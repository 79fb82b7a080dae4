import Asm18.Line

/-! White space at the front of a text. No white space character's encoding starts another's, so
that trimming takes off the longest run of them; of the bytes of ASCII it takes off the blanks. -/
namespace Asm18

/-- The text is the encoding of white space characters. -/
def OnlySpace (t : Text) : Prop :=
  ∃ cs : List Char, (∀ c ∈ cs, c ∈ Text.whiteSpace) ∧ t = cs.flatMap String.utf8EncodeChar

theorem OnlySpace.nil : OnlySpace [] := ⟨[],by simp,rfl⟩

theorem OnlySpace.cons {c : Char} {t : Text} (hc : c ∈ Text.whiteSpace) (ht : OnlySpace t) :
    OnlySpace (String.utf8EncodeChar c ++ t) := by
  obtain ⟨cs,hcs,rfl⟩ := ht
  refine ⟨c :: cs,?_,by simp⟩
  intro d hd
  rcases List.mem_cons.1 hd with rfl | hd
  · exact hc
  · exact hcs d hd

namespace Text

/-- A property of all bytes is checked number by number. -/
theorem forall_byte {p : UInt8 → Prop} (h : ∀ n < 256, p (UInt8.ofNat n)) (b : UInt8) : p b := by
  have hb := h b.toNat b.toNat_lt
  rwa [UInt8.ofNat_toNat] at hb

theorem eq_of_encoding_isPrefix : ∀ c ∈ whiteSpace, ∀ d ∈ whiteSpace,
    String.utf8EncodeChar c <+: String.utf8EncodeChar d → c = d := by
  have hall : (whiteSpace.all fun c => whiteSpace.all fun d =>
      decide (String.utf8EncodeChar c <+: String.utf8EncodeChar d → c = d)) = true := by decide
  simpa only [List.all_eq_true, decide_eq_true_eq] using hall

theorem isBlank_of_mem_head? : ∀ c ∈ whiteSpace, ∀ b ∈ (String.utf8EncodeChar c).head?,
    b < 0x80 → Statement.isBlank b = true := by
  have hall : (whiteSpace.all fun c => (String.utf8EncodeChar c).head?.all fun b =>
      decide (b < 0x80 → Statement.isBlank b = true)) = true := by decide
  simpa only [List.all_eq_true, Option.all_eq_true, Option.mem_def, decide_eq_true_eq] using hall

theorem afterSpace?_encoding {c : Char} (hc : c ∈ whiteSpace) (t : Text) :
    afterSpace? (String.utf8EncodeChar c ++ t) = some t := by
  have hsome : (afterSpace? (String.utf8EncodeChar c ++ t)).isSome = true := by
    rw [afterSpace?, List.isSome_findSome?, List.any_eq_true]
    refine ⟨c,hc,?_⟩
    rw [after?_eq_some_iff.2 rfl]
    rfl
  obtain ⟨rest,hr⟩ := Option.isSome_iff_exists.1 hsome
  obtain ⟨d,hd,he⟩ := afterSpace?_sound hr
  -- Both encodings start the same text, so one of them starts the other.
  have hcd : c = d := by
    rcases List.prefix_or_prefix_of_prefix (List.prefix_append _ t) ⟨rest,he.symm⟩ with hp | hp
    · exact eq_of_encoding_isPrefix c hc d hd hp
    · exact (eq_of_encoding_isPrefix d hd c hc hp).symm
  subst hcd
  rw [hr, List.append_cancel_left he]

theorem trimStart_of_none {t : Text} (h : t.afterSpace? = none) : trimStart t = t := by
  rw [trimStart]
  split
  · rename_i hs
    rw [h] at hs
    cases hs
  · rfl

theorem trimStart_of_some {t rest : Text} (h : t.afterSpace? = some rest) :
    trimStart t = trimStart rest := by
  rw [trimStart]
  split
  · rename_i hs
    rw [h] at hs
    cases hs
    rfl
  · rename_i hs
    rw [h] at hs
    cases hs

theorem trimStart_onlySpace_append {s : Text} (hs : OnlySpace s) (t : Text) :
    trimStart (s ++ t) = trimStart t := by
  obtain ⟨cs,hcs,rfl⟩ := hs
  induction cs with
  | nil => rfl
  | cons c cs ih =>
    have hc := afterSpace?_encoding (hcs c (by simp)) (cs.flatMap String.utf8EncodeChar ++ t)
    rw [List.flatMap_cons, List.append_assoc, trimStart_of_some hc]
    exact ih fun d hd => hcs d (by simp [hd])

/-- What trimming takes off is white space, and no white space is left at the front. -/
theorem trimStart_spec (t : Text) :
    (∃ s, OnlySpace s ∧ t = s ++ trimStart t) ∧ (trimStart t).afterSpace? = none := by
  induction hn : t.length using Nat.strongRecOn generalizing t with
  | ind n ih =>
    cases hs : t.afterSpace? with
    | none => rw [trimStart_of_none hs]; exact ⟨⟨[],.nil,rfl⟩,hs⟩
    | some rest =>
      have hl := afterSpace?_length hs
      obtain ⟨c,hc,ht⟩ := afterSpace?_sound hs
      obtain ⟨⟨s,hsp,hr⟩,hnone⟩ := ih rest.length (by omega) rest rfl
      rw [trimStart_of_some hs]
      refine ⟨⟨String.utf8EncodeChar c ++ s,hsp.cons hc,?_⟩,hnone⟩
      rw [List.append_assoc, ← hr, ht]

theorem trimStart_eq_nil_iff {t : Text} : trimStart t = [] ↔ OnlySpace t := by
  constructor
  · intro h
    obtain ⟨⟨s,hs,ht⟩,-⟩ := trimStart_spec t
    rw [h, List.append_nil] at ht
    rwa [ht]
  · intro h
    have hnil : trimStart [] = [] := trimStart_of_none rfl
    rw [← List.append_nil t, trimStart_onlySpace_append h, hnil]

theorem afterSpace?_ascii {b : UInt8} {t : Text} (ha : b < 0x80)
    (hb : Statement.isBlank b = false) : afterSpace? (b :: t) = none := by
  rw [Option.eq_none_iff_forall_not_mem]
  intro rest hr
  obtain ⟨c,hc,ht⟩ := afterSpace?_sound hr
  have hh : b ∈ (String.utf8EncodeChar c).head? := by
    cases he : String.utf8EncodeChar c with
    | nil => exact absurd he (by simp)
    | cons d ds =>
      rw [he, List.cons_append] at ht
      rw [(List.cons.inj ht).1]
      rfl
  rw [isBlank_of_mem_head? c hc b hh ha] at hb
  cases hb

theorem trimStart_ascii {b : UInt8} {t : Text} (ha : b < 0x80)
    (hb : Statement.isBlank b = false) : trimStart (b :: t) = b :: t :=
  trimStart_of_none (afterSpace?_ascii ha hb)

/-- A byte of ASCII that is no blank is what trimming stops at, exactly if white space is all that
stands before it. -/
theorem trimStart_eq_cons_iff {b : UInt8} {t rest : Text} (ha : b < 0x80)
    (hb : Statement.isBlank b = false) :
    trimStart t = b :: rest ↔ ∃ s, OnlySpace s ∧ t = s ++ b :: rest := by
  constructor
  · intro h
    obtain ⟨⟨s,hs,ht⟩,-⟩ := trimStart_spec t
    rw [h] at ht
    exact ⟨s,hs,ht⟩
  · intro h
    obtain ⟨s,hs,rfl⟩ := h
    rw [trimStart_onlySpace_append hs, trimStart_ascii ha hb]

theorem not_ascii_of_mem_tail : ∀ c ∈ whiteSpace, ∀ b ∈ (String.utf8EncodeChar c).tail,
    ¬ b < 0x80 := by
  have hall : (whiteSpace.all fun c => (String.utf8EncodeChar c).tail.all fun b =>
      decide (¬ b < 0x80)) = true := by decide
  simpa only [List.all_eq_true, decide_eq_true_eq] using hall

/-- A byte of ASCII never completes a white space character. -/
theorem afterSpace?_append {t w : Text} (hne : t ≠ []) (ht : t.afterSpace? = none)
    (hw : ∀ b ∈ w.head?, b < 0x80) : (t ++ w).afterSpace? = none := by
  rw [Option.eq_none_iff_forall_not_mem]
  intro rest hr
  obtain ⟨c,hc,he⟩ := afterSpace?_sound hr
  -- The character ends after the first text, at its end, or inside it.
  rcases List.append_eq_append_iff.1 he with ⟨u,hu,hrest⟩ | ⟨u,rfl,-⟩
  · cases u with
    | nil =>
      have hspace := afterSpace?_encoding hc []
      simp [hu, ht] at hspace
    | cons b u =>
      have hmem : b ∈ (String.utf8EncodeChar c).tail := by
        rw [hu, List.tail_append_of_ne_nil hne]
        simp
      exact not_ascii_of_mem_tail c hc b hmem (hw b (by rw [hrest]; rfl))
  · rw [afterSpace?_encoding hc] at ht
    cases ht

theorem trimStart_append {t w : Text} (ht : trimStart t ≠ []) (hw : ∀ b ∈ w.head?, b < 0x80) :
    trimStart (t ++ w) = trimStart t ++ w := by
  obtain ⟨⟨s,hs,he⟩,hnone⟩ := trimStart_spec t
  calc trimStart (t ++ w)
      = trimStart (s ++ (trimStart t ++ w)) := by rw [← List.append_assoc, ← he]
    _ = trimStart (trimStart t ++ w) := trimStart_onlySpace_append hs _
    _ = trimStart t ++ w := trimStart_of_none (afterSpace?_append ht hnone hw)

end Text

theorem onlySpace_of_blanks {t : Text} (h : ∀ b ∈ t, Statement.isBlank b = true) :
    OnlySpace t := by
  induction t with
  | nil => exact .nil
  | cons b t ih =>
    have hany : ∀ b, Statement.isBlank b = true →
        (Text.whiteSpace.any fun c => String.utf8EncodeChar c = [b]) = true :=
      Text.forall_byte (by decide +kernel)
    obtain ⟨c,hc,he⟩ := List.any_eq_true.1 (hany b (h b (by simp)))
    rw [decide_eq_true_eq] at he
    have ht := (ih fun d hd => h d (by simp [hd])).cons hc
    rwa [he] at ht

end Asm18
