import Asm18.Proofs.Grammar

/-! Idle text after a line. Text that starts with a blank and has no operand after its blanks ends
each token where the end of the line would have ended it, so a line says the same with it and
without. -/
namespace Asm18

section Scanning

variable {p : UInt8 → Bool} {w : Text}

theorem takeWhile_append_of_head (h : ∀ b ∈ w.head?, p b = false) (t : Text) :
    (t ++ w).takeWhile p = t.takeWhile p := by
  induction t with
  | nil => cases w <;> simp_all
  | cons b t ih => cases hb : p b <;> simp [hb, ih]

theorem dropWhile_append_of_head (h : ∀ b ∈ w.head?, p b = false) (t : Text) :
    (t ++ w).dropWhile p = t.dropWhile p ++ w := by
  induction t with
  | nil => cases w <;> simp_all
  | cons b t ih => cases hb : p b <;> simp [hb, ih]

end Scanning

namespace Statement

/-- A text that adds nothing to a statement it follows: it starts with a blank, and after its blanks
there is no operand. -/
structure Idle (w : Text) : Prop where
  blank : ∃ b ∈ w.head?, isBlank b = true
  empty : operand? (w.dropWhile isBlank) = none

theorem of_isBlank : ∀ b, isBlank b = true →
    isLiteral b = false ∧ b ≠ colon ∧ b ≠ hash ∧ b < 0x80 :=
  Text.forall_byte (by decide +kernel)

theorem word?_eq_none_of_operand? {t : Text} (h : operand? t = none) : word? t = none := by
  cases t with
  | nil => rfl
  | cons b t =>
    by_cases hb : b = hash
    · rw [hb, Grammar.word?_hash]
    · rw [operand?, if_neg hb, Option.map_eq_none_iff] at h
      exact h

theorem blanks?_append {b : UInt8} (t w : Text) (hb : isBlank b = true) :
    blanks? (b :: t ++ w) = some (if t.dropWhile isBlank = [] then w.dropWhile isBlank
      else t.dropWhile isBlank ++ w) := by
  rw [List.cons_append, blanks?, if_pos hb, List.dropWhile_append]
  simp

namespace Idle

variable {w : Text} (h : Idle w)
include h

theorem exists_cons : ∃ b rest, w = b :: rest ∧ isBlank b = true := by
  obtain ⟨b,hb,hblank⟩ := h.blank
  cases w with
  | nil => cases hb
  | cons c rest =>
    cases hb
    exact ⟨b,rest,rfl,hblank⟩

theorem forall_head {q : UInt8 → Prop} (hq : ∀ b, isBlank b = true → q b) : ∀ b ∈ w.head?, q b := by
  obtain ⟨b,rest,rfl,hb⟩ := h.exists_cons
  rintro _ ⟨⟩
  exact hq b hb

theorem not_isWord : ∀ b ∈ w.head?, isWord b = false :=
  h.forall_head Grammar.not_isWord_of_isBlank

theorem not_isLiteral : ∀ b ∈ w.head?, isLiteral b = false :=
  h.forall_head fun b hb => (of_isBlank b hb).1

theorem ascii : ∀ b ∈ w.head?, b < 0x80 :=
  h.forall_head fun b hb => (of_isBlank b hb).2.2.2

theorem word?_append (t : Text) : word? (t ++ w) = (word? t).map fun p => (p.1,p.2 ++ w) := by
  rw [word?, word?, takeWhile_append_of_head h.not_isWord, dropWhile_append_of_head h.not_isWord]
  split <;> rfl

theorem takeLabel_append (t : Text) :
    takeLabel (t ++ w) = ((takeLabel t).1,(takeLabel t).2 ++ w) := by
  obtain ⟨b,rest,rfl,hb⟩ := h.exists_cons
  obtain ⟨-,hcolon,-,-⟩ := of_isBlank b hb
  rw [takeLabel, takeLabel, h.word?_append]
  cases hw : word? t with
  | none => rfl
  | some p =>
    obtain ⟨name,u⟩ := p
    cases u with
    | nil => simp [hcolon]
    | cons c u => by_cases hc : c = colon <;> simp [hc]

theorem blanks?_eq : blanks? w = some (w.dropWhile isBlank) := by
  obtain ⟨b,rest,rfl,hb⟩ := h.exists_cons
  simp [blanks?, hb]

theorem bind_word?_append (t : Text) : (blanks? (t ++ w)).bind word? =
    ((blanks? t).bind word?).map fun p => (p.1,p.2 ++ w) := by
  have hnone := word?_eq_none_of_operand? h.empty
  cases t with
  | nil =>
    rw [List.nil_append, h.blanks?_eq]
    exact hnone
  | cons b t =>
    by_cases hb : isBlank b = true
    · rw [blanks?_append t w hb, blanks?, if_pos hb]
      by_cases ht : t.dropWhile isBlank = []
      · rw [if_pos ht, ht]
        exact hnone
      · rw [if_neg ht]
        exact h.word?_append _
    · simp [blanks?, hb]

theorem operand?_append (t : Text) : operand? (t ++ w) = operand? t := by
  cases t with
  | nil =>
    -- The blanks before an operand have been passed, so one more is as good as the end.
    obtain ⟨b,rest,rfl,hb⟩ := h.exists_cons
    obtain ⟨-,-,hhash,-⟩ := of_isBlank b hb
    exact (if_neg hhash).trans (congrArg (Option.map Prod.fst) (Grammar.word?_of_isBlank hb))
  | cons c t =>
    rw [List.cons_append, operand?, operand?, takeWhile_append_of_head h.not_isLiteral,
      ← List.cons_append, h.word?_append, Option.map_map]
    rfl

theorem map_operand?_append {t : Text} (ht : t ≠ []) :
    (blanks? (t ++ w)).map operand? = (blanks? t).map operand? := by
  obtain ⟨b,u,rfl⟩ := List.exists_cons_of_ne_nil ht
  by_cases hb : isBlank b = true
  · rw [blanks?_append u w hb, blanks?, if_pos hb]
    by_cases hu : u.dropWhile isBlank = []
    · rw [if_pos hu, hu]
      exact congrArg some h.empty
    · rw [if_neg hu]
      exact congrArg some (h.operand?_append _)
  · simp [blanks?, hb]

/-- A statement is the same with idle text after it. -/
theorem parse?_append (t : Text) : parse? (t ++ w) = parse? t := by
  simp only [parse?, h.takeLabel_append, h.bind_word?_append]
  cases (blanks? (takeLabel t).2).bind word? with
  | none => rfl
  | some p =>
    obtain ⟨mnemonic,rest⟩ := p
    cases rest with
    | nil =>
      -- Where the text ended with its mnemonic, blanks follow now, and no operand after them.
      obtain ⟨b,rest,rfl,-⟩ := h.exists_cons
      simp [h.blanks?_eq, h.empty]
    | cons c rest =>
      have hsame := congrArg (Option.map (Statement.mk (takeLabel t).1 mnemonic))
        (h.map_operand?_append (List.cons_ne_nil c rest))
      simpa [Function.comp_def] using hsame

end Idle
end Statement

namespace Content

/-- A line that is not blank is the same with idle text after it. -/
theorem parse_append {t w : Text} (hw : Statement.Idle w) (ht : t.trimStart ≠ []) :
    parse (t ++ w) = parse t := by
  obtain ⟨b,rest,hcons⟩ := List.exists_cons_of_ne_nil ht
  simp only [parse, Text.trimStart_append ht hw.ascii, hcons, hw.parse?_append, List.cons_append]

theorem parse_append_carriageReturn (t : Text) : parse (t ++ [Text.carriageReturn]) = parse t := by
  by_cases ht : t.trimStart = []
  · have hspace : OnlySpace [Text.carriageReturn] :=
      onlySpace_of_blanks (List.forall_mem_singleton.2 rfl)
    have hboth : (t ++ [Text.carriageReturn]).trimStart = [] := by
      rw [Text.trimStart_onlySpace_append (Text.trimStart_eq_nil_iff.1 ht)]
      exact Text.trimStart_eq_nil_iff.2 hspace
    simp only [parse, ht, hboth]
  · have hidle : Statement.Idle [Text.carriageReturn] := ⟨⟨_,rfl,rfl⟩,rfl⟩
    exact parse_append hidle ht

/-- One carriage return or none at the end of a line is the same to its content. -/
theorem parse_chomp (t : Text) : parse t.chomp = parse t := by
  by_cases h : t.getLast? = some Text.carriageReturn
  · obtain ⟨u,rfl⟩ := List.getLast?_eq_some_iff.1 h
    rw [Text.chomp_append_carriageReturn, parse_append_carriageReturn]
  · rw [Text.chomp, if_neg h]

end Content

end Asm18
