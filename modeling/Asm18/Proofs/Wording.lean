import Asm18.Command.Log
import Asm18.Proofs.Outcome

/-! What messages are made of. The tokens of a statement are words of the source, so that a message
or a line of the log holds nothing but visible characters and blanks, whatever the source holds. -/
namespace Asm18

namespace Text

/-- The characters of ASCII that are no control characters. -/
def Visible (t : Text) : Prop := ∀ b ∈ t, 0x20 ≤ b ∧ b ≤ 0x7E

instance (t : Text) : Decidable (Visible t) := List.decidableBAll _ t

@[simp] theorem visible_append_iff {s t : Text} : Visible (s ++ t) ↔ Visible s ∧ Visible t := by
  simp only [Visible, List.mem_append]
  exact ⟨fun h => ⟨fun b hb => h b (.inl hb),fun b hb => h b (.inr hb)⟩,
    fun h b hb => hb.elim (h.1 b) (h.2 b)⟩

theorem Visible.not_mem {t : Text} (h : Visible t) {b : UInt8} (hb : b < 0x20) : b ∉ t :=
  fun hm => absurd (h b hm).1 (UInt8.not_le.2 hb)

@[simp] theorem visible_natural (n : Nat) : Visible (natural n) := by
  have hdigits : Visible (utf8 "0123456789") := by decide
  exact fun b hb => hdigits b (digits_subset (by decide) (by decide) n hb)

@[simp] theorem visible_decimal (n : Int) : Visible (decimal n) := by
  cases n with
  | ofNat n => exact visible_natural n
  | negSucc n =>
    have hsign : Visible ([0x2D] ++ natural (n + 1)) := by
      rw [visible_append_iff]
      exact ⟨by decide,visible_natural _⟩
    exact hsign

end Text

open Grammar Text

theorem visible_of_subset {t : Text} (h : t ⊆ wordBytes) : Visible t := by
  have hbytes : Visible wordBytes := by decide
  exact fun b hb => hbytes b (h hb)

theorem visible_of_isName {t : Text} (h : IsName t) : Visible t := visible_of_subset h.2

theorem visible_of_isOperand {t : Text} (h : IsOperand t) : Visible t := by
  have hbytes : Visible literalBytes := by decide
  rcases h with h | ⟨digits,h,rfl⟩
  · exact visible_of_isName h
  · rw [visible_append_iff]
    exact ⟨by decide,fun b hb => hbytes b (h.2 hb)⟩

namespace Statement

variable {s : Statement}

theorem wellFormed_of_matches {t : Text} (h : Matches t s) : s.WellFormed := by
  have hname : ∀ {u token rest : Text}, Munch wordBytes u token rest → IsName token :=
    fun hm => ⟨hm.nonempty,hm.inside⟩
  cases h with
  | intro hlabel _ hmnemonic htail =>
    refine ⟨?_,hname hmnemonic,?_⟩
    · rintro name rfl
      cases hlabel with
      | present hm => exact hname hm
    · rintro o rfl
      cases htail with
      | spaced _ ho =>
        cases ho with
        | literal hm => exact .inr ⟨_,⟨hm.nonempty,hm.inside⟩,rfl⟩
        | word hm => exact .inl (hname hm)

theorem WellFormed.visible_label (h : s.WellFormed) : Visible (s.label.getD []) := by
  cases hl : s.label with
  | none => decide
  | some name => exact visible_of_isName (h.label name hl)

theorem WellFormed.visible_operand (h : s.WellFormed) : Visible (s.operand.getD []) := by
  cases ho : s.operand with
  | none => decide
  | some o => exact visible_of_isOperand (h.operand o ho)

end Statement

theorem Fault.visible_message {s : Statement} (h : s.WellFormed) (f : Fault) :
    Visible (f.message s) := by
  have hmnemonic := visible_of_isName h.mnemonic
  cases f
  all_goals simp only [message, visible_append_iff, hmnemonic, h.visible_label, h.visible_operand,
    visible_decimal, and_true, true_and]
  all_goals decide

theorem wellFormed_of_mem_code {source : Text} {c : CodeLine} (h : c ∈ Source.code source) :
    c.statement.WellFormed := by
  obtain ⟨l,hl,hc⟩ := List.mem_filterMap.1 h
  have hparse : l.content = Content.parse l.text := by
    obtain ⟨i,-,rfl⟩ := List.mem_mapIdx.1 hl
    rfl
  obtain ⟨s,hs,rfl⟩ := Option.map_eq_some_iff.1 hc
  have hcontent : l.content = .instruction s := by
    cases hl : l.content with
    | instruction s' => simpa [hl, Content.statement?] using hs
    | blank | comment | unrecognised => simp [hl, Content.statement?] at hs
  exact Statement.wellFormed_of_matches (parse_eq_instruction_iff.1 (hparse.symm.trans hcontent))

/-- Each diagnostic is of a line of code. -/
theorem exists_code_of_mem_diagnosis {code : List CodeLine} {d : Diagnostic}
    (h : d ∈ diagnosis code) : ∃ c ∈ code, d.line = c.number ∧ d.statement = c.statement := by
  rcases List.mem_append.1 h with h | h
  · obtain ⟨k,c,hc,hd⟩ := mem_reports_iff.1 h
    obtain ⟨name,-,hd⟩ := Option.bind_eq_some_iff.1 hd
    obtain ⟨first,-,rfl⟩ := Option.map_eq_some_iff.1 hd
    exact ⟨c,List.mem_of_getElem? hc,rfl,rfl⟩
  · obtain ⟨k,c,hc,hd⟩ := mem_reports_iff.1 h
    obtain ⟨f,-,rfl⟩ := CodeLine.failure?_eq_some_iff.1 hd
    exact ⟨c,List.mem_of_getElem? hc,rfl,rfl⟩

theorem wellFormed_of_mem_diagnosis {source : Text} {d : Diagnostic}
    (h : d ∈ diagnosis (Source.code source)) : d.statement.WellFormed := by
  obtain ⟨c,hc,-,hstatement⟩ := exists_code_of_mem_diagnosis h
  rw [hstatement]
  exact wellFormed_of_mem_code hc

/-- The messages of a failed assembly. -/
theorem visible_of_faulty {on : Bool} {source : Text} {ds : List Diagnostic}
    (h : (assemble on source).result = .error (.faulty ds)) : ∀ d ∈ ds, Visible d.message := by
  rcases Nat.lt_or_ge memoryWords (Source.code source).length with hl | hl
  · rw [assemble_of_lt hl] at h
    cases h
  · rw [result_assemble_of_le hl] at h
    split at h
    · cases h
    · cases h
      exact fun d hd => Fault.visible_message (wellFormed_of_mem_diagnosis hd) d.fault

namespace Source

end Source

namespace Command.LogEntry

end Command.LogEntry
end Asm18
