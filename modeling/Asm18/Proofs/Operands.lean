import Mathlib.Data.List.TakeWhile
import Asm18.Proofs.Encoding
import Asm18.Proofs.LiteralLanguage

/-! What operands come to. A literal operand is missing, malformed, out of range or a field; digits
are read only up to the one that takes the value out of 64 bits, so that a text which is malformed
after it counts as too large. The field of a branch is its distance in two's complement, and addresses
that wrap around never come back into range. -/
namespace Asm18

namespace Literal

/-- The digits and underscores at the front come to a value that is not below the bound. What
stands after them does not count. -/
def Overflows (bytes : Text) (base : Nat) (t : Text) : Prop :=
  bound ≤ valueFrom base 0 (t.takeWhile fun b => b = underscore ∨ b ∈ bytes)

/-- The digits run over the bound before the end of the text is looked at. -/
inductive Overruns : Text → Prop where
  | marked {letters bytes rest : Text} {base : Nat} {m : UInt8} : Marks letters bytes base →
      m ∈ letters → Overflows bytes base rest → Overruns (zero :: m :: rest)
  | decimal {b : UInt8} {rest : Text} : b ≠ zero → Overflows decimalDigits 10 (b :: rest) →
      Overruns (b :: rest)

theorem le_valueFrom {base : Nat} (hb : 0 < base) (v : Nat) (t : Text) :
    v ≤ valueFrom base v t := by
  induction t generalizing v with
  | nil => exact Nat.le_refl v
  | cons b t ih =>
    by_cases hu : b = underscore
    · subst hu
      rw [valueFrom_underscore]
      exact ih v
    · have hv : v ≤ v * base := Nat.le_mul_of_pos_right v hb
      rw [valueFrom_cons hu]
      exact Nat.le_trans (by omega) (ih (v * base + digitValue b))

theorem Spells.readDigits_eq_tooLarge_iff {bytes t : Text} {base v : Nat} (h : Spells bytes base)
    (hb : 0 < base) (hv : v < bound) : readDigits base v t = .error .tooLarge ↔
      bound ≤ valueFrom base v (t.takeWhile fun b => b = underscore ∨ b ∈ bytes) := by
  induction t generalizing v with
  | nil => simpa [readDigits, valueFrom] using hv
  | cons b t ih =>
    by_cases hu : b = underscore
    · subst hu
      simpa [readDigits] using ih hv
    · by_cases hmem : b ∈ bytes
      · obtain ⟨hd,hl⟩ := h.digit?_iff.2 ⟨hmem,rfl⟩
        rw [List.takeWhile_cons_of_pos (by simp [hmem]), valueFrom_cons hu, readDigits, if_neg hu,
          hd]
        simp only [Nat.not_le.2 hl, if_false]
        by_cases hover : bound ≤ v * base + digitValue b
        · -- Reading ends at this digit, and the digits after it only add to the value.
          have hle := le_valueFrom hb (v * base + digitValue b)
            (t.takeWhile fun b => b = underscore ∨ b ∈ bytes)
          simp only [hover, if_true, true_iff]
          exact Nat.le_trans hover hle
        · rw [if_neg hover, ih (Nat.not_le.1 hover)]
      · have hnone : ∀ d, digit? b = some d → base ≤ d := by
          intro d hd
          apply Nat.le_of_not_lt
          intro hl
          exact hmem (h.digit?_iff.1 ⟨hd,hl⟩).1
        rw [List.takeWhile_cons_of_neg (by simp [hu, hmem]), readDigits, if_neg hu]
        have hless : ¬ bound ≤ valueFrom base v [] := Nat.not_le.2 hv
        cases hd : digit? b with
        | none => simp [hless]
        | some d => simp [hnone d hd, hless]

theorem readBase_eq_tooLarge_iff {base : Nat} {next : Bool} {t : Text} :
    readBase base next t = .error .tooLarge ↔ readDigits base 0 t = .error .tooLarge := by
  unfold readBase
  cases readDigits base 0 t with
  | error e => simp
  | ok v => cases separated next t <;> simp

theorem readBase_decimal_eq_tooLarge_iff (t : Text) : readBase 10 false t = .error .tooLarge ↔
    Overflows decimalDigits 10 t := by
  rw [readBase_eq_tooLarge_iff, spells_decimal.readDigits_eq_tooLarge_iff (by decide) (by decide)]
  rfl

theorem Marks.readBase_eq_tooLarge_iff {letters bytes t : Text} {base : Nat}
    (h : Marks letters bytes base) : readBase base true t = .error .tooLarge ↔
      Overflows bytes base t := by
  have hpos : 0 < base := by cases h <;> decide
  rw [Literal.readBase_eq_tooLarge_iff, h.spells.readDigits_eq_tooLarge_iff hpos (by decide)]
  rfl

theorem not_overflows_nil (bytes : Text) (base : Nat) : ¬ Overflows bytes base [] := by
  simp [Overflows, valueFrom, bound]

/-- Reading fails for the size of a number exactly if its digits run over the bound, be the text a
literal or not. -/
theorem read_eq_tooLarge_iff {s : Text} : read s = .error .tooLarge ↔ Overruns s := by
  constructor
  · intro h
    unfold read at h
    split at h
    · rename_i z m rest
      split at h
      · rename_i hz
        subst hz
        split at h
        · rename_i base hm
          obtain ⟨letters,bytes,hmarks,hmem⟩ := Marks.of_base? hm
          split at h
          · cases h
          · exact .marked hmarks hmem (hmarks.readBase_eq_tooLarge_iff.1 h)
        · split at h
          · -- Zeros alone come to nothing, however many there are.
            rename_i hall
            have hzeros : ∀ b ∈ zero :: m :: rest, b = zero ∨ b = underscore := by
              simpa using hall
            rw [readBase_eq_tooLarge_iff, Fixed.readDigits_zeros (by decide) hzeros] at h
            cases h
          · cases h
      · rename_i hz
        exact .decimal hz ((readBase_decimal_eq_tooLarge_iff _).1 h)
    · rename_i hshort
      match s with
      | [] => cases h
      | [z] =>
        by_cases hz : z = zero
        · subst hz
          cases h
        · exact .decimal hz ((readBase_decimal_eq_tooLarge_iff _).1 h)
      | z :: m :: rest => exact absurd rfl (hshort z m rest)
  · intro h
    cases h with
    | @marked letters bytes rest base m hmarks hmem hover =>
      have hne : rest ≠ [] := by
        rintro rfl
        exact not_overflows_nil bytes base hover
      simp only [read, if_true, hmarks.base?_of_mem m hmem, hne, if_false]
      exact hmarks.readBase_eq_tooLarge_iff.2 hover
    | @decimal b rest hb hover =>
      have hread := (readBase_decimal_eq_tooLarge_iff _).2 hover
      cases rest with
      | nil => exact hread
      | cons m rest => rwa [read, if_neg hb]

theorem Spells.bytes_of_digits {bytes t : Text} {base v w : Nat} (h : Spells bytes base)
    (hd : Digits base v t w) : ∀ b ∈ t, b = underscore ∨ b ∈ bytes := by
  induction hd with
  | done => simp
  | digit hc hl _ ih | spaced hc hl _ ih =>
    have hmem := (h.digit?_iff.1 ⟨hc,hl⟩).1
    simpa [hmem] using ih

theorem Spells.overflows_of_digits {bytes t : Text} {base v : Nat} (h : Spells bytes base)
    (hd : Digits base 0 t v) (hv : bound ≤ v) : Overflows bytes base t := by
  have hall := h.bytes_of_digits hd
  rw [Overflows, List.takeWhile_eq_self_iff.2 (by simpa using hall), ← (h.digits_iff.1 hd).2]
  exact hv

/-- The digits of a literal are all there is of it. -/
theorem Denotes.overruns {s : Text} {v : Nat} (h : Denotes s v) (hv : bound ≤ v) : Overruns s := by
  cases h with
  | marked hm hne hr =>
    obtain ⟨letters,bytes,hmarks,hmem⟩ := Marks.of_base? hm
    exact .marked hmarks hmem (hmarks.spells.overflows_of_digits hr hv)
  | @decimal b d v rest hd h0 hl hr =>
    have hne : b ≠ zero := by
      rintro rfl
      rw [digit?_eq_zero_iff.2 rfl] at hd
      cases hd
      omega
    exact .decimal hne (spells_decimal.overflows_of_digits (.digit hd hl (by simpa using hr)) hv)
  | zeros hr => exact absurd hv (by decide)

/-- Literals run over the bound exactly if their value does. -/
theorem overruns_iff_of_mem {s : Text} (h : s ∈ literals) : Overruns s ↔ bound ≤ value s := by
  have hd : Denotes s (value s) := denotes_iff.2 ⟨h,rfl⟩
  constructor
  · intro ho
    apply Nat.le_of_not_lt
    intro hlt
    have hread := read_eq_tooLarge_iff.2 ho
    rw [hd.read hlt] at hread
    cases hread
  · exact hd.overruns

theorem mem_of_read {s : Text} {v : Nat} (h : read s = .ok v) : s ∈ literals ∧ v = value s :=
  denotes_iff.1 (read_eq_ok_iff.1 h).1

theorem read_eq_malformed_iff {s : Text} :
    read s = .error .malformed ↔ s ∉ literals ∧ ¬ Overruns s := by
  constructor
  · intro h
    have hover : ¬ Overruns s := by
      intro ho
      rw [read_eq_tooLarge_iff.2 ho] at h
      cases h
    refine ⟨fun hmem => ?_,hover⟩
    rw [overruns_iff_of_mem hmem, Nat.not_le] at hover
    rw [(denotes_iff.2 ⟨hmem,rfl⟩).read hover] at h
    cases h
  · rintro ⟨hmem,hover⟩
    cases hr : read s with
    | ok v => exact absurd (mem_of_read hr).1 hmem
    | error e =>
      cases e with
      | malformed => rfl
      | tooLarge => exact absurd (read_eq_tooLarge_iff.1 hr) hover

/-- Without a leading zero a literal has decimal digits only. -/
theorem decimal_of_mem {s : Text} (h : s ∈ literals) (hz : s.head? ≠ some zero) :
    ∀ b ∈ s, b = underscore ∨ b ∈ decimalDigits := by
  have hd : Denotes s (value s) := denotes_iff.2 ⟨h,rfl⟩
  generalize value s = v at hd
  cases hd with
  | marked => exact absurd rfl hz
  | @decimal b d v rest hd _ hl hr =>
    have hall : Digits 10 0 (b :: rest) v := .digit hd hl (by simpa using hr)
    exact spells_decimal.bytes_of_digits hall
  | zeros => exact absurd rfl hz

end Literal

open Literal (literals value Overruns)

/-- What becomes of a literal operand with a mark and a greatest value. -/
inductive Verdict (mark : UInt8) (limit : Nat) (out : Fault) : Text → Except Fault UInt32 → Prop where
  | missing : Verdict mark limit out [] (.error .missingOperand)
  | invalid {operand : Text} : operand ≠ [] →
      (∀ digits, operand = mark :: digits → digits ∉ literals ∧ ¬ Overruns digits) →
      Verdict mark limit out operand (.error .invalidOperand)
  | outOfRange {digits : Text} :
      (digits ∈ literals ∧ limit < value digits ∨ digits ∉ literals ∧ Overruns digits) →
      Verdict mark limit out (mark :: digits) (.error out)
  | fits {digits : Text} : digits ∈ literals → value digits ≤ limit →
      Verdict mark limit out (mark :: digits) (.ok (UInt32.ofNat (value digits)))

theorem verdict_literalField (mark : UInt8) {limit : Nat} (out : Fault) (hl : limit < Literal.bound)
    (operand : Text) :
    Verdict mark limit out operand (literalField mark limit out (Statement.token operand)) := by
  cases operand with
  | nil => exact .missing
  | cons b digits =>
    rw [Statement.token_cons, literalField]
    by_cases hb : b = mark
    · subst hb
      rw [if_neg (by simp)]
      cases hr : Literal.read digits with
      | ok v =>
        obtain ⟨hmem,rfl⟩ := Literal.mem_of_read hr
        by_cases hv : value digits ≤ limit
        · simp only [hv, if_true]
          exact .fits hmem hv
        · simp only [hv, if_false]
          exact .outOfRange (.inl ⟨hmem,Nat.not_le.1 hv⟩)
      | error e =>
        cases e with
        | malformed =>
          obtain ⟨hmem,hover⟩ := Literal.read_eq_malformed_iff.1 hr
          refine .invalid (by simp) fun rest he => ?_
          cases he
          exact ⟨hmem,hover⟩
        | tooLarge =>
          have hover := Literal.read_eq_tooLarge_iff.1 hr
          refine .outOfRange ?_
          by_cases hmem : digits ∈ literals
          · have hv := (Literal.overruns_iff_of_mem hmem).1 hover
            exact .inl ⟨hmem,by omega⟩
          · exact .inr ⟨hmem,hover⟩
    · rw [if_pos hb]
      refine .invalid (by simp) fun rest he => ?_
      exact absurd (List.cons.inj he).1 hb

theorem Verdict.unique {mark : UInt8} {limit : Nat} {out : Fault} {operand : Text}
    {r r' : Except Fault UInt32} (h : Verdict mark limit out operand r)
    (h' : Verdict mark limit out operand r') : r = r' := by
  cases h with
  | missing =>
    cases h' with
    | missing => rfl
    | invalid hne _ => exact absurd rfl hne
  | invalid hne hall =>
    cases h' with
    | missing => exact absurd rfl hne
    | invalid _ _ => rfl
    | outOfRange hd => grind
    | fits hmem hv => grind
  | outOfRange hd =>
    cases h' with
    | invalid _ hall => grind
    | outOfRange _ => rfl
    | fits hmem hv => grind
  | fits hmem hv =>
    cases h' with
    | invalid _ hall => grind
    | outOfRange hd => grind
    | fits _ _ => rfl

namespace CodeLine

/-- The line has no word at the address, for a fault of the kind. -/
def Faults (c : CodeLine) (here : Address) (labels : Labels) (kind : FaultKind) : Prop :=
  ∃ d, c.encode here labels = .error d ∧ d.kind = kind

theorem faults_iff {c : CodeLine} {here : Address} {labels : Labels} {kind : FaultKind} :
    c.Faults here labels kind ↔
      ∃ f, c.statement.encode here labels = .error f ∧ f.kind = kind := by
  cases he : c.statement.encode here labels with
  | ok w => simp [Faults, CodeLine.encode_eq_ok_iff.2 he]
  | error f => simp [Faults, CodeLine.encode_of_error he, Diagnostic.kind]

end CodeLine

/-- The classes with a literal operand, the mark it starts with and the bound of its value. -/
inductive LiteralClass : OperandClass → Text → Nat → Prop where
  | immediate : LiteralClass .immediate (utf8 "#") 1024
  | register : LiteralClass .register (utf8 "r") 262144

theorem LiteralClass.verdict {k : OperandClass} {mark : Text} {bound : Nat}
    (h : LiteralClass k mark bound) (here : Address) (labels : Labels) :
    ∃ b limit out, mark = [b] ∧ bound = limit + 1 ∧ out.kind = .operandOutOfRange ∧
      ∀ operand, Verdict b limit out operand (k.field here labels (Statement.token operand)) := by
  cases h with
  | immediate =>
    exact ⟨immediateMark,immediateLimit,.immediateOutOfRange,rfl,rfl,rfl,
      verdict_literalField _ _ (by decide)⟩
  | register =>
    exact ⟨registerMark,wordMask,.registerOutOfRange,rfl,rfl,rfl,
      verdict_literalField _ _ (by decide)⟩

/-- How a literal operand is classified. It is missing if it is empty, and encoded if it is the mark and
a literal below the bound. A literal at or above the bound is out of range, however large it is, and so
is a text that is no literal but runs over 64 bits; any other operand is invalid. -/
theorem literal_operand_classified {c : CodeLine} {i : Instruction} {mark operand : Text} {bound : Nat}
    (hi : Instruction.lookup c.statement.mnemonic = some i)
    (hclass : LiteralClass i.operand mark bound)
    (ho : c.statement.operand = Statement.token operand) (here : Address) (labels : Labels) :
    (c.Faults here labels .missingOperand ↔ operand = []) ∧
    (c.Faults here labels .invalidOperand ↔ operand ≠ [] ∧
      ∀ digits, operand = mark ++ digits → digits ∉ literals ∧ ¬ Overruns digits) ∧
    (c.Faults here labels .operandOutOfRange ↔ ∃ digits, operand = mark ++ digits ∧
      (digits ∈ literals ∧ bound ≤ value digits ∨ digits ∉ literals ∧ Overruns digits)) ∧
    ((∃ w, c.encode here labels = .ok w) ↔ ∃ digits, operand = mark ++ digits ∧
      digits ∈ literals ∧ value digits < bound) := by
  obtain ⟨b,limit,out,rfl,rfl,hout,hall⟩ := hclass.verdict here labels
  have hv := hall operand
  have hfault : ∀ kind, c.Faults here labels kind ↔ ∃ f,
      i.operand.field here labels (Statement.token operand) = .error f ∧ f.kind = kind := by
    intro kind
    simp [CodeLine.faults_iff, Statement.encode_eq_error_iff, hi, ho]
  have hok : (∃ w, c.encode here labels = .ok w) ↔
      ∃ f, i.operand.field here labels (Statement.token operand) = .ok f := by
    simp [CodeLine.encode_eq_ok_iff, Statement.encode_eq_ok_iff, hi, ho]
  rw [hfault, hfault, hfault, hok]
  refine ⟨⟨?_,?_⟩,⟨?_,?_⟩,⟨?_,?_⟩,⟨?_,?_⟩⟩
  · rintro ⟨f,hf,hk⟩
    rw [hf] at hv
    cases hv with
    | missing => rfl
    | invalid => cases hk
    | outOfRange => simp [hout] at hk
  · rintro rfl
    exact ⟨_,hv.unique .missing,rfl⟩
  · rintro ⟨f,hf,hk⟩
    rw [hf] at hv
    cases hv with
    | missing => cases hk
    | invalid hne hnone => exact ⟨hne,hnone⟩
    | outOfRange => simp [hout] at hk
  · rintro ⟨hne,hnone⟩
    exact ⟨_,hv.unique (.invalid hne hnone),rfl⟩
  · rintro ⟨f,hf,hk⟩
    rw [hf] at hv
    cases hv with
    | missing => cases hk
    | invalid => cases hk
    | @outOfRange digits hd => exact ⟨digits,rfl,hd⟩
  · rintro ⟨digits,rfl,hd⟩
    exact ⟨_,hv.unique (.outOfRange hd),hout⟩
  · rintro ⟨f,hf⟩
    rw [hf] at hv
    cases hv with
    | @fits digits hmem hle => exact ⟨digits,rfl,hmem,Nat.lt_succ_of_le hle⟩
  · rintro ⟨digits,rfl,hmem,hlt⟩
    exact ⟨_,hv.unique (.fits hmem (Nat.le_of_lt_succ hlt))⟩

/-- A line with nothing but a mnemonic and an operand. -/
def CodeLine.bare (mnemonic operand : Text) : CodeLine :=
  ⟨1,[],⟨none,mnemonic,Statement.token operand⟩⟩

theorem CodeLine.operand_bare (mnemonic operand : Text) :
    (bare mnemonic operand).statement.operand = Statement.token operand := rfl

theorem lookup_load : Instruction.lookup (utf8 "load") = some ⟨utf8 "load",0,.register⟩ := by decide

theorem lookup_addi : Instruction.lookup (utf8 "addi") = some ⟨utf8 "addi",9,.immediate⟩ := by
  decide

/-- The last register that fits a word and the first that does not, an immediate that is missing, and
one that ends in an underscore. -/
theorem literal_operand_classified_edges :
    (∃ w, (CodeLine.bare (utf8 "load") (utf8 "r0x3_FFFF")).encode 0 ∅ = .ok w) ∧
    (CodeLine.bare (utf8 "load") (utf8 "r262_144")).Faults 0 ∅ .operandOutOfRange ∧
    (CodeLine.bare (utf8 "addi") []).Faults 0 ∅ .missingOperand ∧
    (CodeLine.bare (utf8 "addi") (utf8 "#10_")).Faults 0 ∅ .invalidOperand := by
  have hload := fun operand =>
    literal_operand_classified lookup_load .register (CodeLine.operand_bare (utf8 "load") operand) 0 ∅
  have haddi := fun operand =>
    literal_operand_classified lookup_addi .immediate (CodeLine.operand_bare (utf8 "addi") operand) 0 ∅
  have hread : Literal.read (utf8 "0x3_FFFF") = .ok 262143 := rfl
  have hread' : Literal.read (utf8 "262_144") = .ok 262144 := rfl
  have hloose : Literal.read (utf8 "10_") = .error .malformed := rfl
  obtain ⟨hlast,hlastv⟩ := Literal.mem_of_read hread
  obtain ⟨hfirst,hfirstv⟩ := Literal.mem_of_read hread'
  refine ⟨?_,?_,?_,?_⟩
  · refine (hload _).2.2.2.2 ⟨utf8 "0x3_FFFF",rfl,hlast,?_⟩
    rw [← hlastv]
    decide
  · exact (hload _).2.2.1.2 ⟨utf8 "262_144",rfl,.inl ⟨hfirst,Nat.le_of_eq hfirstv⟩⟩
  · exact (haddi []).1.2 rfl
  · refine (haddi _).2.1.2 ⟨by decide,?_⟩
    intro digits hd
    cases hd
    exact Literal.read_eq_malformed_iff.1 hloose

/-- A text that is no literal is out of range, not invalid, if its digits run over 64 bits before the
byte that is wrong. -/
theorem malformed_operand_outOfRange :
    utf8 "99999999999999999999f" ∉ literals ∧
    (CodeLine.bare (utf8 "addi") (utf8 "#99999999999999999999f")).Faults 0 ∅ .operandOutOfRange ∧
    ¬ (CodeLine.bare (utf8 "addi") (utf8 "#99999999999999999999f")).Faults 0 ∅ .invalidOperand := by
  have hencode : (CodeLine.bare (utf8 "addi") (utf8 "#99999999999999999999f")).encode 0 ∅ =
      .error ⟨1,⟨none,utf8 "addi",some (utf8 "#99999999999999999999f")⟩,.immediateOutOfRange⟩ := rfl
  refine ⟨fun hmem => ?_,⟨_,hencode,rfl⟩,?_⟩
  · have hdigit := Literal.decimal_of_mem hmem (by decide) 0x66 (by decide)
    exact absurd hdigit (by decide)
  · rintro ⟨d,hd,hk⟩
    rw [hencode] at hd
    cases hd
    cases hk

/-- A distance that does not fit the field is reported with both addresses. -/
theorem displacement_of_not_inRange {here target : Address} (h0 : 0 ≤ here.toInt)
    (h1 : here.toInt + 2048 ≤ 0x8000000000000000)
    (h : ¬ (-2048 ≤ target.toInt - here.toInt ∧ target.toInt - here.toInt < 2048)) :
    displacement here target = .error (.branchOutOfRange here target) := by
  have hrange := mt (toInt_sub_inRange_iff target h0 h1).1 h
  have hlow : (-(branchSpan / 2)).toInt = -2048 := rfl
  have hhigh : (branchSpan / 2).toInt = 2048 := rfl
  unfold displacement
  simp only [Int64.lt_iff_toInt_lt, Int64.le_iff_toInt_le, hlow, hhigh]
  rw [if_pos (by omega)]

/-- The word of a branch to a label, or its fault, told by the integers that the addresses stand for. -/
theorem CodeLine.encode_branch {c : CodeLine} {i : Instruction} {name : Text} {here target : Address}
    {labels : Labels} (hi : Instruction.lookup c.statement.mnemonic = some i)
    (hb : i.operand = .branch) (ho : c.statement.operand = some name)
    (ht : labels.get? name = some target) (h0 : 0 ≤ here.toInt)
    (h1 : here.toInt + 2048 ≤ 0x8000000000000000) : c.encode here labels =
      if -2048 ≤ target.toInt - here.toInt ∧ target.toInt - here.toInt < 2048 then
        .ok (i.word (UInt32.ofInt ((target.toInt - here.toInt) % 4096)))
      else .error ⟨c.number,c.statement,.branchOutOfRange here target⟩ := by
  have hfield : i.operand.field here labels c.statement.operand = displacement here target := by
    rw [hb, ho]
    simp only [OperandClass.field, branchField, ht]
  split
  · rename_i hin
    have hd := (displacement_eq_ok_iff h0 h1).2 ⟨hin.1,hin.2,rfl⟩
    apply CodeLine.encode_eq_ok_iff.2
    exact Statement.encode_eq_ok_iff.2 ⟨i,_,hi,hfield.trans hd,rfl⟩
  · rename_i hout
    have hd := displacement_of_not_inRange h0 h1 hout
    apply CodeLine.encode_of_error
    exact Statement.encode_eq_error_iff.2 (.inr ⟨i,hi,hfield.trans hd⟩)

/-- A branch has a word exactly if the distance to its label fits the field, as a difference of integers
and not of addresses that wrap around. The word is the opcode and the distance in two's complement, so
that the label's address can be read off it. -/
theorem branch_displacement_exact {c : CodeLine} {i : Instruction} {name : Text}
    {here target : Address} {labels : Labels}
    (hi : Instruction.lookup c.statement.mnemonic = some i) (hb : i.operand = .branch)
    (ho : c.statement.operand = some name) (ht : labels.get? name = some target)
    (h0 : 0 ≤ here.toInt) (h1 : here.toInt ≤ 0x8000000000000000 - 2048) :
    ((∃ w, c.encode here labels = .ok w) ↔
      -2048 ≤ target.toInt - here.toInt ∧ target.toInt - here.toInt ≤ 2047) ∧
    (¬ (-2048 ≤ target.toInt - here.toInt ∧ target.toInt - here.toInt ≤ 2047) →
      c.Faults here labels .branchOutOfRange) ∧
    ∀ w, c.encode here labels = .ok w →
      (w.toNat : Int) = i.opcode.toNat * 1024 + (target.toInt - here.toInt) % 4096 ∧
      w.toNat / 4096 = i.opcode.toNat / 4 ∧
      here.toInt + branchOffset w = target.toInt := by
  have he := CodeLine.encode_branch hi hb ho ht h0 (by omega)
  have hmem := (Instruction.lookup_sound hi).1
  by_cases hin : -2048 ≤ target.toInt - here.toInt ∧ target.toInt - here.toInt < 2048
  · rw [if_pos hin] at he
    obtain ⟨hword,htop,hoff⟩ := Instruction.branch_word_of_offset hmem hb hin.1 hin.2
    refine ⟨⟨fun _ => by omega,fun _ => ⟨_,he⟩⟩,fun hout => absurd hin (by omega),fun w hw => ?_⟩
    rw [he] at hw
    cases hw
    exact ⟨hword,htop,by omega⟩
  · rw [if_neg hin] at he
    refine ⟨⟨fun hw => ?_,fun hw => absurd hw (by omega)⟩,fun _ => ⟨_,he,rfl⟩,fun w hw => ?_⟩
    · obtain ⟨w,hw⟩ := hw
      rw [he] at hw
      cases hw
    · rw [he] at hw
      cases hw

/-- From the last address at which a branch can stand, to both ends of the addresses. -/
theorem branch_displacement_exact_ends :
    (∃ w, (CodeLine.bare (utf8 "br") (utf8 "last")).encode 0x7FFFFFFFFFFFF800
        (Table.ofList [(utf8 "last",0x7FFFFFFFFFFFFFFF)]) = .ok w ∧
      0x7FFFFFFFFFFFF800 + branchOffset w = 0x7FFFFFFFFFFFFFFF) ∧
    (CodeLine.bare (utf8 "br") (utf8 "least")).Faults 0x7FFFFFFFFFFFF800
      (Table.ofList [(utf8 "least",-0x8000000000000000)]) .branchOutOfRange := by
  have hbr : Instruction.lookup (utf8 "br") = some ⟨utf8 "br",128,.branch⟩ := by decide
  have hlast : (Table.ofList [(utf8 "last",0x7FFFFFFFFFFFFFFF)] : Labels).get? (utf8 "last") =
      some 0x7FFFFFFFFFFFFFFF := rfl
  have hleast : (Table.ofList [(utf8 "least",-0x8000000000000000)] : Labels).get? (utf8 "least") =
      some (-0x8000000000000000) := rfl
  have hhere : (0x7FFFFFFFFFFFF800 : Address).toInt = 0x7FFFFFFFFFFFF800 := by decide
  have hgreatest : (0x7FFFFFFFFFFFFFFF : Address).toInt = 0x7FFFFFFFFFFFFFFF := by decide
  have hmin : (-0x8000000000000000 : Address).toInt = -0x8000000000000000 := by decide
  constructor
  · obtain ⟨hiff,-,hword⟩ := branch_displacement_exact (c := CodeLine.bare (utf8 "br") (utf8 "last"))
      hbr rfl rfl hlast (show 0 ≤ (0x7FFFFFFFFFFFF800 : Address).toInt by omega) (by omega)
    obtain ⟨w,hw⟩ := hiff.2 (by omega)
    have hoff := (hword w hw).2.2
    exact ⟨w,hw,by omega⟩
  · refine (branch_displacement_exact hbr rfl rfl hleast (by omega) (by omega)).2.1 ?_
    omega

/-- One word further on, the distance to the least address wraps around into range. -/
example : displacement 0x7FFFFFFFFFFFF801 (-0x8000000000000000) = .ok 6143 := rfl

end Asm18
