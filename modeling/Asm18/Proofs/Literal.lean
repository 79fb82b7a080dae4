import Asm18.Literal
import Asm18.Text.Numeral

/-! The written form of literals. A literal is a run of digits of its base in which one underscore
may stand before each digit but the first, and after a base mark before the first as well. Reading
accepts exactly the literals below the bound, each with its value. -/
namespace Asm18.Literal

/-- The digits that take the first value to the second, at most one underscore before each. -/
inductive Digits (base : Nat) : Nat → Text → Nat → Prop where
  | done {v : Nat} : Digits base v [] v
  | digit {v d w : Nat} {b : UInt8} {rest : Text} : digit? b = some d → d < base →
      Digits base (v * base + d) rest w → Digits base v (b :: rest) w
  | spaced {v d w : Nat} {b : UInt8} {rest : Text} : digit? b = some d → d < base →
      Digits base (v * base + d) rest w → Digits base v (underscore :: b :: rest) w

/-- A literal and the number it stands for. Decimal literals start with a digit other than zero, or
hold no other digit than zero. -/
inductive Denotes : Text → Nat → Prop where
  | marked {m : UInt8} {base v : Nat} {rest : Text} : base? m = some base → rest ≠ [] →
      Digits base 0 rest v → Denotes (zero :: m :: rest) v
  | decimal {b : UInt8} {d v : Nat} {rest : Text} : digit? b = some d → 0 < d → d < 10 →
      Digits 10 d rest v → Denotes (b :: rest) v
  | zeros {rest : Text} : Digits 10 0 rest 0 → Denotes (zero :: rest) 0

@[simp] theorem digit?_underscore : digit? underscore = none := by decide

theorem ne_underscore_of_digit? {b : UInt8} {d : Nat} (h : digit? b = some d) : b ≠ underscore := by
  rintro rfl
  simp at h

theorem digit?_eq_zero_iff {b : UInt8} : digit? b = some 0 ↔ b = zero := by
  constructor
  · intro h
    unfold digit? at h
    apply UInt8.toNat_inj.1
    split at h
    · rename_i hb
      have hl := UInt8.le_iff_toNat_le.1 hb.1
      have h0 := Option.some.inj h
      simp only [zero, UInt8.reduceToNat] at *
      omega
    · split at h
      · simp at h
      · split at h <;> simp at h
  · rintro rfl
    decide

theorem base?_pos {m : UInt8} {base : Nat} (h : base? m = some base) : 0 < base := by
  unfold base? at h
  split at h
  · cases h; decide
  · split at h
    · cases h; decide
    · split at h
      · cases h; decide
      · cases h

theorem base?_eq_none_of_zero_or_underscore {m : UInt8} (h : m = zero ∨ m = underscore) :
    base? m = none := by
  rcases h with rfl | rfl <;> decide

namespace Digits

theorem le {base v w : Nat} {t : Text} (hb : 0 < base) (h : Digits base v t w) : v ≤ w := by
  induction h with
  | done => exact Nat.le_refl _
  | @digit v d _ _ _ _ _ _ ih | @spaced v d _ _ _ _ _ _ ih =>
    have hv : v ≤ v * base := Nat.le_mul_of_pos_right v hb
    omega

theorem snoc {base v w d : Nat} {t : Text} {b : UInt8} (h : Digits base v t w)
    (hb : digit? b = some d) (hd : d < base) : Digits base v (t ++ [b]) (w * base + d) := by
  induction h with
  | done => exact .digit hb hd .done
  | digit hc hl _ ih => exact .digit hc hl ih
  | spaced hc hl _ ih => exact .spaced hc hl ih

end Digits

theorem readDigits_cons_eq_ok_iff {base v w : Nat} {b : UInt8} {rest : Text} (hb : b ≠ underscore) :
    readDigits base v (b :: rest) = .ok w ↔ ∃ d, digit? b = some d ∧ d < base ∧
      v * base + d < bound ∧ readDigits base (v * base + d) rest = .ok w := by
  rw [readDigits, if_neg hb]
  cases hd : digit? b with
  | none => simp
  | some d =>
    by_cases hl : base ≤ d
    · simp only [hl, if_true, reduceCtorEq, Option.some.injEq, false_iff]
      rintro ⟨e,rfl,he,-⟩
      omega
    · by_cases hv : bound ≤ v * base + d
      · simp only [hl, if_false, hv, if_true, reduceCtorEq, Option.some.injEq, false_iff]
        rintro ⟨e,rfl,-,he,-⟩
        omega
      · simp only [hl, if_false, hv, Option.some.injEq]
        constructor
        · intro h
          exact ⟨d,rfl,by omega,by omega,h⟩
        · rintro ⟨e,rfl,-,-,h⟩
          exact h

theorem readDigits_lt {base v w : Nat} {t : Text} (hv : v < bound)
    (h : readDigits base v t = .ok w) : w < bound := by
  induction t generalizing v with
  | nil =>
    cases h
    exact hv
  | cons b rest ih =>
    by_cases hb : b = underscore
    · rw [readDigits, if_pos hb] at h
      exact ih hv h
    · obtain ⟨d,-,-,hl,h⟩ := (readDigits_cons_eq_ok_iff hb).1 h
      exact ih hl h

/-- What the flag of `separated` stands for: after a digit another group may follow, and after an
underscore a digit has to. -/
theorem digits_of_readDigits {base v w : Nat} {t : Text} (h : readDigits base v t = .ok w) :
    (separated true t = true → Digits base v t w) ∧
    (separated false t = true → ∃ b d rest, t = b :: rest ∧ digit? b = some d ∧ d < base ∧
      Digits base (v * base + d) rest w) := by
  induction t generalizing v with
  | nil =>
    cases h
    exact ⟨fun _ => .done,fun hs => by simp [separated] at hs⟩
  | cons b rest ih =>
    by_cases hb : b = underscore
    · subst hb
      rw [readDigits, if_pos rfl] at h
      refine ⟨fun hs => ?_,fun hs => by simp [separated] at hs⟩
      obtain ⟨c,d,rest,rfl,hc,hd,hr⟩ := (ih h).2 (by simpa [separated] using hs)
      exact .spaced hc hd hr
    · obtain ⟨d,hd,hl,-,h⟩ := (readDigits_cons_eq_ok_iff hb).1 h
      have hr : ∀ next, separated next (b :: rest) = true → Digits base (v * base + d) rest w := by
        intro next hs
        rw [separated, if_neg hb] at hs
        exact (ih h).1 hs
      exact ⟨fun hs => .digit hd hl (hr _ hs),fun hs => ⟨b,d,rest,rfl,hd,hl,hr _ hs⟩⟩

theorem Digits.readDigits {base v w : Nat} {t : Text} (hb : 0 < base) (hw : w < bound)
    (h : Digits base v t w) : readDigits base v t = .ok w ∧ separated true t = true := by
  induction h with
  | done => exact ⟨rfl,rfl⟩
  | digit hc hl hr ih =>
    have hu := ne_underscore_of_digit? hc
    have hv := hr.le hb
    refine ⟨(readDigits_cons_eq_ok_iff hu).2 ⟨_,hc,hl,by omega,(ih hw).1⟩,?_⟩
    rw [separated, if_neg hu]
    exact (ih hw).2
  | spaced hc hl hr ih =>
    have hu := ne_underscore_of_digit? hc
    have hv := hr.le hb
    rw [Literal.readDigits, if_pos rfl, separated, if_pos rfl, Bool.true_and, separated, if_neg hu]
    exact ⟨(readDigits_cons_eq_ok_iff hu).2 ⟨_,hc,hl,by omega,(ih hw).1⟩,(ih hw).2⟩

theorem readBase_eq_ok_iff {base v : Nat} {marked : Bool} {t : Text} :
    readBase base marked t = .ok v ↔ readDigits base 0 t = .ok v ∧ separated marked t = true := by
  unfold readBase
  cases h : readDigits base 0 t with
  | error e => simp
  | ok u => by_cases hs : separated marked t = true <;> simp [hs]

theorem readBase_marked {base v : Nat} {t : Text} (hb : 0 < base) :
    readBase base true t = .ok v ↔ Digits base 0 t v ∧ v < bound := by
  rw [readBase_eq_ok_iff]
  constructor
  · rintro ⟨h,hs⟩
    exact ⟨(digits_of_readDigits h).1 hs,readDigits_lt (by decide) h⟩
  · rintro ⟨h,hv⟩
    exact h.readDigits hb hv

theorem readBase_unmarked {base v : Nat} {t : Text} (hb : 0 < base) :
    readBase base false t = .ok v ↔ (∃ b d rest, t = b :: rest ∧ digit? b = some d ∧ d < base ∧
      Digits base d rest v) ∧ v < bound := by
  rw [readBase_eq_ok_iff]
  constructor
  · rintro ⟨h,hs⟩
    obtain ⟨b,d,rest,ht,hd,hl,hr⟩ := (digits_of_readDigits h).2 hs
    rw [Nat.zero_mul, Nat.zero_add] at hr
    exact ⟨⟨b,d,rest,ht,hd,hl,hr⟩,readDigits_lt (by decide) h⟩
  · rintro ⟨⟨b,d,rest,rfl,hd,hl,hr⟩,hv⟩
    have hg : Digits base 0 (b :: rest) v := .digit hd hl (by simpa using hr)
    obtain ⟨h,hs⟩ := hg.readDigits hb hv
    refine ⟨h,?_⟩
    rwa [separated, if_neg (ne_underscore_of_digit? hd)] at hs ⊢

theorem digits_eq_zero {v w : Nat} {t : Text} (h : Digits 10 v t w) (hv : v = 0)
    (ha : ∀ b ∈ t, b = zero ∨ b = underscore) : w = 0 := by
  induction h with
  | done => exact hv
  | @digit v d _ b _ hc _ _ ih | @spaced v d _ b _ hc _ _ ih =>
    have hb : b = zero := by
      rcases ha b (by simp) with hb | hb
      · exact hb
      · exact absurd hb (ne_underscore_of_digit? hc)
    have hd : d = 0 := by
      rw [digit?_eq_zero_iff.2 hb] at hc
      exact (Option.some.inj hc).symm
    apply ih
    · omega
    · intro c hm
      exact ha c (by simp [hm])

theorem zero_or_underscore_of_digits {v w : Nat} {t : Text} (h : Digits 10 v t w) (hw : w = 0) :
    ∀ b ∈ t, b = zero ∨ b = underscore := by
  induction h with
  | done => simp
  | digit hc _ hr ih | spaced hc _ hr ih =>
    have hle := hr.le (by decide)
    have hd := digit?_eq_zero_iff.1 (hc.trans (congrArg some (by omega)))
    intro c hm
    simp only [List.mem_cons] at hm
    grind

/-- A decimal literal without a leading zero before other digits. -/
theorem denotes_of_unmarked {v d : Nat} {b : UInt8} {rest : Text} (hd : digit? b = some d)
    (hl : d < 10) (hr : Digits 10 d rest v)
    (hz : b = zero → ∀ c ∈ rest, c = zero ∨ c = underscore) : Denotes (b :: rest) v := by
  by_cases hb : b = zero
  · have h0 : d = 0 := by
      rw [digit?_eq_zero_iff.2 hb] at hd
      exact (Option.some.inj hd).symm
    have hv := digits_eq_zero hr h0 (hz hb)
    subst hb h0 hv
    exact .zeros hr
  · have h0 : d ≠ 0 := by
      rintro rfl
      exact hb (digit?_eq_zero_iff.1 hd)
    exact .decimal hd (by omega) hl hr

theorem denotes_of_read {s : Text} {v : Nat} (h : read s = .ok v) : Denotes s v ∧ v < bound := by
  have hun : ∀ t, (∀ rest, t = zero :: rest → ∀ c ∈ rest, c = zero ∨ c = underscore) →
      readBase 10 false t = .ok v → Denotes t v ∧ v < bound := by
    intro t hz ht
    obtain ⟨⟨b,d,rest,rfl,hd,hl,hr⟩,hv⟩ := (readBase_unmarked (by decide)).1 ht
    exact ⟨denotes_of_unmarked hd hl hr (fun hb => hz rest (by rw [hb])),hv⟩
  unfold read at h
  split at h
  · rename_i z m rest
    split at h
    · rename_i hz
      split at h
      · rename_i base hm
        split at h
        · cases h
        · rename_i hn
          obtain ⟨hr,hv⟩ := (readBase_marked (base?_pos hm)).1 h
          subst hz
          exact ⟨.marked hm hn hr,hv⟩
      · split at h
        · rename_i ha
          refine hun _ (fun rest' he c hc => ?_) h
          obtain ⟨-,rfl⟩ := List.cons.inj he
          simpa using List.all_eq_true.1 ha c hc
        · cases h
    · rename_i hz
      exact hun _ (fun _ he => absurd (List.cons.inj he).1 hz) h
  · rename_i hs
    refine hun _ (fun rest he c hc => ?_) h
    cases rest with
    | nil => simp at hc
    | cons m rest => exact absurd he (hs zero m rest)

theorem Denotes.read {s : Text} {v : Nat} (h : Denotes s v) (hv : v < bound) :
    read s = .ok v := by
  cases h with
  | @marked m base _ rest hm hn hr =>
    simp only [Literal.read, if_true, hm, hn, if_false]
    exact (readBase_marked (base?_pos hm)).2 ⟨hr,hv⟩
  | @decimal b d _ rest hd h0 hl hr =>
    have hb : b ≠ zero := by
      rintro rfl
      rw [digit?_eq_zero_iff.2 rfl] at hd
      cases hd
      omega
    have h := (readBase_unmarked (by decide)).2 ⟨⟨b,d,rest,rfl,hd,hl,hr⟩,hv⟩
    cases rest with
    | nil => exact h
    | cons m rest => rw [Literal.read, if_neg hb]; exact h
  | @zeros rest hr =>
    have h := (readBase_unmarked (by decide)).2
      ⟨⟨zero,0,rest,rfl,digit?_eq_zero_iff.2 rfl,by decide,hr⟩,hv⟩
    cases rest with
    | nil => exact h
    | cons m rest =>
      have ha := zero_or_underscore_of_digits hr rfl
      have hall : (m :: rest).all (fun b => b = zero ∨ b = underscore) = true := by
        simpa using ha
      simp only [Literal.read, if_true, base?_eq_none_of_zero_or_underscore (ha m (by simp)), hall]
      exact h

/-- Reading accepts exactly the literals below the bound, each with its value. -/
theorem read_eq_ok_iff {s : Text} {v : Nat} : read s = .ok v ↔ Denotes s v ∧ v < bound :=
  ⟨denotes_of_read,fun h => h.1.read h.2⟩

/-- A digit's own numeral. -/
theorem digit?_digitChar {d : Nat} (h : d < 10) : digit? d.digitChar.toUInt8 = some d := by
  revert d
  decide

theorem natural_of_lt {n : Nat} (h : n < 10) : Text.natural n = [n.digitChar.toUInt8] :=
  Text.digits_of_lt h

theorem natural_of_le {n : Nat} (h : 10 ≤ n) :
    Text.natural n = Text.natural (n / 10) ++ [(n % 10).digitChar.toUInt8] :=
  Text.digits_of_le (by decide) h

theorem digits_natural {n : Nat} (h : 0 < n) : ∃ b d rest, Text.natural n = b :: rest ∧
    digit? b = some d ∧ 0 < d ∧ d < 10 ∧ Digits 10 d rest n := by
  induction n using Nat.strongRecOn with
  | ind n ih =>
    by_cases hn : n < 10
    · exact ⟨_,n,[],natural_of_lt hn,digit?_digitChar hn,h,hn,.done⟩
    · obtain ⟨b,d,rest,ht,hb,h0,hl,hr⟩ := ih (n / 10) (by omega) (by omega)
      have hm : n % 10 < 10 := Nat.mod_lt n (by decide)
      refine ⟨b,d,rest ++ [(n % 10).digitChar.toUInt8],?_,hb,h0,hl,?_⟩
      · rw [natural_of_le (by omega), ht, List.cons_append]
      · have hs := hr.snoc (digit?_digitChar hm) hm
        rwa [show n / 10 * 10 + n % 10 = n by omega] at hs

/-- The decimal numeral of a number is a literal for it. -/
theorem denotes_natural (n : Nat) : Denotes (Text.natural n) n := by
  by_cases h : n = 0
  · subst h
    rw [natural_of_lt (by decide)]
    exact .zeros .done
  · obtain ⟨b,d,rest,ht,hb,h0,hl,hr⟩ := digits_natural (Nat.pos_of_ne_zero h)
    rw [ht]
    exact .decimal hb h0 hl hr

theorem natural_subset (n : Nat) : Text.natural n ⊆ utf8 "0123456789" :=
  Text.digits_subset (by decide) (by decide) n

end Asm18.Literal
