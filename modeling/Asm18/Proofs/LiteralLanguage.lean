import Mathlib.Computability.Language
import Asm18.Proofs.Literal
import Asm18.Proofs.WhiteSpace

/-! The literals as a language, put together from bytes by choice, sequence and repetition, and what
they denote. Literals can also be read in two steps, of which the second takes a leading zero for the
mark of base 8 and wraps around at 64 bits. Both ways accept the literals below the bound and no
others. -/
namespace Asm18.Literal

open scoped Computability

/-- A single byte of the given ones. -/
def oneOf (bytes : Text) : Language UInt8 := {t | ∃ b ∈ bytes, t = [b]}

/-- A digit, with one underscore before it or none. -/
def group (digits : Text) : Language UInt8 := (1 + oneOf (utf8 "_")) * oneOf digits

/-- A zero, a letter that marks the base, and at least one digit. -/
def marked (letters digits : Text) : Language UInt8 :=
  oneOf (utf8 "0") * oneOf letters * (group digits * (group digits)∗)

def binaryDigits : Text := utf8 "01"

def octalDigits : Text := utf8 "01234567"

def decimalDigits : Text := utf8 "0123456789"

def hexadecimalDigits : Text := utf8 "0123456789abcdefABCDEF"

def literals : Language UInt8 :=
  marked (utf8 "bB") binaryDigits + marked (utf8 "oO") octalDigits +
    marked (utf8 "xX") hexadecimalDigits +
    oneOf (utf8 "123456789") * (group decimalDigits)∗ + oneOf (utf8 "0") * (group (utf8 "0"))∗

/-- The value of a digit is its place among the digits, where capitals stand with small letters. -/
def digitValue (b : UInt8) : Nat :=
  if b ∈ utf8 "ABCDEF" then (utf8 "ABCDEF").idxOf b + 10 else (utf8 "0123456789abcdef").idxOf b

/-- The number that digits stand for when they follow a value; underscores do not count. -/
def valueFrom (base value : Nat) (t : Text) : Nat :=
  (t.filter fun b => b ≠ underscore).foldl (fun v b => v * base + digitValue b) value

/-- The number that a literal stands for. A letter after a leading zero marks the base. -/
def value : Text → Nat
  | z :: m :: rest =>
    match if z = zero then base? m else none with
    | some base => valueFrom base 0 rest
    | none => valueFrom 10 0 (z :: m :: rest)
  | s => valueFrom 10 0 s

section Language

theorem mem_oneOf {bytes t : Text} : t ∈ oneOf bytes ↔ ∃ b ∈ bytes, t = [b] := Iff.rfl

theorem mem_oneOf_mul {bytes s : Text} {l : Language UInt8} :
    s ∈ oneOf bytes * l ↔ ∃ b ∈ bytes, ∃ t ∈ l, s = b :: t := by
  simp only [Language.mem_mul, mem_oneOf]
  constructor
  · rintro ⟨_,⟨b,hb,rfl⟩,t,ht,rfl⟩
    exact ⟨b,hb,t,ht,rfl⟩
  · rintro ⟨b,hb,t,ht,rfl⟩
    exact ⟨[b],⟨b,hb,rfl⟩,t,ht,rfl⟩

theorem mem_group {digits t : Text} :
    t ∈ group digits ↔ ∃ b ∈ digits, t = [b] ∨ t = [underscore,b] := by
  simp only [group, add_mul, one_mul, Language.mem_add, mem_oneOf_mul, mem_oneOf]
  constructor
  · rintro (⟨b,hb,rfl⟩ | ⟨c,hc,_,⟨b,hb,rfl⟩,rfl⟩)
    · exact ⟨b,hb,.inl rfl⟩
    · cases List.mem_singleton.1 (show c ∈ [underscore] from hc)
      exact ⟨b,hb,.inr rfl⟩
  · rintro ⟨b,hb,rfl | rfl⟩
    · exact .inl ⟨b,hb,rfl⟩
    · exact .inr ⟨underscore,by decide,_,⟨b,hb,rfl⟩,rfl⟩

theorem mem_groups_iff {digits t : Text} : t ∈ (group digits)∗ ↔
    t = [] ∨ t ∈ group digits * (group digits)∗ := by
  have h := Language.one_add_self_mul_kstar_eq_kstar (group digits)
  rw [← Language.mem_one, ← Language.mem_add, h]

theorem append_mem_groups {digits u t : Text} (hu : u ∈ group digits) (ht : t ∈ (group digits)∗) :
    u ++ t ∈ (group digits)∗ :=
  mem_groups_iff.2 (.inr (Language.append_mem_mul hu ht))

/-- One group or more are any groups that are not empty. -/
theorem mem_group_mul {digits t : Text} :
    t ∈ group digits * (group digits)∗ ↔ t ≠ [] ∧ t ∈ (group digits)∗ := by
  constructor
  · intro h
    refine ⟨?_,mem_groups_iff.2 (.inr h)⟩
    obtain ⟨u,hu,v,-,rfl⟩ := Language.mem_mul.1 h
    obtain ⟨b,-,rfl | rfl⟩ := mem_group.1 hu <;> simp
  · rintro ⟨hne,h⟩
    exact (mem_groups_iff.1 h).resolve_left hne

theorem mem_marked {letters digits s : Text} : s ∈ marked letters digits ↔
    ∃ m ∈ letters, ∃ rest, s = zero :: m :: rest ∧ rest ≠ [] ∧ rest ∈ (group digits)∗ := by
  simp only [marked, mul_assoc, mem_oneOf_mul, mem_group_mul]
  constructor
  · rintro ⟨z,hz,_,⟨m,hm,rest,⟨hne,hr⟩,rfl⟩,rfl⟩
    cases List.mem_singleton.1 (show z ∈ [zero] from hz)
    exact ⟨m,hm,rest,rfl,hne,hr⟩
  · rintro ⟨m,hm,rest,rfl,hne,hr⟩
    exact ⟨zero,by decide,_,⟨m,hm,rest,⟨hne,hr⟩,rfl⟩,rfl⟩

end Language

@[simp] theorem valueFrom_underscore (base v : Nat) (t : Text) :
    valueFrom base v (underscore :: t) = valueFrom base v t := by
  simp [valueFrom]

theorem valueFrom_cons {b : UInt8} (hb : b ≠ underscore) (base v : Nat) (t : Text) :
    valueFrom base v (b :: t) = valueFrom base (v * base + digitValue b) t := by
  simp [valueFrom, hb]

/-- The bytes are the digits of the base. -/
def Spells (bytes : Text) (base : Nat) : Prop :=
  ∀ b, (digit? b).filter (fun d => d < base) = if b ∈ bytes then some (digitValue b) else none

theorem spells_binary : Spells binaryDigits 2 := Text.forall_byte (by decide +kernel)

theorem spells_octal : Spells octalDigits 8 := Text.forall_byte (by decide +kernel)

theorem spells_decimal : Spells decimalDigits 10 := Text.forall_byte (by decide +kernel)

theorem spells_hexadecimal : Spells hexadecimalDigits 16 := Text.forall_byte (by decide +kernel)

namespace Spells

variable {bytes : Text} {base : Nat} (h : Spells bytes base)
include h

theorem digit?_iff {b : UInt8} {d : Nat} :
    digit? b = some d ∧ d < base ↔ b ∈ bytes ∧ d = digitValue b := by
  have hb := h b
  by_cases hmem : b ∈ bytes
  · rw [if_pos hmem, Option.filter_eq_some_iff] at hb
    simp only [decide_eq_true_eq] at hb
    simp only [hb.1, Option.some.injEq, hmem, true_and]
    constructor
    · exact fun hd => hd.1.symm
    · rintro rfl
      exact ⟨rfl,hb.2⟩
  · rw [if_neg hmem, Option.filter_eq_none_iff] at hb
    simp only [hmem, false_and, iff_false, not_and]
    intro hd
    simpa using hb d hd

/-- Digits of a base, read from the left, are groups of the bytes that spell it. -/
theorem digits_iff {v w : Nat} {t : Text} :
    Digits base v t w ↔ t ∈ (group bytes)∗ ∧ w = valueFrom base v t := by
  constructor
  · intro hd
    induction hd with
    | done => exact ⟨Language.nil_mem_kstar _,rfl⟩
    | digit hc hl _ ih =>
      obtain ⟨hmem,rfl⟩ := h.digit?_iff.1 ⟨hc,hl⟩
      refine ⟨append_mem_groups (mem_group.2 ⟨_,hmem,.inl rfl⟩) ih.1,?_⟩
      rw [valueFrom_cons (ne_underscore_of_digit? hc), ih.2]
    | spaced hc hl _ ih =>
      obtain ⟨hmem,rfl⟩ := h.digit?_iff.1 ⟨hc,hl⟩
      refine ⟨append_mem_groups (mem_group.2 ⟨_,hmem,.inr rfl⟩) ih.1,?_⟩
      rw [valueFrom_underscore, valueFrom_cons (ne_underscore_of_digit? hc), ih.2]
  · rintro ⟨ht,rfl⟩
    obtain ⟨groups,rfl,hall⟩ := Language.mem_kstar.1 ht
    clear ht
    induction groups generalizing v with
    | nil => exact .done
    | cons u groups ih =>
      obtain ⟨b,hb,hu⟩ := mem_group.1 (hall u (by simp))
      obtain ⟨hc,hl⟩ := h.digit?_iff.2 ⟨hb,rfl⟩
      have hvalue := valueFrom_cons (ne_underscore_of_digit? hc) base v groups.flatten
      have hrest := ih (v := v * base + digitValue b) fun y hy => hall y (by simp [hy])
      rw [← hvalue] at hrest
      rcases hu with rfl | rfl
      · exact .digit hc hl hrest
      · exact .spaced hc hl (by simpa using hrest)

end Spells

/-- A base goes with the letters that mark it and the bytes that spell it. -/
inductive Marks : Text → Text → Nat → Prop where
  | binary : Marks (utf8 "bB") binaryDigits 2
  | octal : Marks (utf8 "oO") octalDigits 8
  | hexadecimal : Marks (utf8 "xX") hexadecimalDigits 16

namespace Marks

variable {letters bytes : Text} {base : Nat}

theorem spells (h : Marks letters bytes base) : Spells bytes base := by
  cases h with
  | binary => exact spells_binary
  | octal => exact spells_octal
  | hexadecimal => exact spells_hexadecimal

theorem base?_of_mem (h : Marks letters bytes base) : ∀ m ∈ letters, base? m = some base := by
  cases h <;> decide +kernel

theorem of_base? {m : UInt8} (h : base? m = some base) :
    ∃ letters bytes, Marks letters bytes base ∧ m ∈ letters := by
  unfold base? at h
  split at h
  · rename_i hm
    cases h
    exact ⟨_,_,.binary,by rcases hm with rfl | rfl <;> decide⟩
  · split at h
    · rename_i hm
      cases h
      exact ⟨_,_,.octal,by rcases hm with rfl | rfl <;> decide⟩
    · split at h
      · rename_i hm
        cases h
        exact ⟨_,_,.hexadecimal,by rcases hm with rfl | rfl <;> decide⟩
      · cases h

end Marks

theorem mem_literals {s : Text} : s ∈ literals ↔
    (∃ letters bytes base, Marks letters bytes base ∧ s ∈ marked letters bytes) ∨
    s ∈ oneOf (utf8 "123456789") * (group decimalDigits)∗ ∨
    s ∈ oneOf (utf8 "0") * (group (utf8 "0"))∗ := by
  simp only [literals, Language.mem_add]
  constructor
  · rintro ((((h | h) | h) | h) | h)
    · exact .inl ⟨_,_,_,.binary,h⟩
    · exact .inl ⟨_,_,_,.octal,h⟩
    · exact .inl ⟨_,_,_,.hexadecimal,h⟩
    · exact .inr (.inl h)
    · exact .inr (.inr h)
  · rintro (⟨_,_,_,hm,h⟩ | h | h)
    · cases hm <;> simp [h]
    · simp [h]
    · simp [h]

/-- Zeros are the digits of a decimal number that is zero. -/
theorem zeros_iff {t : Text} : Digits 10 0 t 0 ↔ t ∈ (group (utf8 "0"))∗ := by
  constructor
  · intro h
    have hall := zero_or_underscore_of_digits h rfl
    obtain ⟨groups,rfl,hg⟩ := Language.mem_kstar.1 (spells_decimal.digits_iff.1 h).1
    refine Language.mem_kstar.2 ⟨groups,rfl,fun u hu => ?_⟩
    obtain ⟨b,hb,hub⟩ := mem_group.1 (hg u hu)
    have hmem : b ∈ groups.flatten :=
      List.mem_flatten.2 ⟨u,hu,by rcases hub with rfl | rfl <;> simp⟩
    have hdigit := (spells_decimal.digit?_iff.2 ⟨hb,rfl⟩).1
    rcases hall b hmem with rfl | rfl
    · exact mem_group.2 ⟨zero,by decide,hub⟩
    · cases hdigit
  · intro h
    obtain ⟨groups,rfl,hg⟩ := Language.mem_kstar.1 h
    clear h
    induction groups with
    | nil => exact .done
    | cons u groups ih =>
      have hrest : Digits 10 (0 * 10 + 0) groups.flatten 0 := ih fun y hy => hg y (by simp [hy])
      obtain ⟨b,hb,hu⟩ := mem_group.1 (hg u (by simp))
      cases List.mem_singleton.1 (show b ∈ [zero] from hb)
      rcases hu with rfl | rfl
      · exact .digit (by decide) (by decide) hrest
      · exact .spaced (by decide) (by decide) hrest

theorem value_of_base? {m : UInt8} {base : Nat} (h : base? m = some base) (rest : Text) :
    value (zero :: m :: rest) = valueFrom base 0 rest := by
  simp [value, h]

theorem value_of_decimal {b : UInt8} {rest : Text}
    (h : b = zero → ∀ m ∈ rest.head?, base? m = none) :
    value (b :: rest) = valueFrom 10 0 (b :: rest) := by
  cases rest with
  | nil => rfl
  | cons m rest =>
    by_cases hb : b = zero
    · simp [value, h hb m rfl]
    · simp [value, hb]

theorem value_of_zeros {rest : Text} (h : Digits 10 0 rest 0) : value (zero :: rest) = 0 := by
  have hall := zero_or_underscore_of_digits h rfl
  have hnone : ∀ m ∈ rest.head?, base? m = none := fun m hm =>
    base?_eq_none_of_zero_or_underscore (hall m (List.mem_of_mem_head? hm))
  rw [value_of_decimal fun _ => hnone, valueFrom_cons (by decide)]
  exact (spells_decimal.digits_iff.1 h).2.symm

theorem mem_nonzeroDigits : ∀ b, b ∈ utf8 "123456789" ↔ b ∈ decimalDigits ∧ 0 < digitValue b :=
  Text.forall_byte (by decide +kernel)

/-- A text is a literal for a number exactly if it is in the language, with that number as its
value. -/
theorem denotes_iff {s : Text} {v : Nat} : Denotes s v ↔ s ∈ literals ∧ v = value s := by
  rw [mem_literals]
  constructor
  · intro h
    cases h with
    | @marked m base v rest hm hne hr =>
      obtain ⟨letters,bytes,hmarks,hmem⟩ := Marks.of_base? hm
      obtain ⟨hg,rfl⟩ := hmarks.spells.digits_iff.1 hr
      rw [value_of_base? hm]
      exact ⟨.inl ⟨_,_,_,hmarks,mem_marked.2 ⟨m,hmem,rest,rfl,hne,hg⟩⟩,rfl⟩
    | @decimal b d v rest hd h0 hl hr =>
      obtain ⟨hb,rfl⟩ := spells_decimal.digit?_iff.1 ⟨hd,hl⟩
      obtain ⟨hg,rfl⟩ := spells_decimal.digits_iff.1 hr
      have hne : b ≠ zero := by
        rintro rfl
        exact absurd h0 (by decide)
      rw [value_of_decimal fun he => absurd he hne, valueFrom_cons (ne_underscore_of_digit? hd)]
      refine ⟨.inr (.inl (mem_oneOf_mul.2 ⟨b,mem_nonzeroDigits b |>.2 ⟨hb,h0⟩,rest,hg,rfl⟩)),?_⟩
      rw [Nat.zero_mul, Nat.zero_add]
    | @zeros rest hr =>
      rw [value_of_zeros hr]
      exact ⟨.inr (.inr (mem_oneOf_mul.2 ⟨zero,by decide,rest,zeros_iff.1 hr,rfl⟩)),rfl⟩
  · rintro ⟨⟨letters,bytes,base,hmarks,hs⟩ | hs | hs,rfl⟩
    · obtain ⟨m,hm,rest,rfl,hne,hg⟩ := mem_marked.1 hs
      have hbase := hmarks.base?_of_mem m hm
      rw [value_of_base? hbase]
      exact .marked hbase hne (hmarks.spells.digits_iff.2 ⟨hg,rfl⟩)
    · obtain ⟨b,hb,rest,hg,rfl⟩ := mem_oneOf_mul.1 hs
      obtain ⟨hmem,h0⟩ := mem_nonzeroDigits b |>.1 hb
      obtain ⟨hd,hl⟩ := spells_decimal.digit?_iff.2 ⟨hmem,rfl⟩
      have hne : b ≠ zero := by
        rintro rfl
        exact absurd h0 (by decide)
      rw [value_of_decimal fun he => absurd he hne, valueFrom_cons (ne_underscore_of_digit? hd),
        Nat.zero_mul, Nat.zero_add]
      exact .decimal hd h0 hl (spells_decimal.digits_iff.2 ⟨hg,rfl⟩)
    · obtain ⟨b,hb,rest,hg,rfl⟩ := mem_oneOf_mul.1 hs
      cases List.mem_singleton.1 (show b ∈ [zero] from hb)
      have hr := zeros_iff.2 hg
      rw [value_of_zeros hr]
      exact .zeros hr

namespace Fixed

/-- From this value on a product with the base does not fit 64 bits. -/
def cutoff (base : UInt64) : UInt64 := 0xFFFFFFFFFFFFFFFF / base + 1

/-- Reads digits from the left, and notes whether an underscore was among them. -/
def scan (base value : UInt64) (noted : Bool) : Text → Except Fault (UInt64 × Bool)
  | [] => .ok (value,noted)
  | b :: rest =>
    if b = underscore then scan base value true rest
    else
      match digit? b with
      | none => .error .malformed
      | some d =>
        if base.toNat ≤ d then .error .malformed
        else if cutoff base ≤ value then .error .tooLarge
        else if value * base + UInt64.ofNat d < value * base then .error .tooLarge
        else scan base (value * base + UInt64.ofNat d) noted rest

/-- What an underscore is preceded by. -/
inductive Seen where
  | start
  | digit
  | underscore
  | other
deriving DecidableEq

/-- An underscore follows a digit and is followed by one. Letters are digits of base 16 only. -/
def spaced (hex : Bool) : Seen → Text → Bool
  | seen, [] => seen ≠ .underscore
  | seen, b :: rest =>
    if b ∈ decimalDigits ∨ hex ∧ b ∈ hexadecimalDigits then spaced hex .digit rest
    else if b = Literal.underscore then seen = .digit && spaced hex .underscore rest
    else seen ≠ .underscore && spaced hex .other rest

/-- A base mark counts as a digit. -/
def wellSpaced : Text → Bool
  | z :: m :: rest =>
    match if z = zero then base? m else none with
    | some base => spaced (base = 16) .digit rest
    | none => spaced false .start (z :: m :: rest)
  | s => spaced false .start s

/-- The base, and the digits to be read in it. A letter marks a base only if something follows it;
any other leading zero marks base 8. -/
def detect : Text → UInt64 × Text
  | [] => (10,[])
  | z :: rest =>
    if z ≠ zero then (10,z :: rest)
    else
      match rest with
      | m :: b :: digits =>
        match base? m with
        | some base => (UInt64.ofNat base,b :: digits)
        | none => (8,m :: b :: digits)
      | digits => (8,digits)

def convert (s : Text) : Except Fault UInt64 :=
  if s = [] then .error .malformed
  else
    match scan (detect s).1 0 false (detect s).2 with
    | .error e => .error e
    | .ok (value,noted) => if noted && !wellSpaced s then .error .malformed else .ok value

/-- A zero that neither marks a base nor stands before zeros only. -/
def leadingZero : Text → Bool
  | z :: m :: rest => z = zero && base? m = none && (z :: m :: rest).any (· ∉ utf8 "0_")
  | _ => false

def read (s : Text) : Except Fault UInt64 :=
  if leadingZero s then .error .malformed else convert s

theorem toNat_cutoff {base : UInt64} (h : 2 ≤ base.toNat) :
    (cutoff base).toNat = 0xFFFFFFFFFFFFFFFF / base.toNat + 1 := by
  have hdiv : 0xFFFFFFFFFFFFFFFF / base.toNat ≤ 0xFFFFFFFFFFFFFFFF / 2 :=
    Nat.div_le_div_left h (by decide)
  rw [cutoff, UInt64.toNat_add, UInt64.toNat_div]
  apply Nat.mod_eq_of_lt
  exact Nat.lt_of_le_of_lt (Nat.add_le_add_right hdiv 1) (by decide)

theorem cutoff_le_iff {base value : UInt64} (h : 2 ≤ base.toNat) :
    cutoff base ≤ value ↔ bound ≤ value.toNat * base.toNat := by
  rw [UInt64.le_iff_toNat_le, toNat_cutoff h, Nat.succ_le_iff,
    Nat.div_lt_iff_lt_mul (by omega), bound]
  exact Nat.lt_iff_add_one_le

/-- Below the cutoff the product is exact, and a sum that wraps around is less than its first
term. -/
theorem toNat_step {base value : UInt64} {d : Nat} (h : value.toNat * base.toNat < bound)
    (hd : d < bound) :
    (value * base + UInt64.ofNat d < value * base ↔ bound ≤ value.toNat * base.toNat + d) ∧
    (value.toNat * base.toNat + d < bound →
      (value * base + UInt64.ofNat d).toNat = value.toNat * base.toNat + d) := by
  have hmul : (value * base).toNat = value.toNat * base.toNat := by
    rw [UInt64.toNat_mul]
    exact Nat.mod_eq_of_lt h
  have hofNat : (UInt64.ofNat d).toNat = d := UInt64.toNat_ofNat_of_lt' hd
  rw [UInt64.lt_iff_toNat_lt, UInt64.toNat_add, hmul, hofNat]
  generalize value.toNat * base.toNat = product at h
  simp only [bound] at h hd ⊢
  omega

/-- In 64 bits digits are read as they are without a bound. -/
theorem scan_eq {base value : UInt64} (h : 2 ≤ base.toNat) (noted : Bool) (t : Text) :
    scan base value noted t = (readDigits base.toNat value.toNat t).map fun v =>
      (UInt64.ofNat v,noted || t.contains underscore) := by
  induction t generalizing value noted with
  | nil =>
    change Except.ok (value,noted) = .ok (UInt64.ofNat value.toNat,noted || false)
    rw [UInt64.ofNat_toNat, Bool.or_false]
  | cons b rest ih =>
    rw [scan, readDigits]
    by_cases hb : b = underscore
    · subst hb
      simp [ih]
    · rw [if_neg hb, if_neg hb]
      have hcontains : (b :: rest).contains underscore = rest.contains underscore := by
        simp [Ne.symm hb]
      rw [hcontains]
      cases digit? b with
      | none => rfl
      | some d =>
        simp only []
        by_cases hd : base.toNat ≤ d
        · rw [if_pos hd, if_pos hd]
          rfl
        · rw [if_neg hd, if_neg hd]
          have hbase := base.toNat_lt
          by_cases hcut : bound ≤ value.toNat * base.toNat
          · rw [if_pos ((cutoff_le_iff h).2 hcut), if_pos (Nat.le_add_right_of_le hcut)]
            rfl
          · rw [if_neg fun hle => hcut ((cutoff_le_iff h).1 hle)]
            obtain ⟨hless,hexact⟩ := toNat_step (Nat.not_le.1 hcut)
              (show d < bound by simp only [bound]; omega)
            by_cases hsum : bound ≤ value.toNat * base.toNat + d
            · rw [if_pos (hless.2 hsum), if_pos hsum]
              rfl
            · rw [if_neg fun hlt => hsum (hless.1 hlt), if_neg hsum, ih, hexact (Nat.not_le.1 hsum)]

/-- Where digits could be read, an underscore is well placed after a digit exactly if it may come
next, and after another underscore exactly if it may not. -/
theorem spaced_eq {hex : Bool} {base v w : Nat} {t : Text}
    (hbase : ∀ b d, digit? b = some d → d < base →
      b ∈ decimalDigits ∨ hex = true ∧ b ∈ hexadecimalDigits)
    (h : readDigits base v t = .ok w) :
    spaced hex .digit t = separated true t ∧ spaced hex .underscore t = separated false t := by
  induction t generalizing v with
  | nil => exact ⟨rfl,rfl⟩
  | cons b rest ih =>
    by_cases hb : b = underscore
    · subst hb
      rw [readDigits, if_pos rfl] at h
      have hdecimal : underscore ∉ decimalDigits := by decide
      have hhexadecimal : underscore ∉ hexadecimalDigits := by decide
      simp [spaced, separated, hdecimal, hhexadecimal, ih h]
    · obtain ⟨d,hd,hl,-,h⟩ := (readDigits_cons_eq_ok_iff hb).1 h
      simp [spaced, separated, hb, hbase b d hd hl, ih h]

theorem spaced_start {hex : Bool} {t : Text} (h : t ≠ []) (ht : ∀ b ∈ t.head?, b = underscore ∨
      b ∈ decimalDigits) : spaced hex .start t = spaced hex .underscore t := by
  cases t with
  | nil => exact absurd rfl h
  | cons b rest =>
    rcases ht b rfl with rfl | hb
    · simp [spaced]
    · simp [spaced, hb]

/-- Without underscores there is nothing to be separated. -/
theorem separated_of_not_mem {next : Bool} {t : Text} (h : underscore ∉ t)
    (ht : next = true ∨ t ≠ []) : separated next t = true := by
  induction t generalizing next with
  | nil => simpa [separated] using ht
  | cons b rest ih =>
    simp only [List.mem_cons, not_or] at h
    rw [separated, if_neg (Ne.symm h.1)]
    exact ih h.2 (.inl rfl)

/-- Conversion gives what reading gives, if it finds the same number and judges the underscores
alike. -/
theorem convert_eq {s digits t : Text} {base base' : Nat} {next : Bool} (hs : s ≠ [])
    (hdetect : detect s = (UInt64.ofNat base,digits)) (hb : 2 ≤ base ∧ base < bound)
    (hread : readDigits base 0 digits = readDigits base' 0 t)
    (hmem : underscore ∈ digits ↔ underscore ∈ t) (ht : next = true ∨ t ≠ [])
    (hspaced : ∀ v, readDigits base' 0 t = .ok v → wellSpaced s = separated next t) :
    (convert s).map UInt64.toNat = readBase base' next t := by
  have hbase : (UInt64.ofNat base).toNat = base := UInt64.toNat_ofNat_of_lt' hb.2
  rw [convert, if_neg hs, hdetect, scan_eq (by rw [hbase]; exact hb.1), hbase, UInt64.toNat_zero,
    hread, readBase]
  cases hr : readDigits base' 0 t with
  | error e => rfl
  | ok v =>
    have hv : (UInt64.ofNat v).toNat = v :=
      UInt64.toNat_ofNat_of_lt' (readDigits_lt (by decide) hr)
    change Except.map UInt64.toNat (if (false || digits.contains underscore) && !wellSpaced s then _
      else .ok (UInt64.ofNat v)) = _
    rw [Bool.false_or, hspaced v hr]
    by_cases hu : underscore ∈ t
    · have hcontains : digits.contains underscore = true := by simpa using hmem.2 hu
      rw [hcontains, Bool.true_and]
      cases separated next t with
      | true => exact congrArg Except.ok hv
      | false => rfl
    · have hcontains : digits.contains underscore = false := by simpa using fun h => hu (hmem.1 h)
      rw [hcontains, separated_of_not_mem hu ht]
      exact congrArg Except.ok hv

theorem digit_mem {base d : Nat} {b : UInt8} (hb : base ≤ 10 ∨ base = 16) (hd : digit? b = some d)
    (hl : d < base) : b ∈ decimalDigits ∨ decide (base = 16) = true ∧ b ∈ hexadecimalDigits := by
  rcases hb with hb | rfl
  · exact .inl (spells_decimal.digit?_iff.1 ⟨hd,by omega⟩).1
  · exact .inr ⟨rfl,(spells_hexadecimal.digit?_iff.1 ⟨hd,hl⟩).1⟩

/-- After a leading zero that marks no base, or none, the whole text is judged. -/
theorem wellSpaced_decimal {b : UInt8} {rest : Text} {v : Nat}
    (hnone : b = zero → ∀ m ∈ rest.head?, base? m = none)
    (h : readDigits 10 0 (b :: rest) = .ok v) :
    wellSpaced (b :: rest) = separated false (b :: rest) := by
  have hwhole : wellSpaced (b :: rest) = spaced false .start (b :: rest) := by
    cases rest with
    | nil => rfl
    | cons m rest =>
      by_cases hb : b = zero
      · simp [wellSpaced, hnone hb m rfl]
      · simp [wellSpaced, hb]
  have hhead : ∀ c ∈ (b :: rest).head?, c = underscore ∨ c ∈ decimalDigits := by
    rintro _ ⟨⟩
    by_cases hb : b = underscore
    · exact .inl hb
    · obtain ⟨d,hd,hl,-⟩ := (readDigits_cons_eq_ok_iff hb).1 h
      exact .inr (spells_decimal.digit?_iff.1 ⟨hd,hl⟩).1
  rw [hwhole, spaced_start (by simp) hhead]
  exact (spaced_eq (fun _ _ hd hl => .inl (spells_decimal.digit?_iff.1 ⟨hd,hl⟩).1) h).2

theorem readDigits_zeros {base : Nat} {t : Text} (hb : 0 < base)
    (h : ∀ b ∈ t, b = zero ∨ b = underscore) : readDigits base 0 t = .ok 0 := by
  induction t with
  | nil => rfl
  | cons b rest ih =>
    have hrest := ih fun c hc => h c (by simp [hc])
    rcases h b (by simp) with rfl | rfl
    · refine (readDigits_cons_eq_ok_iff (by decide)).2 ⟨0,by decide,hb,?_,?_⟩
      · simp [bound]
      · simpa using hrest
    · rw [readDigits, if_pos rfl, hrest]

theorem map_read_of_ne_zero {b : UInt8} (hb : b ≠ zero) (rest : Text) :
    (read (b :: rest)).map UInt64.toNat = readBase 10 false (b :: rest) := by
  have hleading : leadingZero (b :: rest) = false := by
    cases rest <;> simp [leadingZero, hb]
  have hdetect : detect (b :: rest) = (UInt64.ofNat 10,b :: rest) := by simp [detect, hb]
  rw [read, hleading, if_neg (by simp)]
  exact convert_eq (by simp) hdetect (by decide) rfl Iff.rfl (.inr (by simp)) fun v hv =>
    wellSpaced_decimal (fun he => absurd he hb) hv

theorem map_read_of_base? {m : UInt8} {base : Nat} (hm : base? m = some base) {digits : Text}
    (hne : digits ≠ []) :
    (read (zero :: m :: digits)).map UInt64.toNat = readBase base true digits := by
  obtain ⟨b,rest,rfl⟩ := List.exists_cons_of_ne_nil hne
  obtain ⟨letters,bytes,hmarks,-⟩ := Marks.of_base? hm
  have hbase : (2 ≤ base ∧ base < bound) ∧ (base ≤ 10 ∨ base = 16) := by cases hmarks <;> decide
  rw [read, show leadingZero (zero :: m :: b :: rest) = false by simp [leadingZero, hm],
    if_neg (by simp)]
  refine convert_eq (by simp) (by simp [detect, hm]) hbase.1 rfl Iff.rfl (.inl rfl) fun v hv => ?_
  have hwhole : wellSpaced (zero :: m :: b :: rest) = spaced (base = 16) .digit (b :: rest) := by
    simp [wellSpaced, hm]
  rw [hwhole]
  exact (spaced_eq (fun _ _ hd hl => digit_mem hbase.2 hd hl) hv).1

/-- Zeros are read in base 8, and have the same value there. -/
theorem map_read_of_zeros {m : UInt8} {rest : Text}
    (h : ∀ b ∈ m :: rest, b = zero ∨ b = underscore) :
    (read (zero :: m :: rest)).map UInt64.toNat = readBase 10 false (zero :: m :: rest) := by
  have hall : ∀ b ∈ zero :: m :: rest, b = zero ∨ b = underscore := by
    simpa using h
  have hnone := base?_eq_none_of_zero_or_underscore (h m (by simp))
  have hleading : leadingZero (zero :: m :: rest) = false := by
    have hbytes : ∀ b, b = zero ∨ b = underscore → b ∈ utf8 "0_" := by
      rintro b (rfl | rfl) <;> decide
    simp only [leadingZero, hnone]
    simpa using fun b hb => hbytes b (hall b hb)
  have hdetect : detect (zero :: m :: rest) = (UInt64.ofNat 8,m :: rest) := by
    cases rest <;> simp [detect, hnone]
  rw [read, hleading, if_neg (by simp)]
  refine convert_eq (by simp) hdetect (by decide) ?_ ?_ (.inr (by simp)) fun v hv => ?_
  · rw [readDigits_zeros (by decide) h, readDigits_zeros (by decide) hall]
  · simp [show underscore ≠ zero by decide]
  · exact wellSpaced_decimal (fun _ c hc => by cases hc; exact hnone) hv

/-- A mark with nothing after it is a digit that base 8 does not have. -/
theorem read_mark {m : UInt8} {base : Nat} (h : base? m = some base) :
    read [zero,m] = .error .malformed := by
  obtain ⟨letters,bytes,hmarks,hmem⟩ := Marks.of_base? h
  have hall : ∀ m ∈ letters, read [zero,m] = .error .malformed := by
    cases hmarks <;> decide +kernel
  exact hall m hmem

theorem read_leadingZero {m : UInt8} {rest : Text} (hm : base? m = none)
    (h : ∃ b ∈ m :: rest, b ≠ zero ∧ b ≠ underscore) :
    read (zero :: m :: rest) = .error .malformed := by
  have hbytes : ∀ b, b ∈ utf8 "0_" → b = zero ∨ b = underscore :=
    Text.forall_byte (by decide +kernel)
  obtain ⟨b,hb,hz,hu⟩ := h
  have hleading : leadingZero (zero :: m :: rest) = true := by
    simp only [leadingZero, hm, decide_true, Bool.true_and, List.any_eq_true, decide_eq_true_eq]
    refine ⟨b,List.mem_cons_of_mem _ hb,fun hmem => ?_⟩
    rcases hbytes b hmem with he | he
    · exact hz he
    · exact hu he
  rw [read, hleading, if_pos rfl]

/-- The two steps read what a literal is read as, and fail as it does. -/
theorem map_read (s : Text) : (read s).map UInt64.toNat = Literal.read s := by
  match s with
  | [] => rfl
  | [z] =>
    by_cases hz : z = zero
    · subst hz
      rfl
    · exact map_read_of_ne_zero hz []
  | z :: m :: rest =>
    by_cases hz : z = zero
    · subst hz
      rw [Literal.read, if_pos rfl]
      cases hm : base? m with
      | some base =>
        by_cases hne : rest = []
        · subst hne
          rw [read_mark hm]
          rfl
        · simp only [hne, if_false]
          exact map_read_of_base? hm hne
      | none =>
        by_cases hall : (m :: rest).all (fun b => b = zero ∨ b = underscore) = true
        · simp only [hall, if_true]
          exact map_read_of_zeros (by simpa using hall)
        · have hother : ∃ b ∈ m :: rest, b ≠ zero ∧ b ≠ underscore := by
            simpa only [List.all_eq_true, decide_eq_true_eq, not_forall, not_or, exists_prop]
              using hall
          rw [read_leadingZero hm hother]
          simp only [hall]
          rfl
    · rw [map_read_of_ne_zero hz, Literal.read, if_neg hz]

end Fixed

/-- Reading succeeds exactly on the literals whose value is below the bound, and gives that value;
in 64 bits it gives the same, so that no value has wrapped around. A leading zero that marks no base
is not taken for the mark of base 8: it stands before zeros only. -/
theorem read_accepts_literals (s : Text) :
    ((∃ v, read s = .ok v) ↔ s ∈ literals ∧ value s < 0x10000000000000000) ∧
    (∀ v, read s = .ok v → v = value s) ∧
    (Fixed.read s).map UInt64.toNat = read s ∧
    ∀ m rest, s = utf8 "0" ++ m :: rest → m ∉ utf8 "bBoOxX" → (∃ b ∈ s, b ∉ utf8 "0_") →
      read s = .error .malformed := by
  have hvalue : ∀ v, read s = .ok v ↔ (s ∈ literals ∧ v = value s) ∧ v < bound := fun v => by
    rw [read_eq_ok_iff, denotes_iff]
  refine ⟨?_,fun v hv => ((hvalue v).1 hv).1.2,Fixed.map_read s,?_⟩
  · constructor
    · rintro ⟨v,hv⟩
      obtain ⟨⟨hs,rfl⟩,hlt⟩ := (hvalue v).1 hv
      exact ⟨hs,hlt⟩
    · rintro ⟨hs,hlt⟩
      exact ⟨value s,(hvalue _).2 ⟨⟨hs,rfl⟩,hlt⟩⟩
  · rintro m rest rfl hm ⟨b,hb,hother⟩
    have hnone : base? m = none := by
      have hall : ∀ m, m ∉ utf8 "bBoOxX" → base? m = none := Text.forall_byte (by decide +kernel)
      exact hall m hm
    have hbytes : zero ∈ utf8 "0_" ∧ underscore ∈ utf8 "0_" := by decide
    have hrest : ∃ b ∈ m :: rest, b ≠ zero ∧ b ≠ underscore := by
      refine ⟨b,?_,fun he => hother (he ▸ hbytes.1),fun he => hother (he ▸ hbytes.2)⟩
      exact (List.mem_cons.1 hb).resolve_left fun he => hother (he ▸ hbytes.1)
    rw [← Fixed.map_read]
    exact congrArg _ (Fixed.read_leadingZero hnone hrest)

theorem read_accepts_literals_edges :
    utf8 "0x_ffff_FFFF_ffff_FFFF" ∈ literals ∧
    value (utf8 "0x_ffff_FFFF_ffff_FFFF") = 18446744073709551615 ∧
    (∀ v, read (utf8 "18446744073709551616") ≠ .ok v) ∧
    read (utf8 "0_017") = .error .malformed := by
  have hgreatest : read (utf8 "0x_ffff_FFFF_ffff_FFFF") = .ok 18446744073709551615 := rfl
  obtain ⟨haccepts,hvalue,-,-⟩ := read_accepts_literals (utf8 "0x_ffff_FFFF_ffff_FFFF")
  refine ⟨(haccepts.1 ⟨_,hgreatest⟩).1,(hvalue _ hgreatest).symm,fun v hv => ?_,?_⟩
  · have hlt := ((read_accepts_literals _).1.1 ⟨v,hv⟩).2
    exact absurd hlt (by decide +kernel)
  · exact (read_accepts_literals _).2.2.2 underscore (utf8 "017") rfl (by decide)
      ⟨0x31,by decide,by decide⟩

end Asm18.Literal
