import Asm18.Text.Basic

/-! Numbers as digits: decimal with a sign, and binary and hexadecimal filled up with zeros to a
least width. -/
namespace Asm18.Text

/-- The digits of `n` in base `b`, most significant first, letters in lower case. -/
def digits (b n : Nat) : Text := (Nat.toDigits b n).map Char.toUInt8

theorem digits_ne_nil (b n : Nat) : digits b n ≠ [] := by
  simp [digits, Nat.toDigits_ne_nil]

theorem digits_of_lt {b n : Nat} (h : n < b) : digits b n = [n.digitChar.toUInt8] := by
  rw [digits, Nat.toDigits_of_lt_base h]
  rfl

theorem digits_of_le {b n : Nat} (hb : 1 < b) (h : b ≤ n) :
    digits b n = digits b (n / b) ++ [(n % b).digitChar.toUInt8] := by
  rw [digits, Nat.toDigits_of_base_le hb h, List.map_append]
  rfl

/-- Numerals are made of the digits of their base. -/
theorem digits_subset {b : Nat} {bytes : Text} (hb : 1 < b)
    (h : ∀ d < b, d.digitChar.toUInt8 ∈ bytes) (n : Nat) : digits b n ⊆ bytes := by
  induction n using Nat.strongRecOn with
  | ind n ih =>
    by_cases hn : n < b
    · rw [digits_of_lt hn]
      simpa using h n hn
    · have hless : n / b < n := Nat.div_lt_self (by omega) hb
      have hdigit := h (n % b) (Nat.mod_lt n (by omega))
      rw [digits_of_le hb (by omega), List.append_subset]
      exact ⟨ih (n / b) hless,by simpa using hdigit⟩

def natural (n : Nat) : Text := digits 10 n

def decimal : Int → Text
  | .ofNat n => natural n
  | .negSucc n => 0x2D :: natural (n + 1)

@[simp] theorem decimal_natCast (n : Nat) : decimal n = natural n := rfl

def zeroFill (width : Nat) (t : Text) : Text := t.leftpad width 0x30

theorem length_zeroFill (width : Nat) (t : Text) :
    (zeroFill width t).length = max width t.length := by
  rw [zeroFill, List.length_leftpad]

def binary (width n : Nat) : Text := zeroFill width (digits 2 n)

theorem length_binary {width n : Nat} (h : (digits 2 n).length ≤ width) :
    (binary width n).length = width := by
  rw [binary, length_zeroFill, Nat.max_eq_left h]

/-- Hexadecimal digits with letters in upper case. -/
def hex (width n : Nat) : Text :=
  zeroFill width ((Nat.toDigits 16 n).map fun c => c.toUpper.toUInt8)

/-- Hexadecimal digits with letters in lower case. -/
def hexLower (width n : Nat) : Text := zeroFill width (digits 16 n)

end Asm18.Text
