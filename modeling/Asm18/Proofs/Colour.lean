import Mathlib.Data.List.Forall2
import Asm18.Reporter
import Asm18.Proofs.Wording

/-! Taking the colour out of a text. Reports are coloured by sequences that are put whole between
their parts, so that taking all sequences out leaves the report without colour. -/
namespace Asm18

namespace Colour

def escape : UInt8 := 0x1B

/-- The text without its escape sequences, each from `ESC [` to the next `m`. -/
def strip : Text → Text
  | [] => []
  | b :: rest =>
    if b = escape ∧ rest.head? = some 0x5B ∧ 0x6D ∈ rest then
      strip ((rest.dropWhile fun c => c ≠ 0x6D).drop 1)
    else b :: strip rest
termination_by t => t.length
decreasing_by
  · have hle := (List.dropWhile_suffix (fun c => decide (c ≠ 0x6D)) (l := rest)).length_le
    simp only [List.length_drop, List.length_cons]
    omega
  · simp

@[simp] theorem strip_nil : strip [] = [] := by rw [strip]

theorem strip_cons_of_ne {b : UInt8} (h : b ≠ escape) (rest : Text) :
    strip (b :: rest) = b :: strip rest := by
  rw [strip, if_neg fun hb => h hb.1]

theorem strip_attributes_append {codes : String} (h : 0x6D ∉ utf8 codes) (rest : Text) :
    strip (attributes codes ++ rest) = strip rest := by
  have hsequence : attributes codes ++ rest =
      escape :: (utf8 "[" ++ utf8 codes ++ 0x6D :: rest) := by
    simp only [attributes, List.append_assoc, List.cons_append, List.nil_append]
    rfl
  have hbracket : 0x6D ∉ utf8 "[" := by decide
  have hinside : ∀ c ∈ utf8 "[" ++ utf8 codes, decide (c ≠ 0x6D) = true := by
    intro c hc
    apply decide_eq_true
    rcases List.mem_append.1 hc with hc | hc
    · exact fun he => hbracket (he ▸ hc)
    · exact fun he => h (he ▸ hc)
  have hmark : (0x6D : UInt8) ∈ utf8 "[" ++ utf8 codes ++ 0x6D :: rest := by simp
  rw [hsequence, strip, if_pos ⟨rfl,rfl,hmark⟩, List.dropWhile_append_of_pos hinside]
  rfl

/-- The text is the plain one with whole sequences put into it. -/
def Shows (t plain : Text) : Prop := ∀ rest, strip (t ++ rest) = plain ++ strip rest

namespace Shows

variable {s t p q : Text}

theorem strip_eq (h : Shows t p) : strip t = p := by
  have hend := h []
  rwa [strip_nil, List.append_nil, List.append_nil] at hend

theorem of_plain (h : escape ∉ t) : Shows t t := by
  intro rest
  induction t with
  | nil => rfl
  | cons b t ih =>
    rw [List.mem_cons, not_or] at h
    rw [List.cons_append, strip_cons_of_ne (Ne.symm h.1), ih h.2, List.cons_append]

theorem attributes {codes : String} (h : 0x6D ∉ utf8 codes) : Shows (Colour.attributes codes) [] :=
  strip_attributes_append h

theorem append (hs : Shows s p) (ht : Shows t q) : Shows (s ++ t) (p ++ q) := by
  intro rest
  rw [List.append_assoc, hs, ht, List.append_assoc]

theorem flatten {ss ps : List Text} (h : List.Forall₂ Shows ss ps) :
    Shows ss.flatten ps.flatten := by
  induction h with
  | nil => exact of_plain (by simp)
  | cons hs _ ih =>
    rw [List.flatten_cons, List.flatten_cons]
    exact hs.append ih

end Shows
end Colour

open Colour

namespace Reporter

variable (r : Reporter)

/-- The same reporter without colour. -/
def plain : Reporter := { r with colour := false }

variable {r}

end Reporter
end Asm18
