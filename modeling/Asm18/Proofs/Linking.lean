import Asm18.Proofs.Assembly

/-! Linking. A branch holds a distance and no address, so a program keeps its words wherever it is
put: two sources that assemble also do so one after the other, the labels of the second moved past
the words of the first. -/
namespace Asm18

theorem toInt_ofNat_add {m i : Nat} (h : m + i < memoryWords) :
    (Int64.ofNat (m + i)).toInt = (Int64.ofNat i).toInt + m := by
  rw [toInt_ofNat_of_lt_memoryWords h, toInt_ofNat_of_lt_memoryWords (show i < memoryWords by omega)]
  omega

theorem displacement_shift {here there a b : Address} {n : Nat} {f : UInt32}
    (h0 : 0 ≤ here.toInt) (hhere : there.toInt = here.toInt + n) (h1 : there.toInt < memoryWords)
    (hb : b.toInt = a.toInt + n) (h : displacement here a = .ok f) :
    displacement there b = .ok f := by
  have hd : b.toInt - there.toInt = a.toInt - here.toInt := by omega
  simp only [memoryWords] at h1
  rw [displacement_eq_ok_iff (by omega) (by omega), hd]
  exact (displacement_eq_ok_iff h0 (by omega)).1 h

/-- Every label of the first table is in the second, `n` addresses further on. -/
def Labels.Shifted (n : Nat) (l₁ l₂ : Labels) : Prop :=
  ∀ name a, l₁.get? name = some a → ∃ b, l₂.get? name = some b ∧ b.toInt = a.toInt + n

/-- A statement keeps its word if it moves as far as the labels do. -/
theorem Statement.encode_shift {s : Statement} {n k : Nat} {l₁ l₂ : Labels} {w : Word}
    (hl : l₁.Shifted n l₂) (hk : k + n < memoryWords)
    (h : s.encode (Int64.ofNat k) l₁ = .ok w) : s.encode (Int64.ofNat (k + n)) l₂ = .ok w := by
  obtain ⟨i,f,hi,hf,rfl⟩ := encode_eq_ok_iff.1 h
  refine encode_eq_ok_iff.2 ⟨i,f,hi,?_,rfl⟩
  cases hclass : i.operand with
  | none => rwa [hclass] at hf
  | immediate => rwa [hclass] at hf
  | register => rwa [hclass] at hf
  | branch =>
    rw [hclass] at hf
    obtain ⟨name,a,ho,ha,hd⟩ := branchField_eq_ok_iff.1 hf
    obtain ⟨b,hb,hab⟩ := hl name a ha
    have hhere := toInt_ofNat_of_lt_memoryWords (show k < memoryWords by omega)
    have hthere := toInt_ofNat_of_lt_memoryWords hk
    refine branchField_eq_ok_iff.2 ⟨name,b,ho,hb,?_⟩
    exact displacement_shift (by omega) (by omega) (by omega) hab hd

namespace Labels

theorem nodup_carried_append {a b : List CodeLine} (ha : (carried a).Nodup)
    (hb : (carried b).Nodup) (hd : ∀ name ∈ carried a, name ∉ carried b) :
    (carried (a ++ b)).Nodup := by
  rw [carried_append, List.nodup_append]
  refine ⟨ha,hb,fun x hx y hy he => ?_⟩
  exact hd x hx (he ▸ hy)

/-- The table of two programs one after the other. -/
theorem get?_bindFrom_append {a b : List CodeLine} (hn : (carried (a ++ b)).Nodup)
    (hfits : a.length + b.length ≤ memoryWords) {name : Text} {x : Address} :
    (bindFrom 0 ∅ (a ++ b)).get? name = some x ↔ (bindFrom 0 ∅ a).get? name = some x ∨
      ∃ y, (bindFrom 0 ∅ b).get? name = some y ∧ x.toInt = y.toInt + a.length := by
  have hab := hn
  rw [carried_append, List.nodup_append] at hab
  have hmoved : ∀ i, Carries b i name →
      (x = Int64.ofNat (a.length + i) ↔ x.toInt = (Int64.ofNat i).toInt + a.length) := by
    intro i hi
    have hlt := hi.lt_length
    rw [← Int64.toInt_inj, toInt_ofNat_add (by omega)]
  simp only [get?_bindFrom_empty_eq_some_iff hn, get?_bindFrom_empty_eq_some_iff hab.1,
    get?_bindFrom_empty_eq_some_iff hab.2.1, carries_append_iff]
  constructor
  · intro h
    obtain ⟨j,hj | ⟨i,rfl,hi⟩,hx⟩ := h
    · exact .inl ⟨j,hj,hx⟩
    · exact .inr ⟨_,⟨i,hi,rfl⟩,(hmoved i hi).1 hx⟩
  · intro h
    rcases h with ⟨j,hj,hx⟩ | ⟨y,⟨i,hi,rfl⟩,hx⟩
    · exact ⟨j,.inl hj,hx⟩
    · exact ⟨_,.inr ⟨i,rfl,hi⟩,(hmoved i hi).2 hx⟩

theorem shifted_append_left {a b : List CodeLine} (hn : (carried (a ++ b)).Nodup)
    (hfits : a.length + b.length ≤ memoryWords) :
    (bindFrom 0 ∅ a).Shifted 0 (bindFrom 0 ∅ (a ++ b)) := by
  intro name x hx
  exact ⟨x,(get?_bindFrom_append hn hfits).2 (.inl hx),by omega⟩

theorem shifted_append_right {a b : List CodeLine} (hn : (carried (a ++ b)).Nodup)
    (hfits : a.length + b.length ≤ memoryWords) :
    (bindFrom 0 ∅ b).Shifted a.length (bindFrom 0 ∅ (a ++ b)) := by
  intro name y hy
  have hb := hn
  rw [carried_append, List.nodup_append] at hb
  obtain ⟨i,hi,rfl⟩ := (get?_bindFrom_empty_eq_some_iff hb.2.1).1 hy
  have hlt := hi.lt_length
  have hmoved := toInt_ofNat_add (show a.length + i < memoryWords by omega)
  exact ⟨_,(get?_bindFrom_append hn hfits).2 (.inr ⟨_,hy,hmoved⟩),hmoved⟩

theorem carried_map_later (n : Nat) (code : List CodeLine) :
    carried (code.map (CodeLine.later n)) = carried code := by
  simp [carried, List.filterMap_map, Function.comp_def]

theorem bindFrom_map_later {k n : Nat} {ls : Labels} {code : List CodeLine} :
    bindFrom k ls (code.map (CodeLine.later n)) = bindFrom k ls code :=
  bindFrom_congr (by simp [Function.comp_def])

end Labels

namespace Assembles

/-- The numbers of the lines do not matter to their words. -/
theorem map_later {code : List CodeLine} {ws : List Word} (n : Nat) (h : Assembles code ws) :
    Assembles (code.map (CodeLine.later n)) ws := by
  obtain ⟨hl,hall⟩ := encode_eq_map_ok_iff.1 h.encoded
  refine ⟨by simpa using h.fits,by simpa [Labels.carried_map_later] using h.nodup,?_⟩
  rw [encode_eq_map_ok_iff, Labels.bindFrom_map_later]
  refine ⟨by simpa using hl,fun k c w hc hw => ?_⟩
  rw [List.getElem?_map, Option.map_eq_some_iff] at hc
  obtain ⟨d,hd,rfl⟩ := hc
  exact hall k d w hd hw

theorem append {a b : List CodeLine} {u v : List Word} (ha : Assembles a u) (hb : Assembles b v)
    (hd : ∀ name ∈ Labels.carried a, name ∉ Labels.carried b)
    (hfits : a.length + b.length ≤ memoryWords) : Assembles (a ++ b) (u ++ v) := by
  have hn := Labels.nodup_carried_append ha.nodup hb.nodup hd
  obtain ⟨hu,halla⟩ := encode_eq_map_ok_iff.1 ha.encoded
  obtain ⟨hv,hallb⟩ := encode_eq_map_ok_iff.1 hb.encoded
  refine ⟨by simpa using hfits,hn,encode_eq_map_ok_iff.2 ⟨by simp [hu, hv],?_⟩⟩
  intro k c w hc hw
  have hk := (List.getElem?_eq_some_iff.1 hc).1
  rw [List.length_append] at hk
  -- The first program is not moved at all, and the second by the length of the first.
  by_cases hleft : k < a.length
  · rw [List.getElem?_append_left hleft] at hc
    rw [List.getElem?_append_left (by omega)] at hw
    have hstay := Statement.encode_shift (Labels.shifted_append_left hn hfits)
      (show k + 0 < memoryWords by omega) (halla k c w hc hw)
    rwa [Nat.add_zero] at hstay
  · obtain ⟨i,rfl⟩ := Nat.exists_eq_add_of_le' (Nat.not_lt.1 hleft)
    rw [List.getElem?_append_right (by omega), Nat.add_sub_cancel] at hc
    rw [List.getElem?_append_right (by omega), hu, Nat.add_sub_cancel] at hw
    exact Statement.encode_shift (Labels.shifted_append_right hn hfits) (by omega)
      (hallb i c w hc hw)

end Assembles

/-- Two sources that assemble, the first of them closed, have no label in common and fit the
memory together, assemble as one: the words stand one after the other, and the labels of the
second source are moved by the words of the first. -/
theorem assemble_append {on₁ on₂ on : Bool} {s₁ s₂ : Text} {w₁ w₂ : List Word}
    (hs : Source.Closed s₁) (h₁ : (assemble on₁ s₁).result = .ok w₁)
    (h₂ : (assemble on₂ s₂).result = .ok w₂)
    (hd : ∀ name, (assemble on₁ s₁).labels.get? name = none ∨
      (assemble on₂ s₂).labels.get? name = none)
    (hfits : w₁.length + w₂.length ≤ memoryWords) :
    (assemble on (s₁ ++ s₂)).result = .ok (w₁ ++ w₂) ∧
    ∀ name x, (assemble on (s₁ ++ s₂)).labels.get? name = some x ↔
      (assemble on₁ s₁).labels.get? name = some x ∨
      ∃ y, (assemble on₂ s₂).labels.get? name = some y ∧ x.toInt = y.toInt + w₁.length := by
  have ha := assemble_result_eq_ok_iff.1 h₁
  have hb := assemble_result_eq_ok_iff.1 h₂
  rw [ha.length_eq, hb.length_eq] at hfits
  have hnames : ∀ name ∈ Labels.carried (Source.code s₁),
      name ∉ Labels.carried (Source.code s₂) := by
    intro name hm₁ hm₂
    obtain ⟨i,hi⟩ := Labels.mem_carried_iff.1 hm₁
    obtain ⟨j,hj⟩ := Labels.mem_carried_iff.1 hm₂
    have hget₁ := (Labels.get?_bindFrom_empty_eq_some_iff ha.nodup).2 ⟨i,hi,rfl⟩
    have hget₂ := (Labels.get?_bindFrom_empty_eq_some_iff hb.nodup).2 ⟨j,hj,rfl⟩
    simpa [hget₁, hget₂] using hd name
  have hlater := hb.map_later (Source.lines s₁).length
  have hboth := ha.append hlater (by simpa [Labels.carried_map_later] using hnames)
    (by simpa using hfits)
  rw [← Source.code_append hs] at hboth
  refine ⟨assemble_result_eq_ok_iff.2 hboth,fun name x => ?_⟩
  simp only [labels_assemble, Source.code_append hs, ha.length_eq]
  rw [Labels.get?_bindFrom_append (Source.code_append hs s₂ ▸ hboth.nodup) (by simpa using hfits),
    Labels.bindFrom_map_later]

/-- Counts until its sum wraps around. -/
def counter : Text := utf8 "; count\nagain: addi #1\n brnz again\n"

/-- Branches both ways, and does not close its last line. -/
def blinker : Text := utf8 "start: ledl\n brz done\n br start\ndone: wait"

theorem assemble_append_counter_blinker :
    (assemble true (counter ++ blinker)).result =
      .ok ([9217, 143359] ++ [204800, 135170, 135166, 192512]) ∧
    (assemble true (counter ++ blinker)).labels.get? (utf8 "done") = some 5 := by
  have hs : Source.Closed counter := .inr ⟨utf8 "; count\nagain: addi #1\n brnz again",by decide⟩
  have h₁ : (assemble false counter).result = .ok [9217, 143359] := by decide +kernel
  have h₂ : (assemble false blinker).result = .ok [204800, 135170, 135166, 192512] := by decide +kernel
  have hlabel : (assemble false counter).labels.entries = [(utf8 "again",0)] := by decide +kernel
  have hd : ∀ name, (assemble false counter).labels.get? name = none ∨
      (assemble false blinker).labels.get? name = none := by
    intro name
    by_cases hname : name = utf8 "again"
    · right
      rw [hname]
      decide +kernel
    · left
      rw [Table.get?, hlabel]
      simp [hname]
  obtain ⟨hr,hl⟩ := assemble_append hs h₁ h₂ hd (by decide)
  refine ⟨hr,(hl _ _).2 (.inr ⟨3,?_,?_⟩)⟩
  · decide +kernel
  · decide

end Asm18
