import Asm18.Labels

/-! The first pass, told by the lines that carry each label. The table binds a label to the last
such line, and there are no duplicates exactly if every label is carried by one line only. -/
namespace Asm18

/-- The line of code at address `k` carries the label. -/
def Carries (code : List CodeLine) (k : Nat) (name : Text) : Prop :=
  ∃ c, code[k]? = some c ∧ c.statement.label = some name

@[simp] theorem not_carries_nil (k : Nat) (name : Text) : ¬ Carries [] k name := by
  simp [Carries]

@[simp] theorem carries_cons_zero {c : CodeLine} {code : List CodeLine} {name : Text} :
    Carries (c :: code) 0 name ↔ c.statement.label = some name := by
  simp [Carries]

@[simp] theorem carries_cons_succ {c : CodeLine} {code : List CodeLine} {k : Nat} {name : Text} :
    Carries (c :: code) (k + 1) name ↔ Carries code k name := by
  simp [Carries]

theorem Carries.lt_length {code : List CodeLine} {k : Nat} {name : Text}
    (h : Carries code k name) : k < code.length := by
  obtain ⟨c,hc,-⟩ := h
  exact (List.getElem?_eq_some_iff.1 hc).1

theorem carries_append_iff {a b : List CodeLine} {k : Nat} {name : Text} :
    Carries (a ++ b) k name ↔ Carries a k name ∨ ∃ i, k = a.length + i ∧ Carries b i name := by
  by_cases hk : k < a.length
  · have hright : ¬ ∃ i, k = a.length + i ∧ Carries b i name := by
      intro h
      obtain ⟨i,hi,-⟩ := h
      omega
    rw [or_iff_left hright, Carries, List.getElem?_append_left hk, Carries]
  · have hleft : ¬ Carries a k name := fun h => hk h.lt_length
    obtain ⟨i,rfl⟩ := Nat.exists_eq_add_of_le (Nat.not_lt.1 hk)
    rw [or_iff_right hleft]
    simp [Carries, List.getElem?_append_right]

namespace Labels

theorem mem_sorted_iff {ls : Labels} {name : Text} {a : Address} :
    (name,a) ∈ ls.sorted ↔ ls.get? name = some a := by
  rw [sorted, List.mem_mergeSort, Table.get?_eq_some_iff]

/-- The labels that lines carry, in the order of the lines. -/
def carried (code : List CodeLine) : List Text := code.filterMap fun c => c.statement.label

@[simp] theorem carried_nil : carried [] = [] := rfl

theorem carried_cons_none {c : CodeLine} {code : List CodeLine} (h : c.statement.label = none) :
    carried (c :: code) = carried code := by
  simp [carried, h]

theorem carried_cons_some {c : CodeLine} {code : List CodeLine} {name : Text}
    (h : c.statement.label = some name) : carried (c :: code) = name :: carried code := by
  simp [carried, h]

@[simp] theorem carried_append (a b : List CodeLine) :
    carried (a ++ b) = carried a ++ carried b := by
  simp [carried]

theorem mem_carried_iff {code : List CodeLine} {name : Text} :
    name ∈ carried code ↔ ∃ k, Carries code k name := by
  simp only [carried, List.mem_filterMap, Carries]
  constructor
  · rintro ⟨c,hc,hn⟩
    obtain ⟨k,hk⟩ := List.mem_iff_getElem?.1 hc
    exact ⟨k,c,hk,hn⟩
  · rintro ⟨k,c,hk,hn⟩
    exact ⟨c,List.mem_of_getElem? hk,hn⟩

/-- Labels are distinct exactly if no two lines carry the same one. -/
theorem nodup_carried_iff {code : List CodeLine} : (carried code).Nodup ↔
    ∀ i j name, Carries code i name → Carries code j name → i = j := by
  induction code with
  | nil => simp
  | cons c code ih =>
    cases hl : c.statement.label with
    | none =>
      rw [carried_cons_none hl, ih]
      constructor
      · intro h i j name hi hj
        rcases i with _ | i
        · simp [hl] at hi
        · rcases j with _ | j
          · simp [hl] at hj
          · rw [h i j name (carries_cons_succ.1 hi) (carries_cons_succ.1 hj)]
      · intro h i j name hi hj
        have hs := h (i + 1) (j + 1) name (carries_cons_succ.2 hi) (carries_cons_succ.2 hj)
        omega
    | some first =>
      rw [carried_cons_some hl, List.nodup_cons, ih, mem_carried_iff]
      constructor
      · rintro ⟨hn,h⟩ i j name hi hj
        rcases i with _ | i <;> rcases j with _ | j
        · rfl
        · rw [carries_cons_zero, hl, Option.some.injEq] at hi
          subst hi
          exact absurd ⟨j,carries_cons_succ.1 hj⟩ hn
        · rw [carries_cons_zero, hl, Option.some.injEq] at hj
          subst hj
          exact absurd ⟨i,carries_cons_succ.1 hi⟩ hn
        · rw [h i j name (carries_cons_succ.1 hi) (carries_cons_succ.1 hj)]
      · intro h
        refine ⟨?_,fun i j name hi hj => ?_⟩
        · rintro ⟨k,hk⟩
          have h0 := h 0 (k + 1) first (carries_cons_zero.2 hl) (carries_cons_succ.2 hk)
          omega
        · have hs := h (i + 1) (j + 1) name (carries_cons_succ.2 hi) (carries_cons_succ.2 hj)
          omega

theorem duplicatesFrom_eq_nil_iff {seen : Table Text Int} {code : List CodeLine} :
    duplicatesFrom seen code = [] ↔
      (carried code).Nodup ∧ ∀ name ∈ carried code, seen.get? name = none := by
  induction code generalizing seen with
  | nil => simp [duplicatesFrom]
  | cons c code ih =>
    cases hl : c.statement.label with
    | none => rw [duplicatesFrom, hl, carried_cons_none hl, ih]
    | some first =>
      simp only [duplicatesFrom, hl, carried_cons_some hl, List.nodup_cons, List.mem_cons,
        forall_eq_or_imp]
      cases hf : seen.get? first with
      | some line => simp
      | none =>
        simp only [ih, Table.get?_insert, true_and]
        constructor
        · rintro ⟨hnd,hall⟩
          have hn : first ∉ carried code := by
            intro hm
            simpa using hall first hm
          refine ⟨⟨hn,hnd⟩,fun name hm => ?_⟩
          have hne : name ≠ first := fun he => hn (he ▸ hm)
          simpa [hne] using hall name hm
        · rintro ⟨⟨hn,hnd⟩,hall⟩
          refine ⟨hnd,fun name hm => ?_⟩
          have hne : name ≠ first := fun he => hn (he ▸ hm)
          simpa [hne] using hall name hm

theorem duplicatesFrom_empty_eq_nil_iff {code : List CodeLine} :
    duplicatesFrom ∅ code = [] ↔ (carried code).Nodup := by
  simp [duplicatesFrom_eq_nil_iff]

/-- A label that no line carries keeps what it was bound to. -/
theorem get?_bindFrom_of_not_carries {k : Nat} {ls : Labels} {code : List CodeLine} {name : Text}
    (h : ∀ j, ¬ Carries code j name) : (bindFrom k ls code).get? name = ls.get? name := by
  induction code generalizing k ls with
  | nil => rfl
  | cons c code ih =>
    have ht : ∀ j, ¬ Carries code j name := fun j hj => h (j + 1) (carries_cons_succ.2 hj)
    cases hl : c.statement.label with
    | none => rw [bindFrom, hl, ih ht]
    | some first =>
      have hne : name ≠ first := by
        rintro rfl
        exact h 0 (carries_cons_zero.2 hl)
      rw [bindFrom, hl, ih ht, Table.get?_insert, if_neg hne]

/-- A label is bound to the address of the last line that carries it. -/
theorem get?_bindFrom_of_last {k j : Nat} {ls : Labels} {code : List CodeLine} {name : Text}
    (hj : Carries code j name) (hl : ∀ i, Carries code i name → i ≤ j) :
    (bindFrom k ls code).get? name = some (Int64.ofNat (k + j)) := by
  induction code generalizing k j ls with
  | nil => simp at hj
  | cons c code ih =>
    cases j with
    | zero =>
      have hn : ∀ i, ¬ Carries code i name := by
        intro i hi
        have hle := hl (i + 1) (carries_cons_succ.2 hi)
        omega
      rw [bindFrom, carries_cons_zero.1 hj, get?_bindFrom_of_not_carries hn]
      simp
    | succ j =>
      have ht : ∀ i, Carries code i name → i ≤ j := by
        intro i hi
        have hle := hl (i + 1) (carries_cons_succ.2 hi)
        omega
      rw [bindFrom, show k + (j + 1) = k + 1 + j by omega]
      split
      · exact ih (carries_cons_succ.1 hj) ht
      · exact ih (carries_cons_succ.1 hj) ht

/-- What a label is bound to in the end, it was bound to before or is the address of a line that
carries it. -/
theorem carries_of_get?_bindFrom {k : Nat} {ls : Labels} {code : List CodeLine} {name : Text}
    {a : Address} (h : (bindFrom k ls code).get? name = some a) :
    ls.get? name = some a ∨ ∃ j, Carries code j name ∧ a = Int64.ofNat (k + j) := by
  induction code generalizing k ls with
  | nil => exact .inl h
  | cons c code ih =>
    have hlater : (∃ j, Carries code j name ∧ a = Int64.ofNat (k + 1 + j)) →
        ∃ j, Carries (c :: code) j name ∧ a = Int64.ofNat (k + j) := by
      intro hj
      obtain ⟨j,hj,ha⟩ := hj
      exact ⟨j + 1,carries_cons_succ.2 hj,by rw [ha, show k + (j + 1) = k + 1 + j by omega]⟩
    cases hl : c.statement.label with
    | none =>
      rw [bindFrom, hl] at h
      exact (ih h).imp_right hlater
    | some first =>
      rw [bindFrom, hl] at h
      rcases ih h with hs | hj
      · rw [Table.get?_insert] at hs
        split at hs
        · rename_i hname
          cases hs
          exact .inr ⟨0,by simp [hl, hname],rfl⟩
        · exact .inl hs
      · exact .inr (hlater hj)

theorem carries_of_get?_bindFrom_empty {code : List CodeLine} {name : Text} {a : Address}
    (h : (bindFrom 0 ∅ code).get? name = some a) :
    ∃ j, Carries code j name ∧ a = Int64.ofNat j := by
  rcases carries_of_get?_bindFrom h with hn | hj
  · cases hn
  · simpa only [Nat.zero_add] using hj

/-- The table depends on the labels of the lines only. -/
theorem bindFrom_congr {k : Nat} {ls : Labels} {a b : List CodeLine}
    (h : a.map (·.statement.label) = b.map (·.statement.label)) :
    bindFrom k ls a = bindFrom k ls b := by
  induction a generalizing b k ls with
  | nil =>
    rw [List.map_nil, eq_comm, List.map_eq_nil_iff] at h
    rw [h]
  | cons c a ih =>
    obtain ⟨d,b,rfl,hd,hb⟩ := List.map_eq_cons_iff.1 h.symm
    have hlabel : d.statement.label = c.statement.label := hd
    rw [bindFrom, bindFrom, hlabel]
    cases c.statement.label with
    | none => exact ih hb.symm
    | some name => exact ih hb.symm

/-- The table of a program with distinct labels. -/
theorem get?_bindFrom_empty_eq_some_iff {code : List CodeLine} (h : (carried code).Nodup)
    {name : Text} {a : Address} : (bindFrom 0 ∅ code).get? name = some a ↔
      ∃ j, Carries code j name ∧ a = Int64.ofNat j := by
  have hone := nodup_carried_iff.1 h
  have hsome : ∀ j, Carries code j name →
      (bindFrom 0 ∅ code).get? name = some (Int64.ofNat j) := by
    intro j hj
    rw [get?_bindFrom_of_last hj fun i hi => Nat.le_of_eq (hone i j name hi hj), Nat.zero_add]
  constructor
  · exact carries_of_get?_bindFrom_empty
  · rintro ⟨j,hj,rfl⟩
    exact hsome j hj

end Labels
end Asm18
