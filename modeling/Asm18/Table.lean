/-! Finite maps as lists of entries with distinct keys. The order of the entries carries no
meaning: a table is seen through `get?`. -/
namespace Asm18

structure Table (κ α : Type) where
  entries : List (κ × α)
  nodup_keys : (entries.map Prod.fst).Nodup

namespace Table

variable {κ α : Type}

def empty : Table κ α := ⟨[],List.nodup_nil⟩

instance : EmptyCollection (Table κ α) := ⟨empty⟩

instance : Inhabited (Table κ α) := ⟨empty⟩

def size (t : Table κ α) : Nat := t.entries.length

theorem nodup_keys_filter {es : List (κ × α)} (h : (es.map Prod.fst).Nodup)
    (p : κ × α → Bool) : ((es.filter p).map Prod.fst).Nodup :=
  h.sublist (List.filter_sublist.map Prod.fst)

variable [DecidableEq κ]

def get? (t : Table κ α) (k : κ) : Option α := t.entries.lookup k

/-- Binds `k` to `a`, in place of what it was bound to before. -/
def insert (t : Table κ α) (k : κ) (a : α) : Table κ α where
  entries := (k,a) :: t.entries.filter fun e => e.1 ≠ k
  nodup_keys := by
    simp only [List.map_cons, List.nodup_cons]
    refine ⟨?_,nodup_keys_filter t.nodup_keys _⟩
    simp

/-- The table of a list of bindings, of which the last one for a key counts. -/
def ofList (bindings : List (κ × α)) : Table κ α :=
  bindings.foldl (fun t b => t.insert b.1 b.2) ∅

@[simp] theorem get?_empty (k : κ) : (∅ : Table κ α).get? k = none := rfl

theorem lookup_filter_ne (es : List (κ × α)) {j k : κ} (h : j ≠ k) :
    (es.filter fun e => e.1 ≠ k).lookup j = es.lookup j := by
  induction es with
  | nil => rfl
  | cons e es ih =>
    rcases e with ⟨i,a⟩
    by_cases hi : i = k
    · subst hi
      have hb : (j == i) = false := by simp [h]
      simpa [List.lookup_cons, hb] using ih
    · rw [List.filter_cons_of_pos (by simp [hi]), List.lookup_cons, List.lookup_cons, ih]

@[simp] theorem get?_insert (t : Table κ α) (j k : κ) (a : α) :
    (t.insert k a).get? j = if j = k then some a else t.get? j := by
  by_cases h : j = k
  · simp [get?, insert, h]
  · have hb : (j == k) = false := by simp [h]
    simp only [get?, insert, List.lookup_cons, hb, h, if_false]
    exact lookup_filter_ne t.entries h

theorem lookup_eq_some_iff {es : List (κ × α)} (h : (es.map Prod.fst).Nodup) {k : κ} {a : α} :
    es.lookup k = some a ↔ (k,a) ∈ es := by
  induction es with
  | nil => simp
  | cons e es ih =>
    rcases e with ⟨i,b⟩
    simp only [List.map_cons, List.nodup_cons, List.mem_map, not_exists, not_and] at h
    by_cases hk : k = i
    · subst hk
      have hn : (k,a) ∉ es := fun hm => h.1 _ hm rfl
      simp [hn, eq_comm]
    · have hb : (k == i) = false := by simp [hk]
      simp [List.lookup_cons, hb, hk, ih h.2]

theorem get?_eq_some_iff {t : Table κ α} {k : κ} {a : α} :
    t.get? k = some a ↔ (k,a) ∈ t.entries :=
  lookup_eq_some_iff t.nodup_keys

end Table
end Asm18
