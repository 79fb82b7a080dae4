import Mathlib.Data.List.Induction
import Asm18.Proofs.Passes

/-! The first pass line by line. One loop keeps two tables with opposite rules: of the lines that
carry a label the first is kept for the reports, and the last for the address. What the loop has noted
is true of the lines it has passed, and the two tables always have the same labels. -/
namespace Asm18

namespace Table

variable {κ α : Type} [DecidableEq κ]

theorem size_insert_of_none {t : Table κ α} {k : κ} (h : t.get? k = none) (a : α) :
    (t.insert k a).size = t.size + 1 := by
  have hall : ∀ e ∈ t.entries, e.1 ≠ k := by
    intro e he hk
    subst hk
    rw [get?_eq_some_iff.2 he] at h
    cases h
  have hfilter : (t.entries.filter fun e => e.1 ≠ k) = t.entries :=
    List.filter_eq_self.2 (by simpa using hall)
  rw [size, insert, List.length_cons, hfilter, size]

theorem length_filter_key_ne {es : List (κ × α)} (h : (es.map Prod.fst).Nodup) {k : κ} {a : α}
    (hk : (k,a) ∈ es) : (es.filter fun e => e.1 ≠ k).length + 1 = es.length := by
  induction es with
  | nil => cases hk
  | cons e es ih =>
    simp only [List.map_cons, List.nodup_cons, List.mem_map, not_exists, not_and] at h
    by_cases he : e.1 = k
    · have hall : ∀ x ∈ es, x.1 ≠ k := fun x hx hxk => h.1 x hx (hxk.trans he.symm)
      have hfilter : (es.filter fun e => e.1 ≠ k) = es :=
        List.filter_eq_self.2 (by simpa using hall)
      rw [List.filter_cons_of_neg (by simp [he]), hfilter, List.length_cons]
    · have hmem : (k,a) ∈ es := by
        rcases List.mem_cons.1 hk with rfl | hmem
        · exact absurd rfl he
        · exact hmem
      rw [List.filter_cons_of_pos (by simp [he]), List.length_cons, List.length_cons, ih h.2 hmem]

theorem size_insert_of_some {t : Table κ α} {k : κ} {b : α} (h : t.get? k = some b) (a : α) :
    (t.insert k a).size = t.size := by
  have hlen := length_filter_key_ne t.nodup_keys (get?_eq_some_iff.1 h)
  rw [size, size, insert, List.length_cons, hlen]

end Table

namespace LineRecord

/-- The label of a line of code. -/
def label? (r : LineRecord) : Option Text := if r.isCode then Statement.token r.label else none

theorem label?_eq_some_iff {r : LineRecord} {name : Text} :
    r.label? = some name ↔ r.isCode = true ∧ r.label = name ∧ name ≠ [] := by
  cases h : r.isCode <;> simp [label?, h, Statement.token_eq_some_iff]

theorem isSome_label? (r : LineRecord) : r.label?.isSome = (r.isCode && decide (r.label ≠ [])) := by
  by_cases hl : r.label = [] <;> cases h : r.isCode <;> simp [label?, Statement.token, h, hl]

end LineRecord

/-- The last line that carries the label stands after `n` lines of code. -/
def LastAt (rs : List LineRecord) (name : Text) (n : Nat) : Prop :=
  ∃ before r after, rs = before ++ r :: after ∧ r.label? = some name ∧
    (∀ m ∈ after, m.label? ≠ some name) ∧ n = before.countP LineRecord.isCode

theorem not_lastAt_nil (name : Text) (n : Nat) : ¬ LastAt [] name n := by
  rintro ⟨before,r,after,h,-⟩
  simp at h

/-- A list with one more element comes apart at that element, or where it came apart before. -/
theorem concat_eq_split_iff {rs before after : List LineRecord} {r m : LineRecord} :
    rs ++ [r] = before ++ m :: after ↔ rs = before ∧ r = m ∧ after = [] ∨
      ∃ rest, rs = before ++ m :: rest ∧ after = rest ++ [r] := by
  rcases List.eq_nil_or_concat after with rfl | ⟨rest,k,rfl⟩
  · simp
  · rw [List.concat_eq_append, ← List.cons_append, ← List.append_assoc]
    constructor
    · intro h
      obtain ⟨hlines,hl⟩ := List.append_inj' h rfl
      exact .inr ⟨rest,hlines,by rw [hl]⟩
    · rintro (⟨-,-,h⟩ | ⟨rest',rfl,h⟩)
      · simp at h
      · obtain ⟨rfl,hl⟩ := List.append_inj' h rfl
        rw [hl]

theorem lastAt_concat_of_eq {rs : List LineRecord} {r : LineRecord} {name : Text} {n : Nat}
    (h : r.label? = some name) :
    LastAt (rs ++ [r]) name n ↔ n = rs.countP LineRecord.isCode := by
  constructor
  · rintro ⟨before,m,after,hsplit,-,hafter,rfl⟩
    rcases concat_eq_split_iff.1 hsplit with ⟨rfl,-,-⟩ | ⟨rest,-,rfl⟩
    · rfl
    · exact absurd h (hafter r (by simp))
  · rintro rfl
    exact ⟨rs,r,[],rfl,h,by simp,rfl⟩

theorem lastAt_concat_of_ne {rs : List LineRecord} {r : LineRecord} {name : Text} {n : Nat}
    (h : r.label? ≠ some name) : LastAt (rs ++ [r]) name n ↔ LastAt rs name n := by
  constructor
  · rintro ⟨before,m,after,hsplit,hm,hafter,rfl⟩
    rcases concat_eq_split_iff.1 hsplit with ⟨-,rfl,-⟩ | ⟨rest,rfl,rfl⟩
    · exact absurd hm h
    · exact ⟨before,m,rest,rfl,hm,fun x hx => hafter x (by simp [hx]),rfl⟩
  · rintro ⟨before,m,after,rfl,hm,hafter,rfl⟩
    refine ⟨before,m,after ++ [r],by simp,hm,?_,rfl⟩
    simpa [or_imp, forall_and, h] using hafter

theorem exists_lastAt_iff {rs : List LineRecord} {name : Text} :
    (∃ n, LastAt rs name n) ↔ ∃ r ∈ rs, r.label? = some name := by
  induction rs using List.reverseRecOn with
  | nil => simp [not_lastAt_nil]
  | append_singleton rs r ih =>
    by_cases h : r.label? = some name
    · simp [lastAt_concat_of_eq h, h]
    · simp [lastAt_concat_of_ne h, h, ih, or_and_right, exists_or]

/-- The diagnostic of a line whose label an earlier line carries. It has the number and the statement of
the line and names the first of the earlier lines. -/
structure Repeats (earlier : List LineRecord) (r : LineRecord) (d : Diagnostic) : Prop where
  kind : d.kind = .duplicateLabel
  line : d.line = r.number
  statement : d.statement = r.statement
  message : ∃ name first, r.label? = some name ∧
    earlier.find? (fun e => e.label? = some name) = some first ∧
    d.message = utf8 "duplicate label " ++ name ++ utf8 " (first defined on line " ++
      Text.decimal first.number ++ utf8 ")"

/-- One diagnostic for each line whose label an earlier line carries, in the order of the lines. -/
inductive Repetitions : List LineRecord → List Diagnostic → Prop where
  | nil : Repetitions [] []
  | fresh {rs : List LineRecord} {ds : List Diagnostic} {r : LineRecord} : Repetitions rs ds →
      (∀ name, r.label? = some name → ∀ e ∈ rs, e.label? ≠ some name) →
      Repetitions (rs ++ [r]) ds
  | again {rs : List LineRecord} {ds : List Diagnostic} {r : LineRecord} {d : Diagnostic} :
      Repetitions rs ds → Repeats rs r d → Repetitions (rs ++ [r]) (ds ++ [d])

namespace Survey

variable {s : Survey} {r : LineRecord} {name : Text} {number : Int}

/-- What holds of the notes after some lines. -/
structure Covers (rs : List LineRecord) (s : Survey) : Prop where
  labels : ∀ name a, s.labels.get? name = some a ↔ ∃ n, LastAt rs name n ∧ a = Int64.ofNat n
  first : ∀ name, s.first.get? name =
    (rs.find? fun e => e.label? = some name).map LineRecord.number
  address : s.address = Int64.ofNat (rs.countP LineRecord.isCode)
  diagnostics : Repetitions rs s.diagnostics
  sizes : s.diagnostics.length + s.labels.size = rs.countP fun r => r.label?.isSome

theorem covers_start : Covers [] start where
  labels name a := by simp [start, not_lastAt_nil]
  first name := rfl
  address := rfl
  diagnostics := .nil
  sizes := rfl

namespace Covers

variable {rs : List LineRecord}

theorem address_concat (h : Covers rs s) (hl : r.isCode = true) :
    s.address + 1 = Int64.ofNat ((rs ++ [r]).countP LineRecord.isCode) := by
  rw [h.address, List.countP_append, List.countP_singleton, if_pos hl, Int64.ofNat_add]
  rfl

theorem labels_concat_of_none (h : Covers rs s) (hl : r.label? = none) (name : Text)
    (a : Address) : s.labels.get? name = some a ↔
      ∃ n, LastAt (rs ++ [r]) name n ∧ a = Int64.ofNat n := by
  simp only [lastAt_concat_of_ne (show r.label? ≠ some name by simp [hl]), h.labels]

theorem labels_concat_of_some (h : Covers rs s) (hl : r.label? = some name) (other : Text)
    (a : Address) : (s.labels.insert name s.address).get? other = some a ↔
      ∃ n, LastAt (rs ++ [r]) other n ∧ a = Int64.ofNat n := by
  rw [Table.get?_insert]
  by_cases ho : other = name
  · subst ho
    simp [lastAt_concat_of_eq hl, h.address, eq_comm]
  · have hne : r.label? ≠ some other := by simp [hl, Ne.symm ho]
    simp [ho, lastAt_concat_of_ne hne, h.labels]

theorem exists_get?_iff (h : Covers rs s) :
    (∃ a, s.labels.get? name = some a) ↔ ∃ e ∈ rs, e.label? = some name := by
  rw [← exists_lastAt_iff]
  constructor
  · rintro ⟨a,ha⟩
    obtain ⟨n,hn,-⟩ := (h.labels name a).1 ha
    exact ⟨n,hn⟩
  · rintro ⟨n,hn⟩
    exact ⟨_,(h.labels name _).2 ⟨n,hn,rfl⟩⟩

theorem first_eq_none_iff (h : Covers rs s) :
    s.first.get? name = none ↔ ∀ e ∈ rs, e.label? ≠ some name := by
  simp [h.first]

theorem first_concat_known (h : Covers rs s)
    (hl : ∀ name, r.label? = some name → s.first.get? name ≠ none) (name : Text) :
    s.first.get? name = ((rs ++ [r]).find? fun e => e.label? = some name).map LineRecord.number := by
  rw [h.first, List.find?_append]
  cases hf : rs.find? fun e => e.label? = some name with
  | some e => rfl
  | none =>
    have hne : r.label? ≠ some name := by
      intro he
      apply hl name he
      rw [h.first, hf, Option.map_none]
    simp [hne]

theorem first_concat_new (h : Covers rs s) (hl : r.label? = some name)
    (hf : s.first.get? name = none) (other : Text) : (s.first.insert name r.number).get? other =
      ((rs ++ [r]).find? fun e => e.label? = some other).map LineRecord.number := by
  rw [Table.get?_insert, h.first, List.find?_append]
  by_cases ho : other = name
  · subst ho
    rw [h.first, Option.map_eq_none_iff] at hf
    simp [hf, hl]
  · have hne : r.label? ≠ some other := by simp [hl, Ne.symm ho]
    simp [ho, hne]

/-- A line without a label leaves everything as it is but the address. -/
theorem next_of_label?_eq_none (h : Covers rs s) (hl : r.label? = none) :
    Covers (rs ++ [r]) ⟨s.labels,s.first,
      Int64.ofNat ((rs ++ [r]).countP LineRecord.isCode),s.diagnostics⟩ where
  labels := h.labels_concat_of_none hl
  first := h.first_concat_known (by simp [hl])
  address := rfl
  diagnostics := .fresh h.diagnostics (by simp [hl])
  sizes := by simpa [hl] using h.sizes

theorem next_of_fresh (h : Covers rs s) (hc : r.isCode = true) (hl : r.label? = some name)
    (hf : s.first.get? name = none) : Covers (rs ++ [r]) ⟨s.labels.insert name s.address,
      s.first.insert name r.number,s.address + 1,s.diagnostics⟩ where
  labels := h.labels_concat_of_some hl
  first := h.first_concat_new hl hf
  address := h.address_concat hc
  diagnostics := by
    refine .fresh h.diagnostics fun other ho => ?_
    rw [hl] at ho
    cases ho
    exact h.first_eq_none_iff.1 hf
  sizes := by
    -- Both tables have the labels of the lines so far, so a label that is new to one is new to both.
    have hnone : s.labels.get? name = none := by
      rw [Option.eq_none_iff_forall_ne_some]
      intro a ha
      obtain ⟨e,he,hlabel⟩ := h.exists_get?_iff.1 ⟨a,ha⟩
      exact h.first_eq_none_iff.1 hf e he hlabel
    have hsizes := h.sizes
    simp only [Table.size_insert_of_none hnone, List.countP_append, List.countP_singleton, hl,
      Option.isSome_some, if_true]
    omega

theorem next_of_again (h : Covers rs s) (hc : r.isCode = true) (hl : r.label? = some name)
    (hf : s.first.get? name = some number) : Covers (rs ++ [r])
      ⟨s.labels.insert name s.address,s.first,s.address + 1,
        s.diagnostics ++ [⟨r.number,r.statement,.duplicateLabel number⟩]⟩ where
  labels := h.labels_concat_of_some hl
  first := by
    refine h.first_concat_known fun other ho => ?_
    rw [hl] at ho
    cases ho
    simp [hf]
  address := h.address_concat hc
  diagnostics := by
    have hfirst := h.first name
    rw [hf, eq_comm, Option.map_eq_some_iff] at hfirst
    obtain ⟨first,hfind,rfl⟩ := hfirst
    have hlabel : r.statement.label = some name :=
      Statement.token_eq_some_iff.2 (LineRecord.label?_eq_some_iff.1 hl).2
    refine .again h.diagnostics ⟨rfl,rfl,rfl,name,first,hl,hfind,?_⟩
    simp [Diagnostic.message, Fault.message, hlabel]
  sizes := by
    have hsome : ∃ a, s.labels.get? name = some a := by
      rw [h.exists_get?_iff]
      by_contra hnone
      have hall := h.first_eq_none_iff.2 fun e he hlabel => hnone ⟨e,he,hlabel⟩
      rw [hf] at hall
      cases hall
    obtain ⟨a,ha⟩ := hsome
    have hsizes := h.sizes
    simp only [Table.size_insert_of_some ha, List.length_append, List.length_singleton,
      List.countP_append, List.countP_singleton, hl, Option.isSome_some, if_true]
    omega

/-- Each record keeps the notes true of all records so far. -/
theorem next (h : Covers rs s) (r : LineRecord) : Covers (rs ++ [r]) (s.next r) := by
  cases hc : r.isCode with
  | false =>
    have hnone : r.label? = none := by simp [LineRecord.label?, hc]
    have hnext := h.next_of_label?_eq_none hnone
    rw [next_of_not_isCode hc]
    simpa [hc, ← h.address] using hnext
  | true =>
    by_cases hl : r.label = []
    · have hnone : r.label? = none := by simp [LineRecord.label?, hl]
      have hnext := h.next_of_label?_eq_none hnone
      rwa [← h.address_concat hc, ← next_unlabelled hc hl] at hnext
    · have hsome := LineRecord.label?_eq_some_iff.2 ⟨hc,rfl,hl⟩
      cases hf : s.first.get? r.label with
      | none =>
        rw [next_fresh hc hl hf]
        exact h.next_of_fresh hc hsome hf
      | some number =>
        rw [next_again hc hl hf]
        exact h.next_of_again hc hsome hf

end Covers

theorem covers_run (rs : List LineRecord) : Covers rs (run rs) := by
  induction rs using List.reverseRecOn with
  | nil => exact covers_start
  | append_singleton rs r ih =>
    rw [run_concat]
    exact ih.next r

end Survey

namespace LastAt

variable {rs : List LineRecord} {name other : Text} {n : Nat}

theorem lt_countP (h : LastAt rs name n) : n < rs.countP LineRecord.isCode := by
  obtain ⟨before,r,after,rfl,hl,-,rfl⟩ := h
  rw [List.countP_append, List.countP_cons_of_pos (LineRecord.label?_eq_some_iff.1 hl |>.1)]
  omega

/-- No line carries two labels, so that two labels do not come last at the same place. -/
theorem name_eq (h : LastAt rs name n) (h' : LastAt rs other n) : name = other := by
  induction rs using List.reverseRecOn with
  | nil => exact absurd h (not_lastAt_nil name n)
  | append_singleton rs r ih =>
    by_cases hl : r.label? = some name
    · by_cases hl' : r.label? = some other
      · exact Option.some.inj (hl.symm.trans hl')
      · -- One label comes last on this line, the other before it with fewer rs of code in front.
        have hn := (lastAt_concat_of_eq hl).1 h
        have hlt := ((lastAt_concat_of_ne hl').1 h').lt_countP
        omega
    · have hlast := (lastAt_concat_of_ne hl).1 h
      by_cases hl' : r.label? = some other
      · have hn := (lastAt_concat_of_eq hl').1 h'
        have hlt := hlast.lt_countP
        omega
      · exact ih hlast ((lastAt_concat_of_ne hl').1 h')

theorem toInt_ofNat (h : LastAt rs name n) (hlen : rs.length < 0x8000000000000000) :
    (Int64.ofNat n).toInt = n := by
  have hlt := h.lt_countP
  have hle := List.countP_le_length (p := LineRecord.isCode) (l := rs)
  exact Int64.toInt_ofNat_of_lt (by omega)

end LastAt

/-- The first pass is exact, for records of any kind. It counts the lines of code, binds each label to
the number of lines of code before the last that carries it, and reports, in order, each line of code
whose label an earlier one carries, with the first of these. -/
theorem first_pass_exact (rs : List LineRecord) :
    ((Survey.run rs).labels = (resolve (LineRecord.code rs)).labels ∧
      (Survey.run rs).address = Int64.ofNat (resolve (LineRecord.code rs)).count ∧
      (Survey.run rs).diagnostics = (resolve (LineRecord.code rs)).diagnostics) ∧
    (resolve (LineRecord.code rs)).count = rs.countP LineRecord.isCode ∧
    (∀ name, (∃ a, (resolve (LineRecord.code rs)).labels.get? name = some a) ↔
      ∃ r ∈ rs, r.isCode = true ∧ r.label = name ∧ name ≠ []) ∧
    Repetitions rs (resolve (LineRecord.code rs)).diagnostics ∧
    (resolve (LineRecord.code rs)).diagnostics.length +
      (resolve (LineRecord.code rs)).labels.size =
        rs.countP (fun r => r.isCode && decide (r.label ≠ [])) ∧
    (rs.length < 0x8000000000000000 →
      (∀ name a, (resolve (LineRecord.code rs)).labels.get? name = some a ↔
        ∃ n, LastAt rs name n ∧ a.toInt = n) ∧
      ∀ name other a, (resolve (LineRecord.code rs)).labels.get? name = some a →
        (resolve (LineRecord.code rs)).labels.get? other = some a → name = other) := by
  obtain ⟨hlabels,haddress,hdiagnostics⟩ := Survey.run_eq_resolve rs
  have hcovers := Survey.covers_run rs
  refine ⟨⟨hlabels,haddress,hdiagnostics⟩,LineRecord.length_code rs,fun name => ?_,?_,?_,
    fun hlen => ?_⟩
  · simp only [← hlabels, ← LineRecord.label?_eq_some_iff]
    exact hcovers.exists_get?_iff
  · rw [← hdiagnostics]
    exact hcovers.diagnostics
  · simp only [← hdiagnostics, ← hlabels, ← LineRecord.isSome_label?]
    exact hcovers.sizes
  · have haddr : ∀ name a, (Survey.run rs).labels.get? name = some a ↔
        ∃ n, LastAt rs name n ∧ a.toInt = n := by
      intro name a
      rw [hcovers.labels]
      constructor
      · rintro ⟨n,hn,rfl⟩
        exact ⟨n,hn,hn.toInt_ofNat hlen⟩
      · rintro ⟨n,hn,ha⟩
        exact ⟨n,hn,Int64.toInt_inj.1 (ha.trans (hn.toInt_ofNat hlen).symm)⟩
    rw [← hlabels]
    refine ⟨haddr,fun name other a ha ha' => ?_⟩
    obtain ⟨n,hn,hna⟩ := (haddr name a).1 ha
    obtain ⟨n',hn',hna'⟩ := (haddr other a).1 ha'
    have heq : n = n' := by omega
    subst heq
    exact hn.name_eq hn'

/-- Three lines of code carry the same label, and so do a comment before them and a line of no kind
after them. Numbers of lines come twice or are negative. -/
def thrice : List LineRecord :=
  [⟨9,[],1,utf8 "a",utf8 "wait",[]⟩,
    ⟨7,[],3,utf8 "a",utf8 "wait",[]⟩,
    ⟨-1,[],3,utf8 "b",utf8 "nop",[]⟩,
    ⟨3,[],3,utf8 "a",[],utf8 "#"⟩,
    ⟨7,[],3,utf8 "a",utf8 "br",utf8 "b"⟩,
    ⟨7,[],4,utf8 "a",utf8 "br",utf8 "b"⟩]

theorem first_pass_exact_thrice :
    (resolve (LineRecord.code thrice)).labels.get? (utf8 "a") = some 3 ∧
    (resolve (LineRecord.code thrice)).labels.get? (utf8 "b") ≠ some 3 ∧
    (resolve (LineRecord.code thrice)).diagnostics.length +
      (resolve (LineRecord.code thrice)).labels.size = 4 := by
  obtain ⟨-,-,-,-,hsizes,hwrap⟩ := first_pass_exact thrice
  obtain ⟨hget,hone⟩ := hwrap (by decide)
  have hlast : LastAt thrice (utf8 "a") 3 :=
    ⟨thrice.take 4,_,thrice.drop 5,rfl,rfl,List.forall_mem_singleton.2 (by decide),rfl⟩
  have ha := (hget (utf8 "a") 3).2 ⟨3,hlast,rfl⟩
  refine ⟨ha,fun hb => ?_,hsizes⟩
  exact absurd (hone _ _ _ ha hb) (by decide)

end Asm18
