import Mathlib.Data.List.Sort
import Asm18.Proofs.Colour
import Asm18.Proofs.Command
import Asm18.Proofs.LiteralLanguage

/-! The label table as it is shown. Addresses and then names order the labels strictly, so that there is
one way to list them, however the table came about. The printer is not ours; one that lays the table
out as documented has a row for each label, from which name and address can be read back. -/
namespace Asm18

open Grammar (wordBytes)

namespace Table

variable {κ α : Type} [DecidableEq κ]

/-- Bindings of different keys are all there, whatever was bound before. -/
theorem get?_foldl_insert {bs : List (κ × α)} (h : (bs.map Prod.fst).Nodup) (t : Table κ α) {k : κ}
    {a : α} : (bs.foldl (fun t b => t.insert b.1 b.2) t).get? k = some a ↔
      (k,a) ∈ bs ∨ k ∉ bs.map Prod.fst ∧ t.get? k = some a := by
  induction bs generalizing t with
  | nil => simp
  | cons b bs ih =>
    rw [List.map_cons, List.nodup_cons] at h
    rw [List.foldl_cons, ih h.2, get?_insert, List.map_cons, List.mem_cons, List.mem_cons, not_or]
    by_cases hk : k = b.1
    · subst hk
      have hother : (b.1,a) ∉ bs := fun hm => h.1 (List.mem_map.2 ⟨_,hm,rfl⟩)
      simp [h.1, hother, Prod.ext_iff, eq_comm]
    · simp [hk, Prod.ext_iff]

theorem get?_ofList {bs : List (κ × α)} (h : (bs.map Prod.fst).Nodup) {k : κ} {a : α} :
    (ofList bs).get? k = some a ↔ (k,a) ∈ bs := by
  simp [ofList, get?_foldl_insert h]

/-- Different keys can be bound in any order. -/
theorem get?_ofList_perm {bs bs' : List (κ × α)} (h : (bs.map Prod.fst).Nodup) (hp : bs.Perm bs')
    (k : κ) : (ofList bs).get? k = (ofList bs').get? k := by
  apply Option.ext
  intro a
  rw [get?_ofList h, get?_ofList ((hp.map Prod.fst).nodup_iff.1 h), hp.mem_iff]

end Table

namespace Labels

section Order

variable {a b c : Text × Address}

theorem before_iff : before a b = true ↔ a.2 < b.2 ∨ a.2 = b.2 ∧ a.1 ≤ b.1 := by
  simp [before]

theorem before_trans (hab : before a b = true) (hbc : before b c = true) : before a c = true := by
  rw [before_iff] at hab hbc ⊢
  rcases hab with hab | ⟨hab,hn⟩
  · rcases hbc with hbc | ⟨hbc,-⟩
    · exact .inl (Int64.lt_trans hab hbc)
    · exact .inl (hbc ▸ hab)
  · rcases hbc with hbc | ⟨hbc,hm⟩
    · exact .inl (hab ▸ hbc)
    · exact .inr ⟨hab.trans hbc,List.le_trans hn hm⟩

theorem before_total (a b : Text × Address) : (before a b || before b a) = true := by
  rw [Bool.or_eq_true, before_iff, before_iff]
  rcases Int.lt_trichotomy a.2.toInt b.2.toInt with h | h | h
  · exact .inl (.inl (Int64.lt_iff_toInt_lt.2 h))
  · have heq := Int64.toInt_inj.1 h
    exact (List.le_total a.1 b.1).imp (fun hn => .inr ⟨heq,hn⟩) fun hn => .inr ⟨heq.symm,hn⟩
  · exact .inr (.inl (Int64.lt_iff_toInt_lt.2 h))

end Order

variable {ls : Labels} {m n : Text}

/-- The first label has the lower address, or the same address and the lesser name. -/
def Ascending (ls : Labels) (m n : Text) : Prop :=
  ∃ a b, ls.get? m = some a ∧ ls.get? n = some b ∧ (a < b ∨ a = b ∧ m < n)

instance (ls : Labels) (m n : Text) : Decidable (ls.Ascending m n) :=
  match hm : ls.get? m, hn : ls.get? n with
  | some a, some b => decidable_of_iff (a < b ∨ a = b ∧ m < n) (by simp [Ascending, hm, hn])
  | none, _ => isFalse (by simp [Ascending, hm])
  | some _, none => isFalse (by simp [Ascending, hn])

theorem Ascending.asymm (h : ls.Ascending m n) : ¬ ls.Ascending n m := by
  rintro ⟨b',a',hb',ha',h'⟩
  obtain ⟨a,b,ha,hb,h⟩ := h
  cases ha.symm.trans ha'
  cases hb.symm.trans hb'
  rcases h with h | ⟨rfl,h⟩
  · rcases h' with h' | ⟨rfl,-⟩
    · exact Int64.lt_asymm h h'
    · exact Int64.lt_irrefl h
  · rcases h' with h' | ⟨-,h'⟩
    · exact Int64.lt_irrefl h'
    · exact List.lt_asymm h h'

instance (ls : Labels) : Std.Asymm ls.Ascending := ⟨fun _ _ => Ascending.asymm⟩

theorem mem_names_iff : n ∈ ls.names ↔ ∃ a, ls.get? n = some a := by
  simp [names, mem_sorted_iff]

theorem nodup_names (ls : Labels) : ls.names.Nodup :=
  ((List.mergeSort_perm ls.entries before).map Prod.fst).nodup_iff.2 ls.nodup_keys

/-- What is sorted without repetition is in strictly ascending order. -/
theorem pairwise_names (ls : Labels) : ls.names.Pairwise ls.Ascending := by
  have hsorted : ls.sorted.Pairwise fun a b => before a b = true :=
    @List.pairwise_mergeSort _ before (fun _ _ _ => before_trans) before_total ls.entries
  have hne := ls.nodup_names
  rw [names, List.Nodup, List.pairwise_map] at hne
  rw [names, List.pairwise_map]
  refine (hsorted.and hne).imp_of_mem fun {a b} ha hb hab => ?_
  refine ⟨a.2,b.2,mem_sorted_iff.1 ha,mem_sorted_iff.1 hb,?_⟩
  refine (before_iff.1 hab.1).imp_right fun h => ⟨h.1,?_⟩
  by_contra hlt
  exact hab.2 (List.le_antisymm h.2 (List.not_lt.1 hlt))

theorem eq_names_iff {ns : List Text} : ns = ls.names ↔
    (∀ name, name ∈ ns ↔ ∃ a, ls.get? name = some a) ∧ ns.Pairwise ls.Ascending := by
  constructor
  · rintro rfl
    exact ⟨fun _ => mem_names_iff,ls.pairwise_names⟩
  · rintro ⟨hmem,hns⟩
    exact hns.eq_of_mem_iff ls.pairwise_names fun name => (hmem name).trans mem_names_iff.symm

/-- The order of the entries plays no part. -/
theorem names_congr {ls ls' : Labels} (h : ∀ name, ls.get? name = ls'.get? name) :
    ls.names = ls'.names := by
  have hascending : ls.Ascending = ls'.Ascending := by
    funext m n
    simp only [Ascending, h]
  rw [eq_names_iff, ← hascending]
  refine ⟨fun name => ?_,ls.pairwise_names⟩
  rw [mem_names_iff, h]

/-- The rows are the names with their addresses. -/
theorem sorted_eq (ls : Labels) :
    ls.sorted = ls.names.filterMap fun n => (ls.get? n).map fun a => (n,a) := by
  rw [names, List.filterMap_map]
  have hrow : ∀ e ∈ ls.sorted,
      ((fun n => (ls.get? n).map fun a => (n,a)) ∘ Prod.fst) e = some e := by
    intro e he
    have hget : ls.get? e.1 = some e.2 := mem_sorted_iff.1 he
    simp [hget]
  rw [List.filterMap_congr hrow, List.filterMap_some]

theorem sorted_eq_iff {ls ls' : Labels} :
    ls.sorted = ls'.sorted ↔ ∀ name, ls.get? name = ls'.get? name := by
  constructor
  · intro h name
    apply Option.ext
    intro a
    rw [← mem_sorted_iff, h, mem_sorted_iff]
  · intro h
    rw [sorted_eq, sorted_eq ls', names_congr h]
    simp only [h]

end Labels

theorem Text.natural_injective : Function.Injective Text.natural := by
  intro m n h
  have hm := (Literal.denotes_iff.1 (Literal.denotes_natural m)).2
  have hn := (Literal.denotes_iff.1 (Literal.denotes_natural n)).2
  rw [h] at hm
  exact hm.trans hn.symm

theorem Text.decimal_injective : Function.Injective Text.decimal := by
  have hsign : ∀ n, 0x2D ∉ natural n :=
    fun n hm => absurd (Literal.natural_subset n hm) (by decide)
  intro m n h
  cases m with
  | ofNat m =>
    cases n with
    | ofNat n => exact congrArg Int.ofNat (natural_injective h)
    | negSucc n =>
      have hm : (0x2D : UInt8) ∈ natural m := by
        change natural m = _ at h
        rw [h]
        exact List.mem_cons_self
      exact absurd hm (hsign m)
  | negSucc m =>
    cases n with
    | ofNat n =>
      have hn : (0x2D : UInt8) ∈ natural n := by
        change _ = natural n at h
        rw [← h]
        exact List.mem_cons_self
      exact absurd hn (hsign n)
    | negSucc n =>
      have hdigits := natural_injective (List.cons.inj h).2
      rw [Nat.succ.inj hdigits]

namespace SymbolDump

/-- The lines of a row. -/
def rowLines (label : Text × Address) : List Text :=
  [utf8 "  main.Symbol\x7b",utf8 "    Name:    \"" ++ label.1 ++ utf8 "\",",
    utf8 "    Address: " ++ Text.decimal label.2.toInt ++ utf8 ",",utf8 "  \x7d,"]

/-- The lines of a table with the given rows. -/
def tableLines (rows : List (Text × Address)) : List Text :=
  if rows = [] then [utf8 "[]main.Symbol\x7b\x7d"]
  else utf8 "[]main.Symbol\x7b" :: rows.flatMap rowLines ++ [utf8 "\x7d"]

theorem row_plain (label : Text × Address) :
    row false label = (rowLines label).flatMap Text.line := by
  have hbrace : utf8 "  " ++ utf8 "main." ++ utf8 "Symbol" ++ utf8 "\x7b" =
      utf8 "  main.Symbol\x7b" := by
    decide
  have hname : utf8 "    " ++ utf8 "Name" ++ utf8 ":    " ++ [0x22] = utf8 "    Name:    \"" := by
    decide
  have hclose : [0x22] ++ utf8 "," = utf8 "\"," := by decide
  have haddress : utf8 "    " ++ utf8 "Address" ++ utf8 ": " = utf8 "    Address: " := by decide
  have hquoted : (if label.1 = [] then [] else label.1) = label.1 := by
    split <;> simp [*]
  simp only [row, rowLines, typeName, fieldName, string, number, paint, Bool.false_eq_true, if_false,
    hquoted, ← hbrace, ← hname, ← hclose, ← haddress, List.flatMap_cons, List.flatMap_nil,
    List.append_assoc, List.append_nil]

theorem flatMap_row_plain (rows : List (Text × Address)) :
    rows.flatMap (row false) = (rows.flatMap rowLines).flatMap Text.line := by
  rw [List.flatMap_assoc]
  exact List.flatMap_congr fun label _ => row_plain label

/-- Without colour a dump is the lines of its rows. -/
theorem layout_plain (rows : List (Text × Address)) :
    layout false rows = (tableLines rows).flatMap Text.line := by
  unfold layout tableLines
  cases rows with
  | nil => rfl
  | cons e es =>
    have hopen : utf8 "[]" ++ typeName false ++ utf8 "\x7b" = utf8 "[]main.Symbol\x7b" := by decide
    rw [if_neg (List.cons_ne_nil e es), List.cons_append, List.flatMap_cons, List.flatMap_append,
      ← flatMap_row_plain, ← hopen]
    simp only [List.flatMap_singleton, List.append_assoc]

section Lines

variable {rows rows' : List (Text × Address)}

/-- Names made of letters, digits and underscores stay inside their lines. -/
theorem not_mem_tableLines (h : ∀ r ∈ rows, r.1 ⊆ wordBytes) :
    ∀ t ∈ tableLines rows, Text.newline ∉ t := by
  have hrow : ∀ r ∈ rows, ∀ t ∈ rowLines r, Text.newline ∉ t := by
    intro r hr t ht
    have hname := (visible_of_subset (h r hr)).not_mem (b := Text.newline) (by decide)
    have haddress := (Text.visible_decimal r.2.toInt).not_mem (b := Text.newline) (by decide)
    simp only [rowLines, List.mem_cons, List.not_mem_nil, or_false] at ht
    rcases ht with rfl | rfl | rfl | rfl
    · decide
    · simp only [List.mem_append, not_or]
      exact ⟨⟨by decide,hname⟩,by decide⟩
    · simp only [List.mem_append, not_or]
      exact ⟨⟨by decide,haddress⟩,by decide⟩
    · decide
  intro t ht
  unfold tableLines at ht
  split at ht
  · cases List.mem_singleton.1 ht
    decide
  · simp only [List.cons_append, List.mem_cons, List.mem_append, List.mem_flatMap,
      List.not_mem_nil, or_false] at ht
    rcases ht with rfl | ⟨r,hr,ht⟩ | rfl
    · decide
    · exact hrow r hr t ht
    · decide

/-- A row can be read back from its lines. -/
theorem rowLines_injective : Function.Injective rowLines := by
  rintro ⟨name,a⟩ ⟨name',a'⟩ h
  simp only [rowLines, List.cons.injEq, List.append_cancel_left_eq, List.append_cancel_right_eq,
    true_and, and_true] at h
  rw [h.1, Int64.toInt_inj.1 (Text.decimal_injective h.2)]

theorem flatMap_rowLines_inj (h : rows.flatMap rowLines = rows'.flatMap rowLines) : rows = rows' := by
  induction rows generalizing rows' with
  | nil =>
    cases rows' with
    | nil => rfl
    | cons r' rows' => simp [rowLines] at h
  | cons r rows ih =>
    cases rows' with
    | nil => simp [rowLines] at h
    | cons r' rows' =>
      rw [List.flatMap_cons, List.flatMap_cons] at h
      -- All rows have four lines, so the first one ends at the same place in both.
      obtain ⟨hfirst,hrest⟩ := List.append_inj h rfl
      rw [rowLines_injective hfirst, ih hrest]

/-- The rows of a table can be read back from its lines. -/
theorem tableLines_injective : Function.Injective tableLines := by
  intro rows rows' h
  by_cases hrows : rows = [] <;> by_cases hrows' : rows' = []
  · rw [hrows, hrows']
  · simp [tableLines, hrows, hrows'] at h
  · simp [tableLines, hrows, hrows'] at h
  · simp only [tableLines, hrows, hrows', if_false, List.append_cancel_right_eq, List.cons.injEq,
      true_and] at h
    exact flatMap_rowLines_inj h

end Lines

section Colour

open Colour

theorem shows_paint {codes : List String} {t : Text} (hc : ∀ code ∈ codes, 0x6D ∉ utf8 code)
    (ht : escape ∉ t) : Shows (paint true codes t) (paint false codes t) := by
  have hcodes : Shows (codes.flatMap attributes) [] := by
    induction codes with
    | nil => exact .of_plain (by simp)
    | cons code codes ih =>
      have hfirst : Shows (attributes code) [] := .attributes (hc code (by simp))
      exact hfirst.append (ih fun code hcode => hc code (by simp [hcode]))
  have hreset : Shows reset [] := .attributes (by decide)
  have hall := (hcodes.append (.of_plain ht)).append hreset
  rwa [List.nil_append, List.append_nil] at hall

theorem shows_line {t p : Text} (h : Shows t p) : Shows (Text.line t) (Text.line p) :=
  h.append (.of_plain (by decide))

theorem shows_typeName : Shows (typeName true) (typeName false) :=
  .append (.of_plain (by decide)) (shows_paint (by decide) (by decide))

theorem shows_string {t : Text} (h : escape ∉ t) : Shows (string true t) (string false t) := by
  have hquote : Shows (paint true ["31", "1"] [0x22]) (paint false ["31", "1"] [0x22]) :=
    shows_paint (by decide) (by decide)
  have hname : Shows (if t = [] then [] else paint true ["31"] t)
      (if t = [] then [] else paint false ["31"] t) := by
    split
    · exact .of_plain (by simp)
    · exact shows_paint (by decide) h
  exact (hquote.append hname).append hquote

theorem shows_row {label : Text × Address} (h : escape ∉ label.1) :
    Shows (row true label) (row false label) := by
  have hnumber : Shows (number true label.2.toInt) (number false label.2.toInt) :=
    shows_paint (by decide) ((Text.visible_decimal _).not_mem (by decide))
  have hfield : ∀ name, escape ∉ utf8 name → Shows (fieldName true name) (fieldName false name) :=
    fun name hname => shows_paint (by decide) hname
  refine .append (.append (.append (shows_line ?_) (shows_line ?_)) (shows_line ?_))
    (shows_line (.of_plain (by decide)))
  · exact .append (.append (.of_plain (by decide)) shows_typeName) (.of_plain (by decide))
  · exact .append (.append (.append (.append (.of_plain (by decide)) (hfield "Name" (by decide)))
      (.of_plain (by decide))) (shows_string h)) (.of_plain (by decide))
  · exact .append (.append (.append (.append (.of_plain (by decide)) (hfield "Address" (by decide)))
      (.of_plain (by decide))) hnumber) (.of_plain (by decide))

theorem shows_layout {rows : List (Text × Address)} (h : ∀ r ∈ rows, escape ∉ r.1) :
    Shows (layout true rows) (layout false rows) := by
  unfold layout
  cases rows with
  | nil =>
    exact shows_line (.append (.append (.of_plain (by decide)) shows_typeName) (.of_plain (by decide)))
  | cons e es =>
    have hrows : Shows ((e :: es).flatMap (row true)) ((e :: es).flatMap (row false)) := by
      rw [List.flatMap_def, List.flatMap_def]
      apply Shows.flatten
      rw [List.forall₂_map_left_iff, List.forall₂_map_right_iff, List.forall₂_same]
      exact fun r hr => shows_row (h r hr)
    have hopen := (Shows.of_plain (t := utf8 "[]") (by decide)).append shows_typeName
    exact ((shows_line (hopen.append (.of_plain (by decide)))).append hrows).append
      (shows_line (.of_plain (by decide)))

end Colour
end SymbolDump

/-- The names of the labels are made of letters, digits and underscores. -/
def Labels.Worded (ls : Labels) : Prop := ∀ name a, ls.get? name = some a → name ⊆ wordBytes

namespace Labels.Worded

open SymbolDump

variable {ls ls' : Labels} {printer : Printer} (h : ls.Worded) (hp : printer.Documented ls.sorted)
include h

theorem subset_of_mem_sorted : ∀ r ∈ ls.sorted, r.1 ⊆ wordBytes :=
  fun r hr => h r.1 r.2 (mem_sorted_iff.1 hr)

theorem layout_eq_iff (h' : ls'.Worded) : layout false ls.sorted = layout false ls'.sorted ↔
    ∀ name, ls.get? name = ls'.get? name := by
  rw [← sorted_eq_iff]
  constructor
  · intro hlayout
    -- The lines of both dumps are the same, and they hold the rows.
    rw [layout_plain, layout_plain] at hlayout
    have hlines := congrArg Source.pieces hlayout
    rw [Source.pieces_flatMap_line (not_mem_tableLines h.subset_of_mem_sorted),
      Source.pieces_flatMap_line (not_mem_tableLines h'.subset_of_mem_sorted)] at hlines
    exact tableLines_injective hlines
  · intro hsorted
    rw [hsorted]

include hp

theorem strip_printer :
    Colour.strip (printer true ls.sorted) = printer false ls.sorted := by
  rw [hp, hp]
  refine (shows_layout fun r hr => ?_).strip_eq
  exact (visible_of_subset (h.subset_of_mem_sorted r hr)).not_mem (by decide)

end Labels.Worded

/-- The dump of a label table is canonical and faithful: its names are listed in the one way that is
strictly ascending by address and name. What is printed, as documented and for names made of word
bytes, has a row for each name in this order, tells tables apart, and is the same without its colour. -/
theorem symbolDump_canonical (printer : SymbolDump.Printer) (ls : Labels) :
    (∀ ns, ns = ls.names ↔
      (∀ name, name ∈ ns ↔ ∃ a, ls.get? name = some a) ∧ ns.Nodup ∧ ns.Pairwise ls.Ascending) ∧
    (∀ ls' : Labels, (∀ name, ls.get? name = ls'.get? name) → ls.names = ls'.names) ∧
    (∀ bs bs' : List (Text × Address), (bs.map Prod.fst).Nodup → bs.Perm bs' →
      Labels.names (Table.ofList bs) = Labels.names (Table.ofList bs')) ∧
    (∀ (w : World) (colour : Bool), w.stdout.room = none → ∃ out,
      Command.dumpSymbols (m := StateM World) printer colour ls w = (.ok (),{ w with stdout := out }) ∧
        out.text = w.stdout.text ++ printer colour ls.sorted) ∧
    (ls.Worded → printer.Documented ls.sorted →
      (∃ rows, rows.map Prod.fst = ls.names ∧ (∀ r ∈ rows, ls.get? r.1 = some r.2) ∧
        printer false ls.sorted = (SymbolDump.tableLines rows).flatMap Text.line) ∧
      (∀ ls' : Labels, ls'.Worded → printer.Documented ls'.sorted →
        (printer false ls.sorted = printer false ls'.sorted ↔
          ∀ name, ls.get? name = ls'.get? name)) ∧
      Colour.strip (printer true ls.sorted) = printer false ls.sorted) := by
  refine ⟨fun ns => ?_,fun ls' => Labels.names_congr,fun bs bs' hnodup hperm => ?_,
    fun w colour hr => ?_,fun h hp => ⟨?_,fun ls' h' hp' => ?_,h.strip_printer hp⟩⟩
  · rw [Labels.eq_names_iff]
    exact and_congr_right fun _ => (and_iff_right_of_imp List.Pairwise.nodup).symm
  · exact Labels.names_congr (Table.get?_ofList_perm hnodup hperm)
  · refine ⟨_,Command.dumpSymbols_of_room hr printer colour ls,?_⟩
    simp [Sink.text]
  · refine ⟨ls.sorted,rfl,fun r hr => Labels.mem_sorted_iff.1 hr,?_⟩
    rw [hp, SymbolDump.layout_plain]
  · rw [hp, hp']
    exact h.layout_eq_iff h'

/-- Two labels have the same address, and one has the least of all. -/
def crowd (loop : Address) : Labels :=
  Table.ofList [(utf8 "loop",loop),(utf8 "end",2),(utf8 "far",-9223372036854775808)]

theorem get?_crowd {loop a : Address} {name : Text} : (crowd loop).get? name = some a ↔
    (name,a) ∈ [(utf8 "loop",loop),(utf8 "end",2),(utf8 "far",-9223372036854775808)] := by
  refine Table.get?_ofList ?_
  have hkeys : [utf8 "loop",utf8 "end",utf8 "far"].Nodup := by decide
  exact hkeys

theorem worded_crowd (loop : Address) : (crowd loop).Worded := by
  have hwords : ∀ t ∈ [utf8 "loop",utf8 "end",utf8 "far"], t ⊆ wordBytes := by decide
  intro name a h
  exact hwords name (List.mem_map_of_mem (f := Prod.fst) (get?_crowd.1 h))

theorem symbolDump_canonical_crowd :
    (crowd 2).names = [utf8 "far",utf8 "end",utf8 "loop"] ∧
    (∃ rows, rows.map Prod.fst = [utf8 "far",utf8 "end",utf8 "loop"] ∧
      (∀ r ∈ rows, (crowd 2).get? r.1 = some r.2) ∧
      SymbolDump.render false (crowd 2) = (SymbolDump.tableLines rows).flatMap Text.line) ∧
    (∃ out, Command.dumpSymbols (m := StateM World) SymbolDump.layout true (crowd 2) Command.desk =
        (.ok (),{ Command.desk with stdout := out }) ∧
      Colour.strip out.text = SymbolDump.render false (crowd 2)) ∧
    SymbolDump.render false (crowd 2) ≠ SymbolDump.render false (crowd 3) := by
  obtain ⟨hunique,-,-,hprinted,hdump⟩ := symbolDump_canonical SymbolDump.layout (crowd 2)
  have hnames : [utf8 "far",utf8 "end",utf8 "loop"] = (crowd 2).names := by
    refine (hunique _).2 ⟨fun name => ?_,by decide,by decide +kernel⟩
    simp only [get?_crowd, List.mem_cons, Prod.mk.injEq, List.not_mem_nil, or_false,
      exists_or, exists_eq_right]
    tauto
  obtain ⟨hrows,hfaithful,hstrip⟩ := hdump (worded_crowd 2) (SymbolDump.documented_layout _)
  obtain ⟨out,hout,htext⟩ := hprinted Command.desk true rfl
  refine ⟨hnames.symm,hnames ▸ hrows,⟨out,hout,?_⟩,fun hsame => ?_⟩
  · have hempty : Command.desk.stdout.text = [] := rfl
    rw [htext, hempty, List.nil_append]
    exact hstrip
  · have hloop := (hfaithful (crowd 3) (worded_crowd 3) (SymbolDump.documented_layout _)).1 hsame
      (utf8 "loop")
    exact absurd hloop (by decide +kernel)

end Asm18
