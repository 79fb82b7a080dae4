import Mathlib.Data.List.Nodup
import Asm18.Proofs.Alignment
import Asm18.Proofs.Image
import Asm18.Proofs.Session

/-! The listing of a program. It is made after both passes by a walk of its own, which counts the
addresses once more and knows the lines that failed by their numbers alone. It stays in step all the
same, so that each line of a source that is not passed over stands in the listing or is warned of,
once, and a program that assembles has the digits of its image in its listing. -/
namespace Asm18

namespace Text

/-- Zeros in front of a numeral do not change its number. -/
theorem digits_replicate_append {base v : Nat} {t : Text} (hb : 0 < base)
    (h : Literal.Digits base 0 t v) (k : Nat) :
    Literal.Digits base 0 (List.replicate k 0x30 ++ t) v := by
  induction k with
  | zero => exact h
  | succ k ih =>
    rw [List.replicate_succ, List.cons_append]
    exact .digit (by decide) hb (by simpa using ih)

/-- A hexadecimal numeral in upper case is read as its number. -/
theorem digits_hex (width n : Nat) : Literal.Digits 16 0 (hex width n) n := by
  have hdigit : ∀ d < 16, Literal.digit? d.digitChar.toUpper.toUInt8 = some d := by decide
  apply digits_replicate_append (by decide)
  induction n using Nat.strongRecOn with
  | ind n ih =>
    by_cases hn : n < 16
    · rw [Nat.toDigits_of_lt_base hn]
      exact .digit (hdigit n hn) hn (by simpa using .done)
    · have hlast := (ih (n / 16) (by omega)).snoc (hdigit (n % 16) (by omega)) (by omega)
      rw [Nat.toDigits_of_base_le (by decide) (by omega), List.map_append]
      rwa [Nat.div_add_mod'] at hlast

theorem hex_subset (width n : Nat) : hex width n ⊆ utf8 "0123456789ABCDEF" := by
  have hdigit : ∀ d < 16, d.digitChar.toUpper.toUInt8 ∈ utf8 "0123456789ABCDEF" := by decide
  rw [hex, zeroFill, List.leftpad, List.append_subset]
  constructor
  · intro b hb
    rw [List.eq_of_mem_replicate hb]
    decide
  · induction n using Nat.strongRecOn with
    | ind n ih =>
      by_cases hn : n < 16
      · rw [Nat.toDigits_of_lt_base hn]
        simpa using hdigit n hn
      · rw [Nat.toDigits_of_base_le (by decide) (by omega), List.map_append, List.append_subset]
        exact ⟨ih (n / 16) (by omega),by simpa using hdigit (n % 16) (by omega)⟩

end Text

namespace Line

theorem warnings_cons (l : Line) (lines : List Line) :
    warnings (l :: lines) = l.warning?.toList ++ warnings lines := by
  cases hw : l.warning? <;> simp [warnings, hw]

/-- A line is passed over, or has a warning, or is a line of code. -/
theorem code?_warning?_cases (l : Line) :
    ((l.content = .blank ∨ l.content = .comment) ∧ l.code? = none ∧ l.warning? = none) ∨
    (l.content = .unrecognised ∧ l.code? = none ∧ l.warning? = some (utf8 "line " ++
      Text.decimal l.number ++ utf8 ": not an instruction, skipped: " ++ l.text)) ∨
    ∃ s, l.content = .instruction s ∧ l.code? = some ⟨l.number,l.text,s⟩ ∧ l.warning? = none := by
  cases hc : l.content <;> simp [code?, warning?, hc, Content.statement?]

/-- The lines are numbered one after the other from `n` on. -/
def Numbered (n : Nat) (lines : List Line) : Prop :=
  lines.map number = (List.range' n lines.length).map Int.ofNat

theorem numbered_cons_iff {n : Nat} {l : Line} {lines : List Line} :
    Numbered n (l :: lines) ↔ l.number = n ∧ Numbered (n + 1) lines := by
  simp [Numbered, List.range'_succ]

theorem numbered_lines (source : Text) : Numbered 1 (Source.lines source) := by
  apply List.ext_getElem
  · simp
  · intro i _ _
    simp only [Source.lines, parse, List.getElem_map, List.getElem_mapIdx, List.getElem_range',
      Int.ofNat_eq_natCast]
    omega

/-- Lines of code keep the numbers of their lines. -/
theorem numbers_code_sublist (lines : List Line) :
    ((code lines).map CodeLine.number).Sublist (lines.map number) := by
  induction lines with
  | nil => exact .slnil
  | cons l lines ih =>
    rw [code_cons, List.map_append, List.map_cons]
    cases hc : l.code? with
    | none => exact ih.cons _
    | some c =>
      obtain ⟨s,-,rfl⟩ := Option.map_eq_some_iff.1 hc
      exact ih.cons_cons _

theorem Numbered.nodup_code {n : Nat} {lines : List Line} (h : Numbered n lines) :
    ((code lines).map CodeLine.number).Nodup := by
  apply (numbers_code_sublist lines).nodup
  rw [h]
  exact List.Nodup.map (fun _ _ => Int.ofNat.inj) (List.nodup_range' 1)

end Line

namespace Listing

variable {labels : Labels} {code : List CodeLine}

theorem entries_encode (labels : Labels) (code : List CodeLine) :
    entries code (encode labels code) =
      code.mapIdx fun k c => entry k c (c.encode (Int64.ofNat k) labels) := by
  apply List.ext_getElem
  · simp [entries]
  · intro k _ _
    simp [entries, encode]

/-- The listing on its way through the lines, with the address it has come to. -/
structure Course where
  address : Nat
  entries : List Text

/-- An entry made of the word at an address, or of question marks. -/
def row (address : Nat) (w : Word) (failed : Bool) (text : Text) : Text :=
  Text.hex 3 address ++ utf8 "  " ++
    (if failed then List.replicate wordBits 0x3F else Image.digits w) ++ utf8 "  " ++ text

namespace Course

/-- The next line. A line of code is listed with the word at the address, which there has to be,
and is marked if its number is that of a line that failed. -/
def next (e : Emission) (c : Course) (r : LineRecord) : Option Course :=
  if r.isCode then
    e.words[c.address]?.map fun w =>
      ⟨c.address + 1,
        c.entries ++ [row c.address w ((e.diagnostics.map Diagnostic.line).contains r.number)
          r.text]⟩
  else some c

theorem next_of_isCode {e : Emission} {k : Nat} {listed : List Text} {r : LineRecord} {w : Word}
    (hr : r.isCode = true) (hw : e.words[k]? = some w) :
    next e ⟨k,listed⟩ r = some ⟨k + 1,listed ++
      [row k w ((e.diagnostics.map Diagnostic.line).contains r.number) r.text]⟩ := by
  simp [next, hr, hw]

def run (e : Emission) (rs : List LineRecord) : Option Course := rs.foldlM (next e) ⟨0,[]⟩

/-- Lines of code have failed exactly if their numbers say so. -/
theorem contains_number_iff (labels : Labels) (hn : (code.map CodeLine.number).Nodup) {k : Nat}
    {c : CodeLine} (hc : code[k]? = some c) :
    ((encode labels code).diagnostics.map Diagnostic.line).contains c.number = true ↔
      ∃ f, c.statement.encode (Int64.ofNat k) labels = .error f := by
  have hk := (List.getElem?_eq_some_iff.1 hc).1
  rw [List.contains_iff_mem, diagnostics_encode, List.mem_map]
  constructor
  · rintro ⟨d,hd,hline⟩
    obtain ⟨j,b,hj,hb⟩ := mem_reports_iff.1 hd
    obtain ⟨f,hf,rfl⟩ := CodeLine.failure?_eq_some_iff.1 hb
    have hlt := (List.getElem?_eq_some_iff.1 hj).1
    have hsame : (code.map CodeLine.number)[j]? = (code.map CodeLine.number)[k]? := by
      rw [List.getElem?_map, List.getElem?_map, hj, hc]
      exact congrArg some hline
    have hjk : j = k := (List.getElem?_inj (by simpa using hlt) hn).1 hsame
    subst hjk
    rw [hc, Option.some.injEq] at hj
    subst hj
    rw [List.length_take_of_le (Nat.le_of_lt hlt)] at hf
    exact ⟨f,hf⟩
  · rintro ⟨f,hf⟩
    refine ⟨⟨c.number,c.statement,f⟩,mem_reports_iff.2 ⟨k,c,hc,?_⟩,rfl⟩
    rw [CodeLine.failure?_eq_some_iff, List.length_take_of_le (Nat.le_of_lt hk)]
    exact ⟨f,hf,rfl⟩

/-- What the walk has listed once it has passed these lines of code. -/
def covering (labels : Labels) (code : List CodeLine) : Course :=
  ⟨code.length,Listing.entries code (encode labels code)⟩

theorem covering_concat (labels : Labels) (code : List CodeLine) (c : CodeLine) :
    covering labels (code ++ [c]) = ⟨code.length + 1,Listing.entries code (encode labels code) ++
      [entry code.length c (c.encode (Int64.ofNat code.length) labels)]⟩ := by
  simp [covering, entries_encode, List.mapIdx_append]

theorem row_eq_entry (labels : Labels) (hn : (code.map CodeLine.number).Nodup) {k : Nat}
    {c : CodeLine} (hc : code[k]? = some c) :
    row k ((c.statement.encode (Int64.ofNat k) labels).toOption.getD 0)
      (((encode labels code).diagnostics.map Diagnostic.line).contains c.number) c.text =
      entry k c (c.encode (Int64.ofNat k) labels) := by
  have hmarked := contains_number_iff labels hn hc
  cases he : c.statement.encode (Int64.ofNat k) labels with
  | ok w =>
    have hnot := mt hmarked.1 (by simp [he])
    rw [CodeLine.encode_eq_ok_iff.2 he, Bool.eq_false_iff.2 hnot]
    rfl
  | error f =>
    rw [CodeLine.encode_of_error he, hmarked.2 ⟨f,he⟩]
    rfl

/-- One line further, the walk is still in step with the second pass. -/
theorem next_covering (labels : Labels) {before after : List CodeLine} {r : LineRecord}
    (hn : ((before ++ r.code?.toList ++ after).map CodeLine.number).Nodup) :
    next (.ofEncoding (encode labels (before ++ r.code?.toList ++ after)))
      (covering labels before) r = some (covering labels (before ++ r.code?.toList)) := by
  cases hr : r.isCode with
  | false => simp [next, hr, LineRecord.code?_of_not_isCode hr]
  | true =>
    rw [LineRecord.code?_of_isCode hr, Option.toList_some] at hn ⊢
    have hc : (before ++ [r.codeLine] ++ after)[before.length]? = some r.codeLine := by simp
    rw [covering_concat, ← row_eq_entry labels hn hc]
    exact next_of_isCode hr (getElem?_words_encode hc)

theorem run_eq (labels : Labels) {rs : List LineRecord}
    (hn : ((LineRecord.code rs).map CodeLine.number).Nodup) :
    run (Emission.run labels rs) rs = some (covering labels (LineRecord.code rs)) := by
  have hrun : ∀ (before : List CodeLine) (rest : List LineRecord),
      ((before ++ LineRecord.code rest).map CodeLine.number).Nodup →
      rest.foldlM (next (.ofEncoding (encode labels (before ++ LineRecord.code rest))))
        (covering labels before) = some (covering labels (before ++ LineRecord.code rest)) := by
    intro before rest
    induction rest generalizing before with
    | nil => simp
    | cons r rest ih =>
      rw [LineRecord.code_cons, ← List.append_assoc]
      intro hn
      rw [List.foldlM_cons, next_covering labels hn]
      exact ih _ hn
  rw [Emission.run_eq]
  exact hrun [] rs hn

end Course

/-- The first column of an entry. -/
def address (e : Text) : Text := e.take 3

/-- The second column of an entry. -/
def middle (e : Text) : Text := (e.drop 5).take wordBits

/-- An entry for the statement at address `k`: the address in hexadecimal, the word in binary or
question marks, and the text, two blanks apart. The marks stand for no word, whatever else may be
wrong with the line. -/
structure Shows (labels : Labels) (k : Nat) (text : Text) (s : Statement) (e : Text) : Prop where
  columns : e = address e ++ utf8 "  " ++ middle e ++ utf8 "  " ++ text
  address_length : (address e).length = 3
  address_digits : address e ⊆ utf8 "0123456789ABCDEF"
  address_value : Literal.Digits 16 0 (address e) k
  middle_length : (middle e).length = 18
  word : ∀ w, s.encode (Int64.ofNat k) labels = .ok w →
    middle e ⊆ utf8 "01" ∧ Text.ofBinary (middle e) = w.toNat
  marks : middle e = List.replicate 18 0x3F ↔ ∃ f, s.encode (Int64.ofNat k) labels = .error f

theorem length_digits {k : Nat} {c : CodeLine} (hk : k < memoryWords) :
    (digits (c.encode (Int64.ofNat k) labels)).length = wordBits := by
  have hhere := toInt_ofNat_of_lt_memoryWords hk
  simp only [memoryWords] at hk
  cases he : c.statement.encode (Int64.ofNat k) labels with
  | ok w =>
    rw [CodeLine.encode_eq_ok_iff.2 he]
    exact Image.length_digits (decide_eq_true (Statement.encode_le (by omega) (by omega) he))
  | error f =>
    rw [CodeLine.encode_of_error he]
    exact List.length_replicate

/-- Binary digits are no question marks. -/
theorem digits_ne_marks (w : Word) (n : Nat) : Image.digits w ≠ List.replicate (n + 1) 0x3F := by
  intro h
  have hmem : (0x3F : UInt8) ∈ Image.digits w := by simp [h]
  exact absurd (Image.digits_subset w hmem) (by decide)

theorem length_hex {k : Nat} (hk : k < memoryWords) : (Text.hex 3 k).length = 3 := by
  simp only [memoryWords] at hk
  have hle : (Nat.toDigits 16 k).length ≤ 3 :=
    (Nat.length_toDigits_le_iff (by decide) (by decide)).2 (by omega)
  rw [Text.hex, Text.length_zeroFill, List.length_map, Nat.max_eq_left hle]

theorem address_entry {k : Nat} (hk : k < memoryWords) (c : CodeLine)
    (r : Except Diagnostic Word) : address (entry k c r) = Text.hex 3 k := by
  simp only [address, entry, List.append_assoc]
  exact List.take_left' (length_hex hk)

theorem middle_entry {k : Nat} (hk : k < memoryWords) (c : CodeLine) :
    middle (entry k c (c.encode (Int64.ofNat k) labels)) =
      digits (c.encode (Int64.ofNat k) labels) := by
  have hfirst : (Text.hex 3 k ++ utf8 "  ").length = 5 := by
    rw [List.length_append, length_hex hk]
    rfl
  rw [middle, entry, List.append_assoc, List.append_assoc, List.drop_left' hfirst]
  exact List.take_left' (length_digits hk)

theorem shows_entry {k : Nat} (hk : k < memoryWords) (c : CodeLine) :
    Shows labels k c.text c.statement (entry k c (c.encode (Int64.ofNat k) labels)) where
  columns := by
    rw [address_entry hk, middle_entry hk]
    rfl
  address_length := by
    rw [address_entry hk, length_hex hk]
  address_digits := by
    rw [address_entry hk]
    exact Text.hex_subset 3 k
  address_value := by
    rw [address_entry hk]
    exact Text.digits_hex 3 k
  middle_length := by
    rw [middle_entry hk, length_digits hk]
    rfl
  word := by
    intro w hw
    rw [middle_entry hk, CodeLine.encode_eq_ok_iff.2 hw]
    exact ⟨Image.digits_subset w,Image.ofBinary_digits w⟩
  marks := by
    rw [middle_entry hk]
    cases he : c.statement.encode (Int64.ofNat k) labels with
    | ok w =>
      rw [CodeLine.encode_eq_ok_iff.2 he]
      simp only [reduceCtorEq, exists_false, iff_false]
      exact digits_ne_marks w 17
    | error f =>
      rw [CodeLine.encode_of_error he]
      exact ⟨fun _ => ⟨f,rfl⟩,fun _ => rfl⟩

end Listing

/-- How lines, the first of them with number `n` and the first line of code at address `k`, are
accounted for: blank lines and comments are passed over, lines of code are listed, and each line
that is none of these is warned of. -/
inductive Accounts (labels : Labels) : Nat → Nat → List Line → List Text → List Text → Prop where
  | done {n k : Nat} : Accounts labels n k [] [] []
  | passed {n k : Nat} {l : Line} {lines : List Line} {listing warnings : List Text} :
      l.content = .blank ∨ l.content = .comment →
      Accounts labels (n + 1) k lines listing warnings →
      Accounts labels n k (l :: lines) listing warnings
  | listed {n k : Nat} {l : Line} {s : Statement} {lines : List Line} {e : Text}
      {listing warnings : List Text} :
      l.content = .instruction s → Listing.Shows labels k l.text s e →
      Accounts labels (n + 1) (k + 1) lines listing warnings →
      Accounts labels n k (l :: lines) (e :: listing) warnings
  | warned {n k : Nat} {l : Line} {lines : List Line} {listing warnings : List Text} :
      l.content = .unrecognised →
      Accounts labels (n + 1) k lines listing warnings →
      Accounts labels n k (l :: lines) listing
        ((utf8 "line " ++ Text.natural n ++ utf8 ": not an instruction, skipped: " ++ l.text) ::
          warnings)

namespace Accounts

variable {labels : Labels} {n k : Nat} {lines : List Line} {listing warnings : List Text}

theorem lengths (h : Accounts labels n k lines listing warnings) :
    listing.length = lines.countP (fun l => l.content.kind = .instruction) ∧
    warnings.length = lines.countP (fun l => l.content.kind = .unrecognised) := by
  induction h with
  | done => exact ⟨rfl,rfl⟩
  | passed hl _ ih => rcases hl with hl | hl <;> simp [ih, hl, Content.kind]
  | listed hl _ _ ih => simp [ih, hl, Content.kind]
  | warned hl _ ih => simp [ih, hl, Content.kind]

end Accounts

theorem accounts_of_numbered (labels : Labels) {n k : Nat} {lines : List Line}
    (hn : Line.Numbered n lines) (hk : k + (Line.code lines).length ≤ memoryWords) :
    Accounts labels n k lines
      ((Line.code lines).mapIdx fun i c =>
        Listing.entry (k + i) c (c.encode (Int64.ofNat (k + i)) labels))
      (Line.warnings lines) := by
  induction lines generalizing n k with
  | nil => exact .done
  | cons l lines ih =>
    obtain ⟨hnumber,hn⟩ := Line.numbered_cons_iff.1 hn
    rw [Line.code_cons] at hk ⊢
    rw [Line.warnings_cons]
    rcases l.code?_warning?_cases with ⟨hl,hcode,hwarning⟩ | ⟨hl,hcode,hwarning⟩ |
      ⟨s,hl,hcode,hwarning⟩
    all_goals rw [hcode] at hk ⊢
    all_goals rw [hwarning]
    · exact .passed hl (ih hn hk)
    · rw [hnumber, Text.decimal_natCast]
      exact .warned hl (ih hn hk)
    · rw [Option.toList_some, List.length_append, List.length_singleton] at hk
      have hlt : k < memoryWords := by omega
      have hrest : k + 1 + (Line.code lines).length ≤ memoryWords := by omega
      have htail := ih hn hrest
      simp only [Nat.add_assoc, Nat.add_comm 1] at htail
      rw [Option.toList_some, List.singleton_append, List.mapIdx_cons]
      exact .listed hl (Listing.shows_entry hlt ⟨l.number,l.text,s⟩) htail

theorem listing_assemble_of_le {source : Text} (h : (Source.code source).length ≤ memoryWords) :
    (assemble true source).listing = Listing.entries (Source.code source)
      (encode (assemble true source).labels (Source.code source)) := by
  rw [labels_assemble, assemble_of_le h rfl]
  rfl

theorem accounts_assemble {source : Text} (h : (Source.code source).length ≤ memoryWords) :
    Accounts (assemble true source).labels 1 0 (Source.lines source)
      (assemble true source).listing (assemble true source).warnings := by
  have hfits : 0 + (Line.code (Source.lines source)).length ≤ memoryWords := by
    rw [Nat.zero_add]
    exact h
  have hall := accounts_of_numbered (assemble true source).labels (Line.numbered_lines source) hfits
  simp only [Nat.zero_add] at hall
  rw [listing_assemble_of_le h, warnings_assemble, Listing.entries_encode]
  exact hall

/-- The entry at an address shows the line of the image there. -/
theorem Assembles.middle_listing {code : List CodeLine} {ws : List Word} (h : Assembles code ws)
    {k : Nat} {e : Text}
    (he : (Listing.entries code (encode (Labels.bindFrom 0 ∅ code) code))[k]? = some e) :
    (Source.pieces (Image.text ws))[k]? = some (Listing.middle e) := by
  rw [Listing.entries_encode, List.getElem?_mapIdx, Option.map_eq_some_iff] at he
  obtain ⟨c,hc,rfl⟩ := he
  obtain ⟨w,hw,hencode⟩ := h.word hc
  have hk : k < memoryWords := Nat.lt_of_lt_of_le (List.getElem?_eq_some_iff.1 hc).1 h.fits
  rw [Image.pieces_text, List.getElem?_map, Image.getElem?_rightpad hk, Listing.middle_entry hk,
    CodeLine.encode_eq_ok_iff.2 hencode, List.getD_eq_getElem?_getD, hw]
  rfl

/-- With the listing on, the listing and the warnings of a program that fits the memory account for
each line of its source. The walk that makes the listing finds a word for each line of code. If there
are words, their image can be written, and its lines are the second column of the listing. -/
theorem listing_accounts (s : Session) (source : Text) {t : Session}
    {result : Except Failure (List Word)}
    (hfits : ((Source.lines source).countP fun l => l.content.kind = .instruction) ≤ 2048)
    (h : (s.setListing true).assemble source = (result,t)) :
    Accounts t.labels 1 0 (Source.lines source) t.listing t.warnings ∧
    t.listing.length = ((Source.lines source).countP fun l => l.content.kind = .instruction) ∧
    t.warnings.length = ((Source.lines source).countP fun l => l.content.kind = .unrecognised) ∧
    Listing.Course.run (Emission.run t.labels (Source.records source)) (Source.records source) =
      some ⟨t.listing.length,t.listing⟩ ∧
    ∀ ws, result = .ok ws → (Image.write .unbounded ws).2 = .ok () ∧
      ∀ (k : Nat) (e : Text), t.listing[k]? = some e →
        (Source.pieces (Image.write .unbounded ws).1.text)[k]? = some (Listing.middle e) := by
  have hcode : (Source.code source).length ≤ memoryWords := by
    rw [Source.length_code]
    exact hfits
  obtain ⟨rfl,rfl⟩ := Prod.mk.inj h
  have haccounts := accounts_assemble hcode
  have hlisting := listing_assemble_of_le hcode
  refine ⟨haccounts,haccounts.lengths.1,haccounts.lengths.2,?_,?_⟩
  · have hnodup : ((LineRecord.code (Source.records source)).map CodeLine.number).Nodup := by
      rw [Source.code_records]
      exact (Line.numbered_lines source).nodup_code
    have hrun := Listing.Course.run_eq (assemble true source).labels hnodup
    have hlength := haccounts.lengths.1.trans (Source.length_code source).symm
    rw [Source.code_records, Listing.Course.covering, ← hlength, ← hlisting] at hrun
    exact hrun
  · intro ws hws
    have ha := assemble_result_eq_ok_iff.1 hws
    have haccepted : Image.Accepted ws := ⟨ha.length_eq ▸ ha.fits,ha.words_le⟩
    refine ⟨Image.write_eq_ok_iff.2 haccepted,fun k e he => ?_⟩
    rw [labels_assemble] at hlisting
    rw [haccepted.text_write]
    apply ha.middle_listing
    rw [← hlisting]
    exact he

/-- A label that stands twice, a line that is no statement, a comment, and an operand left out. -/
def mixed : Text := utf8 "twice: wait\n1st\ntwice: wait\n; note\n load\n"

theorem listing_accounts_mixed_waitLoop :
    Accounts ((Session.start.setListing true).assemble mixed).2.labels 1 0 (Source.lines mixed)
      ((Session.start.setListing true).assemble mixed).2.listing
      ((Session.start.setListing true).assemble mixed).2.warnings ∧
    ((Session.start.setListing true).assemble mixed).2.listing.length = 3 ∧
    ((Session.start.setListing true).assemble mixed).2.warnings.length = 1 ∧
    (Source.pieces (Image.write .unbounded [0, 135170, 135166, 192512]).1.text)[2]? =
      some (utf8 "100000111111111110") := by
  have hmixed := listing_accounts .start mixed (by decide +kernel) rfl
  have hloop := listing_accounts .start waitLoop (by decide +kernel) rfl
  have hwords : (assemble true waitLoop).result = .ok [0, 135170, 135166, 192512] := by
    decide +kernel
  have hentry : (assemble true waitLoop).listing[2]? =
      some (utf8 "002  100000111111111110   br start") := by decide +kernel
  refine ⟨hmixed.1,hmixed.2.1.trans ?_,hmixed.2.2.1.trans ?_,
    ((hloop.2.2.2.2 _ hwords).2 2 _ hentry).trans ?_⟩
  all_goals decide +kernel

end Asm18
