import Asm18.Proofs.WhiteSpace

/-! The grammar of lines, written as a pattern: an optional label and colon, blanks, a mnemonic, and
then the end of the text or blanks and an optional operand. Each token is as long as it can be.
Parsing finds exactly the statements of the grammar, and tells the other lines apart by what stands
after their white space. -/
namespace Asm18.Grammar

def wordBytes : Text := utf8 "ABCDEFGHIJKLMNOPQRSTUVWXYZabcdefghijklmnopqrstuvwxyz0123456789_"

def blankBytes : Text := utf8 " \t\n\x0b\x0c\r"

def literalBytes : Text := utf8 "bxabcdef0123456789"

/-- One or more bytes of a class at the front of a text, as many as there are. -/
structure Munch (bytes t token rest : Text) : Prop where
  split : t = token ++ rest
  nonempty : token ≠ []
  inside : ∀ b ∈ token, b ∈ bytes
  longest : ∀ b ∈ rest.head?, b ∉ bytes

/-- A word and a colon, or nothing. -/
inductive Label : Text → Option Text → Text → Prop where
  | present {t name rest : Text} : Munch wordBytes t name (utf8 ":" ++ rest) →
      Label t (some name) rest
  | absent {t : Text} : Label t none t

/-- A hash sign and literal characters, or a word, or neither of them. -/
inductive Operand : Text → Option Text → Prop where
  | literal {t digits rest : Text} : Munch literalBytes t digits rest →
      Operand (utf8 "#" ++ t) (some (utf8 "#" ++ digits))
  | word {t name rest : Text} : Munch wordBytes t name rest → Operand t (some name)
  | absent {t : Text} : (∀ u digits rest, t = utf8 "#" ++ u → ¬ Munch literalBytes u digits rest) →
      (∀ name rest, ¬ Munch wordBytes t name rest) → Operand t none

/-- The end of the text, or blanks and an operand with anything after it. -/
inductive Tail : Text → Option Text → Prop where
  | finished : Tail [] none
  | spaced {t blanks rest : Text} {operand : Option Text} : Munch blankBytes t blanks rest →
      Operand rest operand → Tail t operand

inductive Matches : Text → Statement → Prop where
  | intro {t u v w blanks mnemonic : Text} {label operand : Option Text} : Label t label u →
      Munch blankBytes u blanks v → Munch wordBytes v mnemonic w → Tail w operand →
      Matches t ⟨label,mnemonic,operand⟩

theorem mem_bytes_iff {p : UInt8 → Bool} {bytes : Text}
    (h : ∀ n < 256, p (UInt8.ofNat n) = (bytes.map UInt8.toNat).contains n) (b : UInt8) :
    p b = true ↔ b ∈ bytes := by
  have hb := h b.toNat b.toNat_lt
  rw [UInt8.ofNat_toNat] at hb
  rw [hb, List.contains_iff_mem, List.mem_map]
  constructor
  · intro hm
    obtain ⟨c,hc,he⟩ := hm
    rwa [← UInt8.toNat_inj.1 he]
  · intro hm
    exact ⟨b,hm,rfl⟩

theorem isWord_iff : ∀ b, Statement.isWord b = true ↔ b ∈ wordBytes :=
  mem_bytes_iff (by decide +kernel)

theorem isBlank_iff : ∀ b, Statement.isBlank b = true ↔ b ∈ blankBytes :=
  mem_bytes_iff (by decide +kernel)

theorem isLiteral_iff : ∀ b, Statement.isLiteral b = true ↔ b ∈ literalBytes :=
  mem_bytes_iff (by decide +kernel)

theorem not_isWord_of_isBlank : ∀ b, Statement.isBlank b = true → Statement.isWord b = false :=
  Text.forall_byte (by decide +kernel)

theorem munch_iff {bytes t token rest : Text} {p : UInt8 → Bool}
    (hp : ∀ b, p b = true ↔ b ∈ bytes) : Munch bytes t token rest ↔
      t.takeWhile p = token ∧ t.dropWhile p = rest ∧ token ≠ [] := by
  constructor
  · intro h
    have hin : ∀ b ∈ token, p b = true := fun b hb => (hp b).2 (h.inside b hb)
    have hstop : rest.takeWhile p = [] ∧ rest.dropWhile p = rest := by
      cases rest with
      | nil => exact ⟨rfl,rfl⟩
      | cons b rest =>
        have hb : p b = false := by
          rw [Bool.eq_false_iff, ne_eq, hp]
          exact h.longest b rfl
        simp [hb]
    rw [h.split, List.takeWhile_append_of_pos hin, List.dropWhile_append_of_pos hin, hstop.1,
      hstop.2, List.append_nil]
    exact ⟨rfl,rfl,h.nonempty⟩
  · intro h
    obtain ⟨rfl,rfl,hn⟩ := h
    refine ⟨List.takeWhile_append_dropWhile.symm,hn,?_,?_⟩
    · intro b hb
      exact (hp b).1 (List.all_eq_true.1 List.all_takeWhile b hb)
    · intro b hb
      have hd := List.head?_dropWhile_not p t
      rw [Option.mem_def.1 hb] at hd
      rw [← hp, Bool.not_eq_true]
      exact hd

/-- The tokens of a class are found by their first byte. -/
theorem Munch.cons {bytes t token rest : Text} (h : Munch bytes t token rest) :
    ∃ b u, t = b :: u ∧ b ∈ bytes := by
  obtain ⟨b,bs,rfl⟩ := List.exists_cons_of_ne_nil h.nonempty
  exact ⟨b,bs ++ rest,h.split,h.inside b (by simp)⟩

open Statement

theorem word?_eq_some_iff {t name rest : Text} :
    word? t = some (name,rest) ↔ Munch wordBytes t name rest := by
  rw [munch_iff isWord_iff, word?]
  by_cases h : t.takeWhile isWord = []
  · simp only [h, if_true, reduceCtorEq, false_iff]
    intro hm
    exact hm.2.2 hm.1.symm
  · simp only [h, if_false, Option.some.injEq, Prod.mk.injEq]
    constructor
    · intro hm
      exact ⟨hm.1,hm.2,hm.1 ▸ h⟩
    · intro hm
      exact ⟨hm.1,hm.2.1⟩

theorem word?_eq_none_iff {t : Text} :
    word? t = none ↔ ∀ name rest, ¬ Munch wordBytes t name rest := by
  constructor
  · intro h name rest hm
    rw [word?_eq_some_iff.2 hm] at h
    cases h
  · intro h
    cases hw : word? t with
    | none => rfl
    | some p => exact absurd (word?_eq_some_iff.1 hw) (h p.1 p.2)

theorem blanks?_eq_some_iff {t rest : Text} :
    blanks? t = some rest ↔ ∃ blanks, Munch blankBytes t blanks rest := by
  constructor
  · intro h
    cases t with
    | nil => cases h
    | cons b t =>
      rw [blanks?] at h
      split at h
      · rename_i hb
        cases h
        exact ⟨_,(munch_iff isBlank_iff).2 ⟨rfl,by simp [hb],by simp [hb]⟩⟩
      · cases h
  · intro h
    obtain ⟨blanks,hm⟩ := h
    obtain ⟨b,u,rfl,hb⟩ := hm.cons
    obtain ⟨-,hd,-⟩ := (munch_iff isBlank_iff).1 hm
    rw [← isBlank_iff] at hb
    rw [blanks?, if_pos hb, ← hd, List.dropWhile_cons_of_pos hb]

theorem word?_of_isBlank {b : UInt8} {t : Text} (hb : isBlank b = true) :
    word? (b :: t) = none := by
  rw [word?, List.takeWhile_cons_of_neg (by simp [not_isWord_of_isBlank b hb]), if_pos rfl]

theorem word?_hash (t : Text) : word? (hash :: t) = none := rfl

theorem operand_operand? (t : Text) : Operand t (operand? t) := by
  cases t with
  | nil =>
    refine .absent (fun u digits rest ht => by cases ht) fun name rest hm => ?_
    obtain ⟨b,u,ht,-⟩ := hm.cons
    cases ht
  | cons b t =>
    by_cases hb : b = hash
    · subst hb
      by_cases hd : t.takeWhile isLiteral = []
      · rw [operand?, if_pos rfl, if_pos hd]
        refine .absent (fun u digits rest ht hm => ?_) (word?_eq_none_iff.1 (word?_hash t))
        obtain rfl : t = u := (List.cons.inj ht).2
        obtain ⟨hdigits,-,hn⟩ := (munch_iff isLiteral_iff).1 hm
        exact hn (hdigits.symm.trans hd)
      · rw [operand?, if_pos rfl, if_neg hd]
        exact .literal ((munch_iff isLiteral_iff).2 ⟨rfl,rfl,hd⟩)
    · rw [operand?, if_neg hb]
      cases hw : word? (b :: t) with
      | none =>
        refine .absent (fun u digits rest ht => ?_) (word?_eq_none_iff.1 hw)
        exact absurd (List.cons.inj ht).1 hb
      | some p => exact .word (word?_eq_some_iff.1 hw)

theorem operand?_of_operand {t : Text} {o : Option Text} (h : Operand t o) : operand? t = o := by
  cases h with
  | @literal t digits rest hm =>
    obtain ⟨hd,-,hn⟩ := (munch_iff isLiteral_iff).1 hm
    change operand? (hash :: t) = some (hash :: digits)
    rw [operand?, if_pos rfl, hd, if_neg hn]
  | @word t name rest hm =>
    have hw := word?_eq_some_iff.2 hm
    obtain ⟨b,u,rfl,hb⟩ := hm.cons
    have hne : b ≠ hash := by
      intro he
      rw [he, word?_hash] at hw
      cases hw
    rw [operand?, if_neg hne, hw]
    rfl
  | absent hl hw =>
    cases t with
    | nil => rfl
    | cons b t =>
      rw [operand?, word?_eq_none_iff.2 hw]
      by_cases hb : b = hash
      · subst hb
        have hd : t.takeWhile isLiteral = [] := by
          apply Classical.byContradiction
          intro hn
          exact hl t _ _ rfl ((munch_iff isLiteral_iff).2 ⟨rfl,rfl,hn⟩)
        rw [if_pos rfl, if_pos hd]
      · rw [if_neg hb]
        rfl

theorem label_takeLabel (t : Text) : Label t (takeLabel t).1 (takeLabel t).2 := by
  unfold takeLabel
  split
  · rename_i name c rest hw
    by_cases hc : c = colon
    · subst hc
      rw [if_pos rfl]
      exact .present (word?_eq_some_iff.1 hw)
    · rw [if_neg hc]
      exact .absent
  · exact .absent

/-- What follows a label decides whether there is one: without it a blank comes first. -/
theorem takeLabel_of_label {t u v blanks : Text} {label : Option Text} (h : Label t label u)
    (hb : Munch blankBytes u blanks v) : takeLabel t = (label,u) := by
  cases h with
  | present hm =>
    have hw := word?_eq_some_iff.2 hm
    unfold takeLabel
    rw [hw]
    rfl
  | absent =>
    obtain ⟨b,u,rfl,hmem⟩ := hb.cons
    unfold takeLabel
    rw [word?_of_isBlank ((isBlank_iff b).2 hmem)]

theorem matches_of_parse? {t : Text} {s : Statement} (h : parse? t = some s) : Matches t s := by
  have hl := label_takeLabel t
  unfold parse? at h
  simp only [] at h
  cases hw : (blanks? (takeLabel t).2).bind word? with
  | none =>
    rw [hw] at h
    cases h
  | some p =>
    obtain ⟨mnemonic,w⟩ := p
    rw [hw] at h
    obtain ⟨v,hv,hm⟩ := Option.bind_eq_some_iff.1 hw
    obtain ⟨blanks,hv⟩ := blanks?_eq_some_iff.1 hv
    cases w with
    | nil =>
      cases h
      exact .intro hl hv (word?_eq_some_iff.1 hm) .finished
    | cons b w =>
      obtain ⟨rest,hr,rfl⟩ := Option.map_eq_some_iff.1 h
      obtain ⟨spaces,hr⟩ := blanks?_eq_some_iff.1 hr
      exact .intro hl hv (word?_eq_some_iff.1 hm) (.spaced hr (operand_operand? rest))

theorem parse?_of_matches {t : Text} {s : Statement} (h : Matches t s) : parse? t = some s := by
  cases h with
  | @intro u v w blanks mnemonic label operand hl hb hm ht =>
    have hw : (blanks? u).bind word? = some (mnemonic,w) := by
      rw [blanks?_eq_some_iff.2 ⟨blanks,hb⟩, Option.bind_some, word?_eq_some_iff.2 hm]
    unfold parse?
    simp only [takeLabel_of_label hl hb, hw]
    cases ht with
    | finished => rfl
    | @spaced t spaces rest o hs ho =>
      obtain ⟨b,u,rfl,-⟩ := hs.cons
      change (blanks? (b :: u)).map (fun t => Statement.mk label mnemonic (operand? t)) = _
      rw [blanks?_eq_some_iff.2 ⟨spaces,hs⟩, Option.map_some, operand?_of_operand ho]

/-- The scanner finds a statement exactly where the pattern does, with the same tokens. -/
theorem parse?_eq_some_iff {t : Text} {s : Statement} : parse? t = some s ↔ Matches t s :=
  ⟨matches_of_parse?,parse?_of_matches⟩

/-- The first character that is not white space is a semicolon. -/
def StartsComment (t : Text) : Prop := ∃ s rest, OnlySpace s ∧ t = s ++ (utf8 ";" ++ rest)

theorem startsComment_iff {t : Text} :
    StartsComment t ↔ ∃ rest, t.trimStart = Content.semicolon :: rest := by
  have htrim : ∀ rest, t.trimStart = Content.semicolon :: rest ↔
      ∃ s, OnlySpace s ∧ t = s ++ Content.semicolon :: rest :=
    fun rest => Text.trimStart_eq_cons_iff (by decide) (by decide)
  constructor
  · intro h
    obtain ⟨s,rest,hs,ht⟩ := h
    exact ⟨rest,(htrim rest).2 ⟨s,hs,ht⟩⟩
  · intro h
    obtain ⟨rest,ht⟩ := h
    obtain ⟨s,hs,ht⟩ := (htrim rest).1 ht
    exact ⟨s,rest,hs,ht⟩

theorem ascii_of_isWord : ∀ b, isWord b = true →
    b < 0x80 ∧ isBlank b = false ∧ b ≠ Content.semicolon :=
  Text.forall_byte (by decide +kernel)

/-- White space in front of a statement is blanks of ASCII, so that its first other byte belongs to
a word. -/
theorem trimStart_of_matches {t : Text} {s : Statement} (h : Matches t s) :
    ∃ b rest, t.trimStart = b :: rest ∧ isWord b = true := by
  have hword : ∀ {u token rest}, Munch wordBytes u token rest →
      ∃ b rest, u.trimStart = b :: rest ∧ isWord b = true := by
    intro u token rest hm
    obtain ⟨b,v,rfl,hb⟩ := hm.cons
    rw [← isWord_iff] at hb
    obtain ⟨ha,hn,-⟩ := ascii_of_isWord b hb
    exact ⟨b,v,Text.trimStart_ascii ha hn,hb⟩
  cases h with
  | intro hl hb hm ht =>
    cases hl with
    | present hn => exact hword hn
    | absent =>
      have hs := onlySpace_of_blanks fun b hmem => (isBlank_iff b).2 (hb.inside b hmem)
      rw [hb.split, Text.trimStart_onlySpace_append hs]
      exact hword hm

theorem not_onlySpace_of_matches {t : Text} {s : Statement} (h : Matches t s) :
    ¬ OnlySpace t := by
  intro hs
  obtain ⟨b,rest,ht,-⟩ := trimStart_of_matches h
  rw [Text.trimStart_eq_nil_iff.2 hs] at ht
  cases ht

theorem not_startsComment_of_matches {t : Text} {s : Statement} (h : Matches t s) :
    ¬ StartsComment t := by
  intro hc
  obtain ⟨b,rest,ht,hb⟩ := trimStart_of_matches h
  obtain ⟨rest',hr⟩ := startsComment_iff.1 hc
  rw [ht] at hr
  exact (ascii_of_isWord b hb).2.2 (List.cons.inj hr).1

theorem not_startsComment_of_onlySpace {t : Text} (h : OnlySpace t) : ¬ StartsComment t := by
  intro hc
  obtain ⟨rest,hr⟩ := startsComment_iff.1 hc
  rw [Text.trimStart_eq_nil_iff.2 h] at hr
  cases hr

theorem parse_of_onlySpace {t : Text} (h : OnlySpace t) : Content.parse t = .blank := by
  rw [Content.parse, Text.trimStart_eq_nil_iff.2 h]

theorem parse_of_startsComment {t : Text} (h : StartsComment t) : Content.parse t = .comment := by
  obtain ⟨rest,hr⟩ := startsComment_iff.1 h
  rw [Content.parse, hr]
  exact if_pos rfl

/-- A line that is neither blank nor a comment is read as a statement. -/
theorem parse_of_not {t : Text} (hs : ¬ OnlySpace t) (hc : ¬ StartsComment t) :
    Content.parse t =
      match parse? t with
      | some s => .instruction s
      | none => .unrecognised := by
  cases ht : t.trimStart with
  | nil => exact absurd (Text.trimStart_eq_nil_iff.1 ht) hs
  | cons b rest =>
    have hb : b ≠ Content.semicolon := by
      intro he
      exact hc (startsComment_iff.2 ⟨rest,he ▸ ht⟩)
    rw [Content.parse, ht]
    exact if_neg hb

theorem parse_of_matches {t : Text} {s : Statement} (h : Matches t s) :
    Content.parse t = .instruction s := by
  rw [parse_of_not (not_onlySpace_of_matches h) (not_startsComment_of_matches h),
    parse?_of_matches h]

theorem parse_eq_instruction_iff {t : Text} {s : Statement} :
    Content.parse t = .instruction s ↔ Matches t s := by
  refine ⟨fun h => ?_,parse_of_matches⟩
  by_cases hs : OnlySpace t
  · rw [parse_of_onlySpace hs] at h
    cases h
  · by_cases hc : StartsComment t
    · rw [parse_of_startsComment hc] at h
      cases h
    · rw [parse_of_not hs hc] at h
      cases hp : parse? t with
      | none =>
        rw [hp] at h
        cases h
      | some s' =>
        rw [hp] at h
        cases h
        exact matches_of_parse? hp

theorem parse_of_not_matches {t : Text} (hs : ¬ OnlySpace t) (hc : ¬ StartsComment t)
    (hm : ∀ s, ¬ Matches t s) : Content.parse t = .unrecognised := by
  rw [parse_of_not hs hc]
  cases hp : parse? t with
  | none => rfl
  | some s => exact absurd (matches_of_parse? hp) (hm s)

/-- What a line is to be parsed to. Its text is the given one less a carriage return at the end; it
is a statement if its text matches the pattern, and otherwise goes by what stands after its white
space, and holds no token. -/
structure Classified (number : Int) (raw : Text) (l : Line) : Prop where
  number_eq : l.number = number
  text_eq : raw = l.text ++ [Text.carriageReturn] ∨
    raw = l.text ∧ raw.getLast? ≠ some Text.carriageReturn
  instruction : ∀ s, l.content.kind = .instruction ∧ l.content.statement? = some s ↔
    Matches l.text s
  apart : ∀ s, Matches l.text s → ¬ OnlySpace l.text ∧ ¬ StartsComment l.text
  otherwise : (∀ s, ¬ Matches l.text s) → l.content.statement? = none ∧
    (l.content.kind = .blank ↔ OnlySpace l.text) ∧
    (l.content.kind = .comment ↔ StartsComment l.text) ∧
    (l.content.kind = .unrecognised ↔ ¬ OnlySpace l.text ∧ ¬ StartsComment l.text)

theorem kind_eq_instruction_iff {c : Content} {s : Statement} :
    c.kind = .instruction ∧ c.statement? = some s ↔ c = .instruction s := by
  cases c <;> simp [Content.kind, Content.statement?]

theorem classified_parse (number : Int) (raw : Text) :
    Classified number raw (Line.parse number raw) where
  number_eq := rfl
  text_eq := raw.chomp_cases
  instruction _ := kind_eq_instruction_iff.trans parse_eq_instruction_iff
  apart _ h := ⟨not_onlySpace_of_matches h,not_startsComment_of_matches h⟩
  otherwise h := by
    change (Content.parse raw.chomp).statement? = none ∧
      ((Content.parse raw.chomp).kind = .blank ↔ OnlySpace raw.chomp) ∧
      ((Content.parse raw.chomp).kind = .comment ↔ StartsComment raw.chomp) ∧
      ((Content.parse raw.chomp).kind = .unrecognised ↔
        ¬ OnlySpace raw.chomp ∧ ¬ StartsComment raw.chomp)
    by_cases hs : OnlySpace raw.chomp
    · rw [parse_of_onlySpace hs]
      simp [Content.kind, Content.statement?, hs, not_startsComment_of_onlySpace hs]
    · by_cases hc : StartsComment raw.chomp
      · rw [parse_of_startsComment hc]
        simp [Content.kind, Content.statement?, hs, hc]
      · rw [parse_of_not_matches hs hc h]
        simp [Content.kind, Content.statement?, hs, hc]

theorem Classified.text_unique {number : Int} {raw : Text} {l : Line}
    (h : Classified number raw l) : l.text = raw.chomp := by
  rcases h.text_eq with ht | ht
  · rw [ht, Text.chomp_append_carriageReturn]
  · rw [Text.chomp, if_neg ht.2, ht.1]

/-- The classification leaves nothing open. -/
theorem Classified.content_eq {number : Int} {raw : Text} {l : Line}
    (h : Classified number raw l) : l.content = Content.parse l.text := by
  by_cases hm : ∃ s, Matches l.text s
  · obtain ⟨s,hm⟩ := hm
    rw [parse_of_matches hm, kind_eq_instruction_iff.1 ((h.instruction s).2 hm)]
  · have hn : ∀ s, ¬ Matches l.text s := fun s hs => hm ⟨s,hs⟩
    obtain ⟨-,hblank,hcomment,hother⟩ := h.otherwise hn
    by_cases hs : OnlySpace l.text
    · rw [parse_of_onlySpace hs]
      have hk := hblank.2 hs
      cases hl : l.content <;> simp_all [Content.kind]
    · by_cases hc : StartsComment l.text
      · rw [parse_of_startsComment hc]
        have hk := hcomment.2 hc
        cases hl : l.content <;> simp_all [Content.kind]
      · rw [parse_of_not_matches hs hc hn]
        have hk := hother.2 ⟨hs,hc⟩
        cases hl : l.content <;> simp_all [Content.kind]

/-- Parsing accepts exactly the grammar: it returns the one line that the classification asks for. -/
theorem eq_parse_iff_classified (number : Int) (raw : Text) (l : Line) :
    l = Line.parse number raw ↔ Classified number raw l := by
  constructor
  · intro h
    rw [h]
    exact classified_parse number raw
  · intro h
    have ht := h.text_unique
    have hc := h.content_eq
    rw [ht] at hc
    calc
      l = ⟨l.number,l.text,l.content⟩ := rfl
      _ = Line.parse number raw := by rw [h.number_eq, hc, ht]; rfl

end Asm18.Grammar
