import Asm18.Session
import Asm18.Proofs.Assembly
import Asm18.Proofs.Printing
import Asm18.Proofs.Reports

/-! How an assembly ends. Whatever a session assembled before, the lines of code alone decide: a
program that does not fit the memory is not encoded, and any other has its words exactly if there
is nothing to report. No branch of such a program is out of range. -/
namespace Asm18

/-- What both passes report of a program that fits the memory. -/
def diagnosis (code : List CodeLine) : List Diagnostic :=
  reports CodeLine.duplicate? code ++ reports (CodeLine.failure? (resolve code).labels) code

theorem diagnostics_assemble_of_lt {on : Bool} {source : Text}
    (h : memoryWords < (Source.code source).length) :
    (assemble on source).diagnostics = reports CodeLine.duplicate? (Source.code source) := by
  rw [assemble_of_lt h, Labels.duplicatesFrom_empty]

theorem diagnostics_assemble_of_le {on : Bool} {source : Text}
    (h : (Source.code source).length ≤ memoryWords) :
    (assemble on source).diagnostics = diagnosis (Source.code source) := by
  rw [assemble_of_le h rfl, Labels.duplicatesFrom_empty, diagnostics_encode]
  rfl

theorem result_assemble_of_le {on : Bool} {source : Text}
    (h : (Source.code source).length ≤ memoryWords) :
    (assemble on source).result =
      if diagnosis (Source.code source) = [] then
        .ok (encode (resolve (Source.code source)).labels (Source.code source)).words
      else .error (.faulty (diagnosis (Source.code source))) := by
  rw [assemble_of_le h rfl, Labels.duplicatesFrom_empty, diagnostics_encode]
  rfl

namespace Session

@[simp] theorem diagnostics_assemble (s : Session) (source : Text) :
    (s.assemble source).2.diagnostics = (Asm18.assemble s.withListing source).diagnostics := rfl

@[simp] theorem labels_assemble (s : Session) (source : Text) :
    (s.assemble source).2.labels = Labels.bindFrom 0 ∅ (Source.code source) :=
  Asm18.labels_assemble s.withListing source

end Session

/-- Its third line carries a label again and has an operand it must not have. -/
def crooked : Text := utf8 "again: load r1\n; note\nagain: wait r1\n br nowhere\n"

/-- A branch over `n` lines of code to the last. -/
def stretch (n : Nat) : List Statement :=
  ⟨none,utf8 "br",some (utf8 "end")⟩ :: List.replicate n ⟨none,utf8 "wait",none⟩ ++
    [⟨some (utf8 "end"),utf8 "wait",none⟩]

theorem code_stretch (n : Nat) : Source.code (Source.print (stretch n)) =
    Source.number (stretch n) := by
  apply Source.code_print
  intro s hs
  simp only [stretch, List.cons_append, List.mem_cons, List.mem_append, List.mem_replicate,
    List.not_mem_nil, or_false] at hs
  have hname : IsName (utf8 "end") := by decide
  rcases hs with rfl | ⟨-,rfl⟩ | rfl
  · exact ⟨by simp,by decide,by simp [IsOperand, hname]⟩
  · exact ⟨by simp,by decide,by simp⟩
  · exact ⟨by simp [hname],by decide,by simp⟩

theorem length_code_stretch (n : Nat) :
    (Source.code (Source.print (stretch n))).length = n + 2 := by
  rw [code_stretch]
  simp [Source.number, stretch]

theorem get?_labels_stretch (n : Nat) :
    (Labels.bindFrom 0 ∅ (Source.code (Source.print (stretch n)))).get? (utf8 "end") =
      some (Int64.ofNat (n + 1)) := by
  have hcarries : Carries (Source.code (Source.print (stretch n))) (n + 1) (utf8 "end") := by
    rw [code_stretch]
    simp [Carries, Source.number, stretch]
  have hlast : ∀ i, Carries (Source.code (Source.print (stretch n))) i (utf8 "end") →
      i ≤ n + 1 := by
    intro i hi
    have hlt := hi.lt_length
    rw [length_code_stretch] at hlt
    omega
  rw [Labels.get?_bindFrom_of_last hcarries hlast, Nat.zero_add]

/-- How assembling a source ends, in a session with any past. There is one diagnostic for each line
of code whose label is carried already, and then, unless the program is too large, one for each line
of code that has no word at its address. -/
theorem assemble_outcome (s : Session) (source : Text) :
    (memoryWords < (Source.code source).length →
      (s.assemble source).1 = .error (.tooLarge (Source.code source).length) ∧
      (s.assemble source).2.diagnostics = reports CodeLine.duplicate? (Source.code source)) ∧
    ((Source.code source).length ≤ memoryWords →
      (s.assemble source).2.diagnostics = diagnosis (Source.code source) ∧
      (diagnosis (Source.code source) ≠ [] →
        (s.assemble source).1 = .error (.faulty (diagnosis (Source.code source)))) ∧
      ((∃ ws, (s.assemble source).1 = .ok ws ∧ ws.length = (Source.code source).length) ↔
        diagnosis (Source.code source) = [])) := by
  constructor
  · intro h
    have hlarge : (s.assemble source).1 = .error (.tooLarge (Source.code source).length) :=
      congrArg Assembly.result (assemble_of_lt h)
    exact ⟨hlarge,diagnostics_assemble_of_lt h⟩
  · intro h
    have hresult : (s.assemble source).1 = _ := result_assemble_of_le h
    rw [hresult]
    refine ⟨diagnostics_assemble_of_le h,fun hne => if_neg hne,?_⟩
    constructor
    · intro hw
      obtain ⟨ws,hws,-⟩ := hw
      split at hws
      · assumption
      · cases hws
    · intro hnil
      rw [if_pos hnil]
      exact ⟨_,rfl,by rw [Encoding.length_words, length_encode]⟩

theorem assemble_outcome_crooked_stretch :
    (Session.start.assemble crooked).1 = .error (.faulty
      [⟨3,⟨some (utf8 "again"),utf8 "wait",some (utf8 "r1")⟩,.duplicateLabel 1⟩,
        ⟨3,⟨some (utf8 "again"),utf8 "wait",some (utf8 "r1")⟩,.unexpectedOperand⟩,
        ⟨4,⟨none,utf8 "br",some (utf8 "nowhere")⟩,.unknownLabel⟩]) ∧
    (Session.start.assemble (Source.print (stretch 2047))).1 = .error (.tooLarge 2049) := by
  have hlen : (Source.code crooked).length = 3 := by decide +kernel
  have hall : diagnosis (Source.code crooked) =
      [⟨3,⟨some (utf8 "again"),utf8 "wait",some (utf8 "r1")⟩,.duplicateLabel 1⟩,
        ⟨3,⟨some (utf8 "again"),utf8 "wait",some (utf8 "r1")⟩,.unexpectedOperand⟩,
        ⟨4,⟨none,utf8 "br",some (utf8 "nowhere")⟩,.unknownLabel⟩] := by decide +kernel
  have hcrooked := (assemble_outcome .start crooked).2 (by rw [hlen]; decide)
  have hlarge := (assemble_outcome .start (Source.print (stretch 2047))).1
    (by rw [length_code_stretch]; decide)
  rw [hall] at hcrooked
  rw [length_code_stretch] at hlarge
  exact ⟨hcrooked.2.1 (by simp),hlarge.1⟩

theorem CodeLine.kind_duplicate? {c : CodeLine} {earlier : List CodeLine} {d : Diagnostic}
    (h : c.duplicate? earlier = some d) : d.kind = .duplicateLabel := by
  unfold CodeLine.duplicate? at h
  obtain ⟨name,-,hd⟩ := Option.bind_eq_some_iff.1 h
  obtain ⟨first,-,rfl⟩ := Option.map_eq_some_iff.1 hd
  rfl

theorem CodeLine.failure?_eq_some_iff {c : CodeLine} {labels : Labels} {earlier : List CodeLine}
    {d : Diagnostic} : c.failure? labels earlier = some d ↔ ∃ f,
      c.statement.encode (Int64.ofNat earlier.length) labels = .error f ∧
        d = ⟨c.number,c.statement,f⟩ := by
  unfold CodeLine.failure?
  cases c.statement.encode (Int64.ofNat earlier.length) labels <;> simp [eq_comm]

/-- The labels of a program that fits the memory are addresses of its lines, also where a label is
bound more than once. -/
theorem Labels.toInt_of_get?_bindFrom {code : List CodeLine} {name : Text} {target : Address}
    (hfits : code.length ≤ memoryWords) (h : (bindFrom 0 ∅ code).get? name = some target) :
    ∃ j, j < code.length ∧ target = Int64.ofNat j ∧ target.toInt = j := by
  obtain ⟨j,hj,rfl⟩ := carries_of_get?_bindFrom_empty h
  have hlt := hj.lt_length
  exact ⟨j,hlt,rfl,toInt_ofNat_of_lt_memoryWords (by omega)⟩

/-- From each line of a program that fits the memory every label is in reach. -/
theorem displacement_to_label {code : List CodeLine} {name : Text} {target : Address} {k : Nat}
    (hfits : code.length ≤ memoryWords) (hk : k < code.length)
    (h : (Labels.bindFrom 0 ∅ code).get? name = some target) :
    displacement (Int64.ofNat k) target = .ok (UInt32.ofInt ((target.toInt - k) % 4096)) := by
  obtain ⟨j,hj,rfl,hint⟩ := Labels.toInt_of_get?_bindFrom hfits h
  rw [hint]
  exact displacement_ofNat (by omega) (by omega)

theorem CodeLine.kind_failure? {code : List CodeLine} {k : Nat} {c : CodeLine} {d : Diagnostic}
    (hfits : code.length ≤ memoryWords) (hc : code[k]? = some c)
    (hd : c.failure? (Labels.bindFrom 0 ∅ code) (code.take k) = some d) :
    d.kind ≠ .branchOutOfRange := by
  intro hkind
  have hk := (List.getElem?_eq_some_iff.1 hc).1
  obtain ⟨f,hf,rfl⟩ := CodeLine.failure?_eq_some_iff.1 hd
  obtain ⟨name,target,-,hget,hout⟩ := Statement.encode_branchOutOfRange hf hkind
  rw [List.length_take_of_le (Nat.le_of_lt hk), displacement_to_label hfits hk hget] at hout
  cases hout

/-- Assembling never reports a branch as out of range. Whenever the second pass runs, labels and
lines of code are addresses inside a memory of which every distance fits the field of a branch. -/
theorem assemble_branches_inRange (s : Session) (source : Text) :
    (∀ d ∈ (s.assemble source).2.diagnostics, d.kind ≠ .branchOutOfRange) ∧
    ((Source.code source).length ≤ memoryWords → ∀ name target,
      (s.assemble source).2.labels.get? name = some target →
      0 ≤ target.toInt ∧ target.toInt < (Source.code source).length ∧
      ∀ k < (Source.code source).length, (Int64.ofNat k).toInt = k ∧
        displacement (Int64.ofNat k) target =
          .ok (UInt32.ofInt ((target.toInt - k) % 4096))) := by
  have hduplicate : ∀ d ∈ reports CodeLine.duplicate? (Source.code source),
      d.kind ≠ .branchOutOfRange := by
    intro d hd
    obtain ⟨k,c,-,hc⟩ := mem_reports_iff.1 hd
    simp [CodeLine.kind_duplicate? hc]
  constructor
  · rw [Session.diagnostics_assemble]
    intro d hd
    rcases Nat.lt_or_ge memoryWords (Source.code source).length with h | h
    · rw [diagnostics_assemble_of_lt h] at hd
      exact hduplicate d hd
    · rw [diagnostics_assemble_of_le h, diagnosis] at hd
      rcases List.mem_append.1 hd with hd | hd
      · exact hduplicate d hd
      · obtain ⟨k,c,hc,hf⟩ := mem_reports_iff.1 hd
        exact CodeLine.kind_failure? h hc hf
  · intro h name target hget
    rw [Session.labels_assemble] at hget
    obtain ⟨j,hj,-,hint⟩ := Labels.toInt_of_get?_bindFrom h hget
    refine ⟨by omega,by omega,fun k hk => ⟨?_,displacement_to_label h hk hget⟩⟩
    exact toInt_ofNat_of_lt_memoryWords (by omega)

theorem assemble_branches_inRange_stretch :
    (Source.code (Source.print (stretch 2046))).length = memoryWords ∧
    (Session.start.assemble (Source.print (stretch 2046))).2.labels.get? (utf8 "end") = some 2047 ∧
    displacement (Int64.ofNat 0) 2047 = .ok 2047 := by
  have hlen : (Source.code (Source.print (stretch 2046))).length = memoryWords :=
    length_code_stretch 2046
  have hget : (Session.start.assemble (Source.print (stretch 2046))).2.labels.get? (utf8 "end") =
      some 2047 := by
    rw [Session.labels_assemble, get?_labels_stretch]
    rfl
  have hrange := (assemble_branches_inRange .start (Source.print (stretch 2046))).2
    (Nat.le_of_eq hlen) _ _ hget
  exact ⟨hlen,hget,(hrange.2.2 0 (by rw [hlen]; decide)).2⟩

end Asm18
