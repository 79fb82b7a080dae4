import Asm18.FileSystem

/-! Writing a file. A path that can be written leads to a place that holds no directory, so no walk
goes through that place, and the path leads there afterwards too. -/
namespace Asm18

theorem Table.insert_insert {κ α : Type} [DecidableEq κ] (t : Table κ α) (k : κ) (a b : α) :
    (t.insert k a).insert k b = t.insert k b := by
  simp [Table.insert]

namespace FileSystem

@[simp] theorem set_set (fs : FileSystem) (p : Path) (m n : Node) :
    (fs.set p m).set p n = fs.set p n := by
  simp [set, Table.insert_insert]

/-- The path leads to a place where a file is, or can be made. -/
structure Writable (fs : FileSystem) (path : Text) (place : Path) : Prop where
  located : fs.locate path = .ok place
  named : Path.endsInSlash path = false
  free : fs.node? place = none ∧ Path.absence place = .noSuchFile ∨
    ∃ content, fs.node? place = some (.file content)

namespace Writable

variable {fs : FileSystem} {path : Text} {place : Path}

theorem not_directory (h : fs.Writable path place) : fs.node? place ≠ some .directory := by
  rcases h.free with ⟨hn,-⟩ | ⟨content,hn⟩ <;> simp [hn]

theorem ne_root (h : fs.Writable path place) : place ≠ [] := by
  rintro rfl
  exact h.not_directory rfl

theorem create (h : fs.Writable path place) :
    fs.create path = .ok (⟨path,place⟩,fs.set place (.file [])) := by
  rcases h.free with ⟨hn,ha⟩ | ⟨content,hn⟩
  · simp [FileSystem.create, h.located, h.named, hn, ha]
  · simp [FileSystem.create, h.located, h.named, hn]

end Writable

/-- What is opened for writing is a writable file, emptied, or the device. -/
theorem create_eq_ok {fs fs' : FileSystem} {path : Text} {f : OpenFile}
    (h : fs.create path = .ok (f,fs')) :
    fs.Writable path f.place ∧ fs' = fs.set f.place (.file []) ∨
      (∃ reading, fs.node? f.place = some (.full reading)) ∧ fs' = fs := by
  unfold create at h
  split at h
  · cases h
  · rename_i p hp
    split at h
    · cases h
    · rename_i hs
      split at h
      · rename_i hn
        split at h
        · rename_i ha
          cases h
          exact .inl ⟨⟨hp,by simpa using hs,.inl ⟨hn,ha⟩⟩,rfl⟩
        · cases h
      · rename_i content hn
        cases h
        exact .inl ⟨⟨hp,by simpa using hs,.inr ⟨content,hn⟩⟩,rfl⟩
      · cases h
      · rename_i reading hn
        cases h
        exact .inr ⟨⟨reading,hn⟩,rfl⟩

/-- A walk leaves directories only, so it is not held up by a file where there was no directory. -/
theorem walk_set {fs : FileSystem} {place : Path} (n : Node)
    (hd : fs.node? place ≠ some .directory) {p q : Path} {names : List Text}
    (h : fs.walk p names = .ok q) : (fs.set place n).walk p names = .ok q := by
  induction names generalizing p with
  | nil => exact h
  | cons name names ih =>
    cases hp : fs.node? p with
    | none => simp [walk, enter, hp] at h
    | some m =>
      cases m with
      | file content => simp [walk, enter, hp] at h
      | full => simp [walk, enter, hp] at h
      | directory =>
        have hne : p ≠ place := by
          rintro rfl
          exact hd hp
        simp only [walk, enter, hp] at h
        simp only [walk, enter, node?_set_of_ne fs n hne, hp]
        exact ih h

theorem locate_set {fs : FileSystem} {place : Path} (n : Node)
    (hd : fs.node? place ≠ some .directory) {path : Text} {q : Path}
    (h : fs.locate path = .ok q) : (fs.set place n).locate path = .ok q := by
  unfold locate at h ⊢
  split at h
  · cases h
  · split at h
    · cases h
    · split at h
      · cases h
      · rename_i h0 hl hne
        rw [if_neg h0, if_neg hl, if_neg hne]
        exact walk_set n hd h

/-- What was written is read. -/
theorem Writable.read_set {fs : FileSystem} {path : Text} {place : Path}
    (h : fs.Writable path place) (content : Text) :
    (fs.set place (.file content)).read path = .ok content := by
  have hl := locate_set (.file content) h.not_directory h.located
  have hn := node?_set fs (.file content) h.ne_root
  simp [read, locateExisting, hl, h.named, hn]

end FileSystem
end Asm18
