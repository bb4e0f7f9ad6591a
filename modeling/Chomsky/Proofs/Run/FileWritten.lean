import Chomsky.Proofs.Dictionary.Entries
import Chomsky.Store
/-!
# Stores behind a write

A write puts a file at one place, where there was a file or nothing before. Directories stay
directories, so every path leads where it led: a second write through the same path replaces what
the first one wrote, and reading gives it back.
-/
namespace Chomsky

namespace Store
variable {s : Store} {p : Path} {place : Place} {content : ByteArray}

def withFile (s : Store) (place : Place) (content : ByteArray) : Store :=
  { s with entries := s.entries.set place (.file content) }

/-- Nothing but the entry at a place differs. -/
structure SameBut (s s' : Store) (place : Place) : Prop where
  home : s'.home = s.home
  printed : s'.printed = s.printed
  find? : ∀ other, other ≠ place → s'.entries.find? other = s.entries.find? other

theorem sameBut_withFile (s : Store) (place : Place) (content : ByteArray) :
    s.SameBut (s.withFile place content) place where
  home := rfl
  printed := rfl
  find? other hother := by rw [withFile, Dictionary.find?_set, if_neg hother]

@[simp] theorem find?_withFile (s : Store) (place : Place) (content : ByteArray) :
    (s.withFile place content).entries.find? place = some (.file content) := by
  rw [withFile, Dictionary.find?_set, if_pos rfl]

@[simp] theorem withFile_withFile (s : Store) (place : Place) (content content' : ByteArray) :
    (s.withFile place content).withFile place content' = s.withFile place content' := by
  simp [withFile]

/-! ## Paths -/

/-- A file put where no directory is leaves all directories. -/
theorem find?_withFile_of_directory (h : s.entries.find? place ≠ some .directory) {dir : Place}
    (hdir : s.entries.find? dir = some .directory) :
    (s.withFile place content).entries.find? dir = some .directory := by
  have hne : dir ≠ place := by
    rintro rfl
    exact h hdir
  rw [(s.sameBut_withFile place content).find? dir hne, hdir]

theorem entryAt_eq_ok_iff {dir : Place} {name : List Char} {entry : Option Entry} :
    s.entryAt dir name = .ok entry ↔
      Path.encodedSize name ≤ Path.maxNameSize ∧ s.entries.find? (dir ++ [name]) = entry := by
  rw [entryAt]
  split
  · rename_i hlong
    simp [Nat.not_le.2 hlong]
  · rename_i hshort
    simp [Nat.not_lt.1 hshort]

theorem entryAt_withFile_of_directory (h : s.entries.find? place ≠ some .directory) {dir : Place}
    {name : List Char} (hdir : s.entryAt dir name = .ok (some .directory)) :
    (s.withFile place content).entryAt dir name = .ok (some .directory) := by
  obtain ⟨hshort, hfind⟩ := entryAt_eq_ok_iff.1 hdir
  exact entryAt_eq_ok_iff.2 ⟨hshort, find?_withFile_of_directory h hfind⟩

theorem enter_withFile (h : s.entries.find? place ≠ some .directory) {dir dir' : Place}
    {name : List Char} (hdir : s.enter dir name = .ok dir') :
    (s.withFile place content).enter dir name = .ok dir' := by
  by_cases hdot : name = ['.']
  · simpa [enter, hdot] using hdir
  by_cases hdots : name = ['.', '.']
  · simpa [enter, hdots] using hdir
  rw [enter, if_neg hdot, if_neg hdots] at hdir ⊢
  cases hentry : s.entryAt dir name with
  | error failure => simp [hentry] at hdir
  | ok entry =>
    match entry with
    | none => simp [hentry] at hdir
    | some (.file _) => simp [hentry] at hdir
    | some .directory =>
      rw [hentry] at hdir
      rw [entryAt_withFile_of_directory h hentry]
      exact hdir

/-- Names that lead somewhere still lead there. -/
theorem walk_withFile (h : s.entries.find? place ≠ some .directory) {dir : Place}
    {names : List (List Char)} {d : Destination} (hwalk : s.walk dir names = .ok d) :
    (s.withFile place content).walk dir names = .ok d := by
  induction names generalizing dir with
  | nil => exact hwalk
  | cons name rest ih =>
    cases rest with
    | nil => exact hwalk
    | cons next rest =>
      rw [walk] at hwalk ⊢
      · cases hdir : s.enter dir name with
        | error failure => simp [hdir] at hwalk
        | ok dir' =>
          rw [hdir] at hwalk
          rw [enter_withFile h hdir]
          exact ih hwalk
      all_goals simp

theorem destination_withFile (h : s.entries.find? place ≠ some .directory) {d : Destination}
    (hd : s.destination p = .ok d) : (s.withFile place content).destination p = .ok d := by
  rw [destination] at hd ⊢
  by_cases hnul : '\x00' ∈ p.chars
  · simp [hnul] at hd
  by_cases hempty : p.chars.isEmpty = true
  · simp [hnul, hempty] at hd
  by_cases hlong : Path.maxSize < Path.encodedSize p.chars
  · simp [hnul, hempty, hlong] at hd
  rw [if_neg hnul, if_neg hempty, if_neg hlong] at hd ⊢
  exact walk_withFile h hd

/-! ## Reading and writing -/

/-- What a name without a slash behind it says about writing. -/
theorem target_eq_of_entryAt {dir : Place} {name : List Char} {entry : Option Entry}
    (hd : s.destination p = .ok (.name dir name)) (hslash : p.endsInSlash = false)
    (hentry : s.entryAt dir name = .ok entry) : s.target p =
      if entry = some .directory then .error .isADirectory else .ok (dir ++ [name]) := by
  simp only [target, hd, hslash, hentry]
  cases entry with
  | none => simp
  | some entry => cases entry <;> simp

/-- A path may be written to if it names, without a slash behind it, something that is no
directory. -/
theorem target_eq_ok_iff : s.target p = .ok place ↔ ∃ dir name,
    s.destination p = .ok (.name dir name) ∧ p.endsInSlash = false ∧
      Path.encodedSize name ≤ Path.maxNameSize ∧ dir ++ [name] = place ∧
      s.entries.find? place ≠ some .directory := by
  constructor
  · intro h
    cases hd : s.destination p with
    | error failure => simp [target, hd] at h
    | ok d =>
      cases d with
      | directory => simp [target, hd] at h
      | name dir name =>
        cases hslash : p.endsInSlash with
        | true => simp [target, hd, hslash] at h
        | false =>
          cases hentry : s.entryAt dir name with
          | error failure => simp [target, hd, hslash, hentry] at h
          | ok entry =>
            obtain ⟨hshort, hfind⟩ := entryAt_eq_ok_iff.1 hentry
            rw [target_eq_of_entryAt hd hslash hentry] at h
            split at h
            · cases h
            · rename_i hfile
              obtain rfl := Except.ok.inj h
              exact ⟨dir, name, rfl, rfl, hshort, rfl, hfind ▸ hfile⟩
  · rintro ⟨dir, name, hd, hslash, hshort, rfl, hfile⟩
    rw [target_eq_of_entryAt hd hslash (entryAt_eq_ok_iff.2 ⟨hshort, rfl⟩), if_neg hfile]

/-- A path that was written to may be written to again, at the same place. -/
theorem target_withFile (h : s.target p = .ok place) :
    (s.withFile place content).target p = .ok place := by
  obtain ⟨dir, name, hd, hslash, hshort, hplace, hfile⟩ := target_eq_ok_iff.1 h
  exact target_eq_ok_iff.2 ⟨dir, name, destination_withFile hfile hd, hslash, hshort, hplace,
    by simp⟩

/-- A path that was written to gives what was written. -/
theorem read_withFile (h : s.target p = .ok place) :
    (s.withFile place content).read p = .ok content := by
  obtain ⟨dir, name, hd, hslash, hshort, rfl, hfile⟩ := target_eq_ok_iff.1 h
  have hentry : (s.withFile (dir ++ [name]) content).entryAt dir name =
      .ok (some (.file content)) := entryAt_eq_ok_iff.2 ⟨hshort, by simp⟩
  simp [read, destination_withFile hfile hd, hentry, hslash]

theorem write_eq_ok (h : s.target p = .ok place) (content : ByteArray) :
    s.write p content = .ok (s.withFile place content) := by
  rw [write, h]
  rfl

theorem write_eq_error {failure : FileFailure} (h : s.target p = .error failure)
    (content : ByteArray) : s.write p content = .error failure := by
  rw [write, h]
  rfl

end Store

end Chomsky
