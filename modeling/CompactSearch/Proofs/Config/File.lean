/-
Files in a directory tree. A file can be written at a path exactly if the path leads into a directory, to a place where no
directory stands, and does not ask for a directory by a slash at its end (`writeError?_eq_none_iff`). What is put there
turns no directory into something else, so the path leads to the same place afterwards, and what was put stands there
(`entry?_put`).
-/
import CompactSearch.Config.File

namespace CompactSearch.FileTree

variable {t : FileTree} {place : List String} {path : String} {e : FileEntry}

theorem entryAt?_putAt_self (h : place ≠ []) : (t.putAt place e).entryAt? place = some e := by
  simp [entryAt?, putAt, h]

theorem entryAt?_putAt_of_ne {p : List String} (h : p ≠ place) : (t.putAt place e).entryAt? p = t.entryAt? p := by
  have hbeq : (p == place) = false := beq_eq_false_iff_ne.2 h
  simp only [entryAt?, putAt, List.lookup_cons, hbeq]

/-- Names lead to the same place after something has been put where no directory stood. -/
theorem follow_putAt (h : t.entryAt? place ≠ some .directory) : ∀ {names p r : List String},
    t.follow p names = .ok r → (t.putAt place e).follow p names = .ok r
  | [], _, _, hr => hr
  | name :: names, p, r, hr => by
    unfold follow at hr ⊢
    split at hr
    · rename_i hp
      -- a name is looked up in a directory, so never at the place of the new entry
      have hne : p ≠ place := by
        rintro rfl
        exact h hp
      rw [entryAt?_putAt_of_ne hne, hp]
      exact follow_putAt h hr
    · cases hr
    · cases hr

theorem locate_putAt (h : t.entryAt? place ≠ some .directory) {p : List String} (hp : t.locate path = .ok p) :
    (t.putAt place e).locate path = .ok p := by
  unfold locate at hp ⊢
  split at hp
  · cases hp
  · exact follow_putAt h hp

theorem writeError?_eq_none_iff : t.writeError? path = none ↔
    ∃ place, t.locate path = .ok place ∧ endsInSlash path = false ∧ t.entryAt? place ≠ some .directory := by
  unfold writeError?
  cases t.locate path with
  | error e => simp
  | ok place => simp [not_or]

/-- What is put where a file can be written stands there afterwards. -/
theorem entry?_put (h : t.writeError? path = none) (e : FileEntry) : FileTree.entry? (t.put path e) path = some e := by
  obtain ⟨place, hplace, hslash, hdirectory⟩ := writeError?_eq_none_iff.1 h
  have hne : place ≠ [] := by
    rintro rfl
    exact hdirectory rfl
  have hput : t.put path e = t.putAt place e := by rw [put, hplace]
  rw [hput, entry?, locate_putAt hdirectory hplace]
  simp [entryAt?_putAt_self hne, hslash]

/-- A text is read where it has been put. -/
theorem read?_put (h : t.writeError? path = none) (s : String) :
    FileTree.read? (t.put path (.text s)) path = some (.ok s) := by
  rw [read?, entry?_put h]
  rfl

/-- What asks for a directory at a file, holds the character zero or goes through nothing is no path to the file; two
points lead back up. -/
example :
    let t : FileTree := ⟨[(["file"], .text ""), (["conf"], .directory)]⟩
    (∀ path ∈ ["file/", "file/.", "file\x00", "none/../file"],
      t.entry? path = none ∧ (t.writeError? path).isSome = true) ∧
      t.entry? "conf/..//./file" = some (.text "") := by
  decide +kernel

end CompactSearch.FileTree
