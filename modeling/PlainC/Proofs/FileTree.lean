import PlainC.FileTree
import PlainC.Proofs.Utf8

/-!
# Reading a file after writing it

A file is written where its path leads, and the path still leads there afterwards: only directories are
passed on the way, and no directory is changed by writing a file.
-/

namespace PlainC

namespace FileTree

variable {tree : FileTree} {location : Location} {entry : Entry}

theorem get?_set_self (hne : location ≠ []) :
    (tree.set location entry).get? location = some entry := by
  simp [get?, set, hne]

theorem get?_set_of_ne {other : Location} (hne : other ≠ location) :
    (tree.set location entry).get? other = tree.get? other := by
  rw [get?, get?]
  split
  · rfl
  · rw [set, List.find?_cons_of_neg (by simpa using Ne.symm hne), List.find?_filter]
    congr 2
    funext pair
    by_cases hpair : pair.1 = other
    · simp [hpair, hne]
    · simp [hpair]

theorem walk_append (start : Location) (steps more : List Text) :
    tree.walk start (steps ++ more) = tree.walk start steps >>= fun place => tree.walk place more := by
  induction steps generalizing start with
  | nil => rfl
  | cons step steps ih =>
      rw [List.cons_append, walk, walk]
      split
      · rfl
      split
      · exact ih start
      split
      · exact ih start.dropLast
      split
      · rfl
      split
      · rfl
      · exact ih (start ++ [step])

/-- A walk passes only directories before its end, so a place that is none may be changed. -/
theorem walk_set {start place : Location} {steps : List Text}
    (hfile : ¬tree.isDirectory location) (hwalk : tree.walk start steps = .ok place) :
    (tree.set location entry).walk start steps = .ok place := by
  have hkeep : ∀ {other}, tree.isDirectory other →
      (tree.set location entry).get? other = tree.get? other := by
    intro other hother
    apply get?_set_of_ne
    rintro rfl
    exact hfile hother
  induction steps generalizing start with
  | nil => exact hwalk
  | cons step steps ih =>
      rw [walk] at hwalk ⊢
      split at hwalk <;> rename_i hdir
      · cases hwalk
      · have hstart : tree.isDirectory start := by simpa using hdir
        have hstart' : (tree.set location entry).isDirectory start := by
          rw [isDirectory, hkeep hstart]
          exact hstart
        rw [if_neg (by simpa using hstart')]
        split at hwalk <;> rename_i hidle
        · rw [if_pos hidle]
          exact ih hwalk
        rw [if_neg hidle]
        split at hwalk <;> rename_i hup
        · rw [if_pos hup]
          exact ih hwalk
        rw [if_neg hup]
        split at hwalk <;> rename_i hlong
        · cases hwalk
        rw [if_neg hlong]
        split at hwalk <;> rename_i hnone
        · cases hwalk
        · have hinto : (tree.set location entry).get? (start ++ [step]) ≠ none := by
            by_cases hsame : start ++ [step] = location
            · rw [hsame, get?_set_self (by simp [← hsame])]
              exact Option.some_ne_none _
            · rw [get?_set_of_ne hsame]
              simpa using hnone
          rw [if_neg (by simpa using hinto)]
          exact ih hwalk

/-- The place that a path names is inside a directory to which the steps before the last one lead. -/
theorem exists_of_target {base : Location} {path : Path}
    (htarget : tree.target base path = .ok location) :
    ∃ above name parent, steps path = .ok (above ++ [name]) ∧
      tree.walk (origin base path) above = .ok parent ∧ tree.isDirectory parent ∧
      ¬Path.isIdle name ∧ name ≠ ['.', '.'] ∧ ¬isTooLong name ∧ location = parent ++ [name] := by
  rw [target] at htarget
  cases hsteps : steps path with
  | error cause =>
      rw [hsteps] at htarget
      cases htarget
  | ok all =>
      rw [hsteps] at htarget
      simp only [bind, Except.bind] at htarget
      split at htarget
      · cases htarget
      · rename_i name hname
        split at htarget
        · cases htarget
        · rename_i parent hparent
          simp only [throw, throwThe, MonadExceptOf.throw, pure, Except.pure] at htarget
          split at htarget
          · cases htarget
          rename_i hdir
          split at htarget
          · cases htarget
          rename_i hnamed
          split at htarget
          · cases htarget
          rename_i hlong
          cases htarget
          simp only [Bool.or_eq_true, decide_eq_true_eq, not_or, ne_eq, not_not] at hnamed
          obtain ⟨⟨hlength, hdot⟩, hdots⟩ := hnamed
          -- Nothing was dropped at the end, so the last step is the name and is not empty.
          have hall : (all.reverse.dropWhile List.isEmpty).reverse = all := by
            have hsuffix := List.dropWhile_suffix (l := all.reverse) List.isEmpty
            have hsame := hsuffix.eq_of_length (by
              rw [List.length_reverse] at hlength ⊢
              exact hlength.symm)
            rw [hsame, List.reverse_reverse]
          have hempty : name.isEmpty = false := by
            rw [List.getLast?_reverse] at hname
            have hhead := List.head?_dropWhile_not List.isEmpty all.reverse
            rw [hname] at hhead
            simpa using hhead
          rw [hall] at hname hparent
          have hlast : all = all.dropLast ++ [name] := by
            obtain ⟨above, rfl⟩ := List.getLast?_eq_some_iff.mp hname
            simp
          refine ⟨all.dropLast, name, parent, by rw [← hlast], hparent, by simpa using hdir, ?_,
            hdots, by simpa using hlong, rfl⟩
          simp [Path.isIdle, hempty, hdot]

theorem target_of_walk {base : Location} {path : Path} {above : List Text} {name : Text}
    {parent : Location} (hsteps : steps path = .ok (above ++ [name]))
    (hwalk : tree.walk (origin base path) above = .ok parent) (hdir : tree.isDirectory parent)
    (hidle : ¬Path.isIdle name) (hup : name ≠ ['.', '.']) (hlong : ¬isTooLong name) :
    tree.target base path = .ok (parent ++ [name]) := by
  obtain ⟨hempty, hdot⟩ : name ≠ [] ∧ name ≠ ['.'] := by simpa [Path.isIdle] using hidle
  have hnamed : ((above ++ [name]).reverse.dropWhile List.isEmpty).reverse = above ++ [name] := by
    simp [hempty]
  rw [target, hsteps]
  simp only [bind, Except.bind, hnamed, List.getLast?_concat, List.dropLast_concat, hwalk]
  simp [hdir, hdot, hup, hlong, pure, Except.pure]

/-- What is written to a file is what is read from it. -/
theorem read_of_write {base : Location} {path : Path} {content : Bytes} {after : FileTree}
    (hwrite : tree.write base path content = .ok after) : after.read base path = .ok content := by
  rw [write] at hwrite
  cases htarget : tree.target base path with
  | error cause =>
      rw [htarget] at hwrite
      cases hwrite
  | ok place =>
      rw [htarget] at hwrite
      simp only [bind, Except.bind, throw, throwThe, MonadExceptOf.throw, pure, Except.pure] at hwrite
      split at hwrite <;> rename_i hfile
      · cases hwrite
      cases hwrite
      obtain ⟨above, name, parent, hsteps, hwalk, hparent, hidle, hup, hlong, rfl⟩ :=
        exists_of_target htarget
      have hne : parent ++ [name] ≠ [] := by simp
      have hwalk' : (tree.set (parent ++ [name]) (.file content)).walk (FileTree.origin base path)
          above = .ok parent := walk_set hfile hwalk
      have hparent' : (tree.set (parent ++ [name]) (.file content)).isDirectory parent := by
        rw [isDirectory, get?_set_of_ne (by simp)]
        exact hparent
      have hlast : (tree.set (parent ++ [name]) (.file content)).walk parent [name] =
          .ok (parent ++ [name]) := by
        rw [walk, if_neg (by simpa using hparent'), if_neg hidle, if_neg hup, if_neg hlong,
          get?_set_self hne]
        rfl
      have hresolve : (tree.set (parent ++ [name]) (.file content)).resolve base path =
          .ok (parent ++ [name]) := by
        rw [resolve, hsteps]
        change walk _ _ _ = _
        rw [walk_append, hwalk']
        exact hlast
      rw [read, lookup, hresolve]
      simp [bind, Except.bind, get?_set_self hne, pure, Except.pure]

end FileTree

end PlainC
