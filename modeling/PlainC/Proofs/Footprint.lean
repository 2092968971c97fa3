import Mathlib.Data.Set.Insert
import PlainC.World
import PlainC.Proofs.Places

/-!
# What is spared

A change of a tree spares what it does not name: the files elsewhere keep their content, no directory
comes or goes, and nothing vanishes. Writing a file, adding to a log and using a scratch directory are
such changes, the last one because the directory is new and goes with all that is in it.
-/

namespace PlainC

namespace FileTree

/-- Whatever is there is in a directory. -/
def Rooted (tree : FileTree) : Prop :=
  ∀ location, (tree.get? location).isSome → tree.isDirectory location.dropLast

/-- A place and all that is below it. -/
def below (place : Location) : Set Location := {location | place <+: location}

/-- A change that keeps to some places. -/
structure Spares (places : Set Location) (tree after : FileTree) : Prop where
  rooted : tree.Rooted → after.Rooted
  directory : ∀ location, after.isDirectory location = tree.isDirectory location
  stays : ∀ location, (tree.get? location).isSome → (after.get? location).isSome
  elsewhere : ∀ location ∉ places, after.get? location = tree.get? location

variable {tree between after : FileTree} {places more : Set Location} {base location : Location}
  {path : Path}

theorem isDirectory_iff : tree.isDirectory location ↔ tree.get? location = some .directory := by
  rw [isDirectory, decide_eq_true_eq]

theorem isDirectory_nil : tree.isDirectory [] := rfl

theorem rooted_of_entries (h : ∀ entry ∈ tree.entries, tree.isDirectory entry.1.dropLast) :
    tree.Rooted := by
  intro location hsome
  rw [get?] at hsome
  split at hsome
  · rename_i hempty
    rw [List.isEmpty_iff.mp hempty]
    exact isDirectory_nil
  · rw [Option.isSome_map, List.find?_isSome] at hsome
    obtain ⟨entry, hmem, hentry⟩ := hsome
    rw [← of_decide_eq_true hentry]
    exact h entry hmem

/-- What is above something is a directory. -/
theorem Rooted.isDirectory_of_append (hrooted : tree.Rooted) {below : Location} (hne : below ≠ [])
    (hsome : (tree.get? (location ++ below)).isSome) : tree.isDirectory location := by
  induction below using List.reverseRecOn with
  | nil => exact absurd rfl hne
  | append_singleton below name ih =>
      have hdir := hrooted _ hsome
      rw [← List.append_assoc, List.dropLast_concat] at hdir
      cases below with
      | nil => rwa [List.append_nil] at hdir
      | cons step below =>
          apply ih (List.cons_ne_nil step below)
          rw [isDirectory_iff.mp hdir]
          rfl

/-- Nothing is below a place where nothing is. -/
theorem Rooted.get?_eq_none (hrooted : tree.Rooted) (hfree : tree.get? location = none)
    {other : Location} (hbelow : location <+: other) : tree.get? other = none := by
  obtain ⟨below, rfl⟩ := hbelow
  cases below with
  | nil => rwa [List.append_nil]
  | cons step below =>
      by_contra hthere
      have hdir := hrooted.isDirectory_of_append (List.cons_ne_nil step below)
        (Option.isSome_iff_ne_none.mpr hthere)
      rw [isDirectory_iff, hfree] at hdir
      cases hdir

namespace Spares

theorem refl (tree : FileTree) : tree.Spares places tree :=
  ⟨id, fun _ => rfl, fun _ => id, fun _ _ => rfl⟩

theorem trans (hfirst : tree.Spares places between) (hsecond : between.Spares places after) :
    tree.Spares places after where
  rooted := fun hrooted => hsecond.rooted (hfirst.rooted hrooted)
  directory := fun location => (hsecond.directory location).trans (hfirst.directory location)
  stays := fun location hsome => hsecond.stays location (hfirst.stays location hsome)
  elsewhere := fun location hout =>
    (hsecond.elsewhere location hout).trans (hfirst.elsewhere location hout)

theorem mono (h : tree.Spares places after) (hmore : places ⊆ more) : tree.Spares more after :=
  ⟨h.rooted, h.directory, h.stays, fun location hout => h.elsewhere location fun hin =>
    hout (hmore hin)⟩

/-- A way that is open stays open. -/
theorem walk {start : Location} {steps : List Text} (h : tree.Spares places after)
    (hwalk : tree.walk start steps = .ok location) : after.walk start steps = .ok location := by
  induction steps generalizing start with
  | nil => exact hwalk
  | cons step steps ih =>
      obtain ⟨hdir, hthere, hrest⟩ := walk_cons_eq_ok_iff.mp hwalk
      apply walk_cons_eq_ok_iff.mpr
      refine ⟨by rwa [h.directory], ?_, ih hrest⟩
      intro hname
      exact ⟨(hthere hname).1, h.stays _ (hthere hname).2⟩

end Spares

/-! ### Reading -/

theorem read_eq_ok_iff {content : Bytes} :
    tree.read base path = .ok content ↔
      tree.resolve base path = .ok (placeOf base path) ∧
        tree.get? (placeOf base path) = some (.file content) := by
  rw [read, lookup]
  cases hresolve : tree.resolve base path with
  | error cause => simp [bind, Except.bind]
  | ok location =>
      have hplace := eq_placeOf_of_resolve hresolve
      subst hplace
      simp only [bind, Except.bind, true_and]
      cases tree.get? (placeOf base path) with
      | none => simp [throw, throwThe, MonadExceptOf.throw]
      | some entry =>
          cases entry with
          | directory => simp [throw, throwThe, MonadExceptOf.throw, pure, Except.pure]
          | file other => simp [pure, Except.pure]

theorem Spares.resolve (h : tree.Spares places after) (hresolve : tree.resolve base path = .ok location) :
    after.resolve base path = .ok location := by
  obtain ⟨hsteps, hwalk⟩ := resolve_eq_ok_iff.mp hresolve
  exact resolve_eq_ok_iff.mpr ⟨hsteps, h.walk hwalk⟩

theorem Spares.read (h : tree.Spares places after) {content : Bytes}
    (hread : tree.read base path = .ok content) (hout : placeOf base path ∉ places) :
    after.read base path = .ok content := by
  obtain ⟨hresolve, hget⟩ := read_eq_ok_iff.mp hread
  apply read_eq_ok_iff.mpr
  exact ⟨h.resolve hresolve, by rw [h.elsewhere _ hout, hget]⟩

/-- A file may change, but it stays a file. -/
theorem isFile_of_spares (hspares : tree.Spares places after)
    (hfile : ∃ content, tree.get? location = some (.file content)) :
    ∃ content, after.get? location = some (.file content) := by
  obtain ⟨content, hcontent⟩ := hfile
  obtain ⟨entry, hentry⟩ := Option.isSome_iff_exists.mp
    (hspares.stays location (by rw [hcontent]; rfl))
  cases entry with
  | file other => exact ⟨other, hentry⟩
  | directory =>
      have hdir := hspares.directory location
      rw [isDirectory, isDirectory, hentry, hcontent] at hdir
      cases hdir

/-- A file that can be read is under a name: a path that ends otherwise leads to a directory. -/
theorem Rooted.exists_walk_of_read (hrooted : tree.Rooted) {content : Bytes}
    (hread : tree.read base path = .ok content) :
    ∃ above name parent, steps path = .ok (above ++ [name]) ∧ Path.IsName name ∧
      tree.walk (origin base path) above = .ok parent ∧ tree.isDirectory parent ∧
      ¬isTooLong name ∧ placeOf base path = parent ++ [name] := by
  obtain ⟨hresolve, hget⟩ := read_eq_ok_iff.mp hread
  obtain ⟨⟨all, hsteps⟩, hwalk⟩ := resolve_eq_ok_iff.mp hresolve
  obtain ⟨above, last, hsplit⟩ :=
    List.eq_nil_or_concat (Text.split '/' path) |>.resolve_left (Text.split_ne_nil '/' path)
  rw [List.concat_eq_append] at hsplit
  rw [hsplit, walk_append] at hwalk
  cases habove : tree.walk (origin base path) above with
  | error cause =>
      rw [habove] at hwalk
      cases hwalk
  | ok parent =>
      rw [habove] at hwalk
      obtain ⟨hdir, hthere, hlast⟩ := walk_cons_eq_ok_iff.mp hwalk
      have hplace : advance parent last = placeOf base path := Except.ok.inj hlast
      have hname : Path.IsName last := by
        constructor
        · intro hidle
          rw [← hplace, advance_of_isIdle hidle, isDirectory_iff.mp hdir] at hget
          cases hget
        · rintro rfl
          have hup : tree.isDirectory parent.dropLast := hrooted parent (by
            rw [isDirectory_iff.mp hdir]
            rfl)
          rw [← hplace] at hget
          have hsame : tree.get? parent.dropLast = some (.file content) := hget
          rw [isDirectory_iff.mp hup] at hsame
          cases hsame
      refine ⟨above, last, parent, ?_, hname, habove, hdir, (hthere hname).1, ?_⟩
      · rw [hsteps, eq_split_of_steps hsteps, hsplit]
      · rw [← hplace, advance, if_neg hname.1, if_neg hname.2]

theorem Rooted.exists_fileName? (hrooted : tree.Rooted) {content : Bytes}
    (hread : tree.read base path = .ok content) : ∃ name, Path.fileName? path = some name := by
  obtain ⟨above, name, _, hsteps, hname, -⟩ := hrooted.exists_walk_of_read hread
  exact ⟨name, Path.fileName?_of_split hname (eq_split_of_steps hsteps).symm⟩

theorem Rooted.exists_write (hrooted : tree.Rooted) {before : Bytes}
    (hread : tree.read base path = .ok before) (content : Bytes) :
    ∃ after, tree.write base path content = .ok after := by
  obtain ⟨above, name, parent, hsteps, hname, hwalk, hdir, hlong, hplace⟩ :=
    hrooted.exists_walk_of_read hread
  have htarget := target_of_walk hsteps hwalk hdir hname.1 hname.2 hlong
  have hfile : ¬tree.isDirectory (parent ++ [name]) := by
    rw [← hplace, isDirectory_iff, (read_eq_ok_iff.mp hread).2]
    simp
  refine ⟨tree.set (parent ++ [name]) (.file content), ?_⟩
  rw [write, htarget]
  simp only [bind, Except.bind, hfile]
  rfl

/-! ### Changes -/

theorem ne_nil_of_not_isDirectory (hfile : ¬tree.isDirectory location) : location ≠ [] := by
  rintro rfl
  exact hfile isDirectory_nil

theorem dropLast_ne_self (hne : location ≠ []) : location.dropLast ≠ location := by
  intro hsame
  have hlength := congrArg List.length hsame
  rw [List.length_dropLast] at hlength
  have hpos := List.length_pos_iff.mpr hne
  omega

theorem isDirectory_set_of_ne {entry : Entry} {other : Location} (hne : other ≠ location) :
    (tree.set location entry).isDirectory other = tree.isDirectory other := by
  rw [isDirectory, isDirectory, get?_set_of_ne hne]

theorem Rooted.set (hrooted : tree.Rooted) (hfile : ¬tree.isDirectory location)
    (hparent : tree.isDirectory location.dropLast) (entry : Entry) :
    (tree.set location entry).Rooted := by
  intro other hsome
  by_cases hother : other = location
  · rw [hother, isDirectory_set_of_ne (dropLast_ne_self (ne_nil_of_not_isDirectory hfile))]
    exact hparent
  · rw [get?_set_of_ne hother] at hsome
    have hdir := hrooted other hsome
    rw [isDirectory_set_of_ne]
    · exact hdir
    · intro habove
      rw [habove] at hdir
      exact hfile hdir

theorem spares_set (hfile : ¬tree.isDirectory location)
    (hparent : tree.Rooted → tree.isDirectory location.dropLast) (content : Bytes) :
    tree.Spares {location} (tree.set location (.file content)) where
  rooted := fun hrooted => hrooted.set hfile (hparent hrooted) (.file content)
  directory := by
    intro other
    by_cases hother : other = location
    · rw [hother, isDirectory, get?_set_self (ne_nil_of_not_isDirectory hfile)]
      simpa using hfile
    · exact isDirectory_set_of_ne hother
  stays := by
    intro other hsome
    by_cases hother : other = location
    · rw [hother, get?_set_self (ne_nil_of_not_isDirectory hfile)]
      rfl
    · rwa [get?_set_of_ne hother]
  elsewhere := fun other hother => get?_set_of_ne hother

theorem spares_write {content : Bytes} (hwrite : tree.write base path content = .ok after) :
    tree.Spares {placeOf base path} after := by
  rw [write] at hwrite
  cases htarget : tree.target base path with
  | error cause =>
      rw [htarget] at hwrite
      cases hwrite
  | ok place =>
      rw [htarget] at hwrite
      simp only [bind, Except.bind, throw, throwThe, MonadExceptOf.throw, pure, Except.pure] at hwrite
      split at hwrite <;> rename_i hfile
      · cases hwrite
      cases hwrite
      obtain ⟨above, name, parent, -, -, hparent, -, -, -, hplace⟩ := exists_of_target htarget
      rw [← eq_placeOf_of_target htarget]
      apply spares_set hfile
      intro _
      rwa [hplace, List.dropLast_concat]

/-- A directory is made at a free place inside a directory. -/
theorem eq_set_of_makeDirectory (hmake : tree.makeDirectory base path = .ok (location, after)) :
    location = placeOf base path ∧ tree.get? (placeOf base path) = none ∧
      tree.isDirectory (placeOf base path).dropLast ∧
      after = tree.set (placeOf base path) .directory := by
  rw [makeDirectory] at hmake
  cases htarget : tree.target base path with
  | error cause =>
      rw [htarget] at hmake
      cases hmake
  | ok place =>
      rw [htarget] at hmake
      simp only [bind, Except.bind, throw, throwThe, MonadExceptOf.throw, pure, Except.pure] at hmake
      split at hmake <;> rename_i hfree
      · cases hmake
      cases hmake
      obtain ⟨above, name, parent, -, -, hparent, -, -, -, hplace⟩ := exists_of_target htarget
      rw [← eq_placeOf_of_target htarget]
      refine ⟨rfl, by simpa using hfree, ?_, rfl⟩
      rwa [hplace, List.dropLast_concat]

theorem spares_append (tree : FileTree) (location : Location) (content : Bytes) :
    tree.Spares {location} (tree.append location content) := by
  rw [append]
  split
  · rename_i before hget
    apply spares_set
    · rw [isDirectory_iff, hget]
      simp
    · intro hrooted
      apply hrooted
      rw [hget]
      rfl
  · exact .refl tree

theorem get?_remove (hne : location ≠ []) (other : Location) :
    (tree.remove location).get? other = if location <+: other then none else tree.get? other := by
  rw [get?, get?, remove]
  by_cases hempty : other.isEmpty
  · have hout : ¬location <+: other := by
      rw [List.isEmpty_iff.mp hempty, List.prefix_nil]
      exact hne
    rw [if_pos hempty, if_pos hempty, if_neg hout]
  · rw [if_neg hempty, if_neg hempty, List.find?_filter]
    split <;> rename_i hbelow
    · rw [List.find?_eq_none.mpr, Option.map_none]
      intro entry _ hentry
      simp only [decide_eq_true_eq] at hentry
      rw [hentry.2] at hentry
      simp [List.isPrefixOf_iff_prefix.mpr hbelow] at hentry
    · congr 2
      funext entry
      by_cases hentry : entry.1 = other
      · have hkeep : location.isPrefixOf other = false := by
          rw [← Bool.not_eq_true, List.isPrefixOf_iff_prefix]
          exact hbelow
        simp [hentry, hkeep]
      · simp [hentry]

/-- What happens below a place that was free is undone when the place is removed. -/
theorem spares_remove (hrooted : tree.Rooted) (hfree : tree.get? location = none)
    (hparent : tree.isDirectory location.dropLast)
    (hinside : (tree.set location .directory).Spares (places ∪ below location) after) :
    tree.Spares places (after.remove location) := by
  have hne : location ≠ [] := by
    rintro rfl
    cases hfree
  have hbelow : ∀ {other}, location <+: other → tree.get? other = none := hrooted.get?_eq_none hfree
  have hset : ∀ {other}, ¬location <+: other →
      (tree.set location .directory).get? other = tree.get? other := by
    intro other hout
    apply get?_set_of_ne
    rintro rfl
    exact hout (List.prefix_refl other)
  have hkeep : ∀ {other}, ¬location <+: other → (after.remove location).get? other = after.get? other := by
    intro other hout
    rw [get?_remove hne, if_neg hout]
  have hgone : ∀ {other}, location <+: other → (after.remove location).get? other = none := by
    intro other hin
    rw [get?_remove hne, if_pos hin]
  constructor
  · intro _ other hsome
    have hout : ¬location <+: other := by
      intro hin
      rw [hgone hin] at hsome
      cases hsome
    have hout' : ¬location <+: other.dropLast := fun hin =>
      hout (hin.trans (List.dropLast_prefix other))
    rw [hkeep hout] at hsome
    rw [isDirectory, hkeep hout']
    have hfile : ¬tree.isDirectory location := by
      rw [isDirectory_iff, hfree]
      simp
    exact hinside.rooted (hrooted.set hfile hparent .directory) other hsome
  · intro other
    by_cases hin : location <+: other
    · rw [isDirectory, isDirectory, hgone hin, hbelow hin]
    · rw [isDirectory, hkeep hin, ← isDirectory, hinside.directory, isDirectory, hset hin, isDirectory]
  · intro other hsome
    have hout : ¬location <+: other := by
      intro hin
      rw [hbelow hin] at hsome
      cases hsome
    rw [hkeep hout]
    apply hinside.stays
    rwa [hset hout]
  · intro other hother
    by_cases hin : location <+: other
    · rw [hgone hin, hbelow hin]
    · rw [hkeep hin, hinside.elsewhere other (by simp [below, hother, hin]), hset hin]

end FileTree

end PlainC
