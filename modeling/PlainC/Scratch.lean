import PlainC.World

/-!
# Scratch directories

A scratch directory has a name that nothing else has, for one computation to work in. It is gone with
all that is in it when the computation ends, however it ends.
-/

namespace PlainC

namespace Scratch

/-- The path of a scratch directory with a given ending. -/
def path (world : World) (label ending : Text) : Path :=
  Path.join world.tempDir ("c-normalizer-".toList ++ label ++ "-".toList ++ ending)

/-- Makes the directory under the first ending that is free. There are more endings to try than there
are entries in the tree. -/
def make (world : World) (label : Text) : Except FileError (Path × Location × World) :=
  tryFrom 0 (world.tree.entries.length + 1)
where
  tryFrom (n : Nat) : (left : Nat) → Except FileError (Path × Location × World)
    | 0 => .error .alreadyThere
    | left + 1 =>
      let dir := path world label (world.ending n)
      match world.tree.makeDirectory world.home dir with
      | .ok (location, tree) => .ok (dir, location, { world with tree := tree })
      | .error .alreadyThere => tryFrom (n + 1) left
      | .error cause => .error (.located cause dir)

/-- Runs an action in a new scratch directory, and removes that afterwards. -/
def run (label : Text) (action : Path → Action α) : Action α := fun world =>
  match make world label with
  | .error cause => (.error (.file world.tempDir cause), world)
  | .ok (dir, location, world) =>
    let world := world.addRecord .debug ("[workspace] created ".toList ++ dir)
    match (action dir).run world with
    | (.error error, world) => (.error error, { world with tree := world.tree.remove location })
    | (.ok value, world) =>
      let world := { world with tree := world.tree.remove location }
      (.ok value, world.addRecord .debug ("[workspace] removed ".toList ++ dir))

/-- Writes a file of a scratch directory. -/
def write (dir : Path) (name text : Text) : Action Path := do
  let path := Path.join dir name
  Action.writeText path text
  return path

end Scratch

end PlainC
