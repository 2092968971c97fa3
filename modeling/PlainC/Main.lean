import PlainC.CommandLine.Run
import Std.Time.DateTime

/-!
# The program

The files that a command line speaks of are read into a tree, the command line is run in a world with
that tree, and what changed is written back. All that is decided is decided by `CommandLine.run`; here
it only meets the system. No tool is started from here, so to the run each tool is a program that is
not there.
-/

namespace PlainC

namespace Program

def systemPath (location : Location) : String := String.ofList (FileTree.absolutePath location)

/-- What the system has at a place. -/
def probe (location : Location) : IO (Option Entry) := do
  try
    return some (.file (← IO.FS.readBinFile (systemPath location)).toList)
  catch _ =>
    try
      let found ← IO.FS.realPath (systemPath location)
      return if ← found.isDir then some .directory else none
    catch _ => return none

/-- Adds all that a path leads through. -/
def gather (base : Location) (tree : FileTree) (path : Path) : IO FileTree := do
  let mut tree := tree
  let mut location := FileTree.origin base path
  for step in Text.split '/' path do
    if step = ['.', '.'] then location := location.dropLast
    else if !Path.isIdle step then
      location := location ++ [step]
      if let some entry ← probe location then tree := tree.set location entry
  return tree

/-- The paths that a request names. -/
def namedPaths (request : Request) : List Path :=
  request.command.file :: [request.config, request.logFile, request.outputDir].filterMap id

/-- The files in which settings for a request may be. -/
def settingsPaths (request : Request) (world : World) : List Path :=
  (Settings.directories world request.command.file).map fun dir => Path.join dir Settings.fileName

/-- The files that a request may make. -/
def madePaths (request : Request) (world : World) : List Path :=
  match ((CommandLine.settingsFor request).run world).1 with
  | .error _ => []
  | .ok settings =>
    let input := request.command.file
    let stripped := Path.stripped input settings.outputDir
    [stripped, Path.expanded input settings.outputDir, Path.expanded stripped settings.outputDir]

/-- The time in seconds and microseconds. -/
def now : IO Text := do
  let wall := (← Std.Time.Timestamp.now).toWallTime .zero
  let time := Std.Time.PlainDateTime.ofWallTime wall
  let padded (width : Nat) (n : Int) : String :=
    let digits := toString n
    String.ofList (List.replicate (width - digits.length) '0') ++ digits
  let date := [padded 4 time.year.toInt, padded 2 time.month.val, padded 2 time.day.val]
  let clock := [padded 2 time.hour.val, padded 2 time.minute.val, padded 2 time.second.val]
  let micros := padded 6 (time.nanosecond.val / 1000)
  return ("-".intercalate date ++ "T" ++ ":".intercalate clock ++ "." ++ micros ++ "Z").toList

/-- A world with the files that a command line speaks of. -/
def prepare (args : List Text) : IO World := do
  let homePath := (← IO.currentDir).toString.toList
  let tempDir := ((← IO.getEnv "TMPDIR").getD "/tmp").toList
  let home := (Text.split '/' homePath).filter (!·.isEmpty)
  let tree ← [homePath, tempDir].foldlM (gather []) .empty
  let mut world : World := {
    tree := tree
    home := home
    tempDir := tempDir
    ending := Text.ofNat
    clock := ← now
    launcher := fun _ _ _ => .error .notFound
    runs := []
    records := []
    logFile := none }
  if let .value request := CommandLine.parse args then
    world := { world with tree := ← (namedPaths request).foldlM (gather home) world.tree }
    world := { world with tree := ← (settingsPaths request world).foldlM (gather home) world.tree }
    world := { world with tree := ← (madePaths request world).foldlM (gather home) world.tree }
  return world

/-- Writes back what differs, directories before what is in them. -/
def writeBack (before after : FileTree) : IO Unit := do
  let changed := after.entries.filter fun (location, entry) => before.get? location ≠ some entry
  for (location, entry) in changed.mergeSort fun a b => a.1.length ≤ b.1.length do
    match entry with
    | .directory => IO.FS.createDirAll (systemPath location)
    | .file content => IO.FS.writeBinFile (systemPath location) ⟨content.toArray⟩

end Program

end PlainC

open PlainC in
def main (args : List String) : IO UInt32 := do
  let args := args.map String.toList
  let world ← Program.prepare args
  let (ending, after) := CommandLine.run args world
  Program.writeBack world.tree after.tree
  for record in ending.records.getD [] do
    IO.eprint (String.ofList (record.render world.clock))
  IO.print (String.ofList ending.stdout)
  return UInt32.ofNat ending.code
