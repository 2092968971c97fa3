import PlainC.Invocation
import PlainC.Log

/-!
# The world of a run

A run sees a world and changes it: files are read and written, tools are started, and what happens is
logged. An action is a computation in a world that may fail; what it did to the world before it failed
stays done.
-/

namespace PlainC

structure World where
  tree : FileTree
  /-- The directory that relative paths start from. -/
  home : Location
  /-- The directory in which scratch directories are made. -/
  tempDir : Path
  /-- Endings that tell scratch directories apart, in the order in which they are tried. -/
  ending : Nat → Text
  /-- The time, as it is written in a log. -/
  clock : Text
  launcher : Launcher
  /-- The tools that were run, in order. -/
  runs : List Run
  records : List Record
  /-- The file to which records go as they come. -/
  logFile : Option LogFile

abbrev Action := ExceptT Error (StateM World)

namespace World

def isFile (world : World) (path : Path) : Bool := world.tree.isFile world.home path

def readText (world : World) (path : Path) : Except FileError Text := do
  match Text.ofBytes? (← world.tree.read world.home path) with
  | some text => return text
  | none => throw .invalidText

def writeText (world : World) (path : Path) (text : Text) : Except FileError World := do
  return { world with tree := ← world.tree.write world.home path (Text.toBytes text) }

/-- The path of a file from the top, if it is there. -/
def absolutePath? (world : World) (path : Path) : Option Path :=
  match world.tree.resolve world.home path with
  | .ok location => some (FileTree.absolutePath location)
  | .error _ => none

/-- Records what happens, also in the file of the log. -/
def addRecord (world : World) (level : LogLevel) (message : Text) : World :=
  let record : Record := ⟨level, message⟩
  let tree :=
    match world.logFile with
    | some file => file.add world.clock world.tree record
    | none => world.tree
  { world with tree := tree, records := world.records ++ [record] }

/-- Starts a tool and waits for its end. -/
def launch (world : World) (invocation : Invocation) : Except FileError Printed × World :=
  if invocation.hasNul then (.error .nulInArgument, world)
  else
    match world.launcher world.runs world.tree invocation with
    | .ok printed =>
      (.ok printed, { world with runs := world.runs ++ [⟨invocation, world.tree, printed⟩] })
    | .error cause => (.error cause, world)

end World

namespace Action

def log (level : LogLevel) (message : Text) : Action Unit :=
  modify fun world => world.addRecord level message

def debug (message : Text) : Action Unit := log .debug message

def info (message : Text) : Action Unit := log .info message

def warn (message : Text) : Action Unit := log .warn message

def readText (path : Path) : Action Text := do
  match (← get).readText path with
  | .ok text => return text
  | .error cause => throw (.file path cause)

def writeText (path : Path) (text : Text) : Action Unit := do
  match (← get).writeText path text with
  | .ok world => set world
  | .error cause => throw (.file path cause)

/-- The tokens of a span, or the failure to place them. -/
def placed : Except Misplaced α → Action α
  | .ok value => return value
  | .error token => throw (.misplaced token)

/-- Why a tool could not be started. -/
def launchReason : FileError → Text
  | .notFound => "command not found".toList
  | cause => cause.message

/-- Runs a tool and takes what it prints for text. That it fails is for the caller to judge. -/
def invoke (program : Text) (args : List Text) : Action Transcript := do
  debug ("Running: ".toList ++ program ++ " ".toList ++ Text.join [' '] args)
  let (result, world) := (← get).launch ⟨program, args⟩
  set world
  match result with
  | .error cause => throw (.launch program (launchReason cause))
  | .ok printed =>
    let output := Transcript.ofPrinted printed
    if !output.isSuccess then
      debug (program ++ " exited with ".toList ++ output.status.describe)
    return output

/-- Whether a program can be started and tells its version. -/
def isInstalled (program : Text) : Action Bool := do
  let (result, world) := (← get).launch ⟨program, ["--version".toList]⟩
  set world
  match result with
  | .ok printed => return printed.status.isSuccess
  | .error _ => return false

end Action

end PlainC
