import PlainC.Canonicalization
import PlainC.CommandLine
import PlainC.Settings.Discovery

/-!
# Running a command line

A command line is read, the settings are found, and the command is run. What is printed is the path of
the file that was made, or the stripped text. The log goes to standard error and, if asked for, to the
end of a file, where each record is written when it comes.
-/

namespace PlainC

namespace CommandLine

def programName : Text := "c-normalizer".toList

def programVersion : Text := "0.1.0".toList

/-- How a run of the program ends. A run that was not understood logs nothing. -/
structure Ending where
  code : Nat
  stdout : Text
  records : Option (List Record)
  deriving DecidableEq, Repr

/-- What a command prints. -/
def execute (settings : Settings) : Command → Action Text
  | .stripStatic file functions inPlace => do
    let text ← Stripping.stripAll settings.reader functions file
    if inPlace then
      Action.writeText file text
      return file ++ ['\n']
    else return text
  | .expand file => return (← settings.expander.expand file) ++ ['\n']
  | .unfold file => return (← Unfolding.unfoldFile settings.reader file) ++ ['\n']
  | .canonicalize file strip =>
    return (← Canonicalization.canonicalizeStripped settings file strip) ++ ['\n']

/-- The settings of a request. -/
def settingsFor (request : Request) : Action Settings := do
  let settings ←
    match request.config with
    | some path => Settings.ofFile path
    | none => Settings.forSource request.command.file
  return { settings with outputDir := request.outputDir.or settings.outputDir }

/-! The log -/

/-- The file that the log goes to; a path without a name stands for its directory. -/
def logPath (path : Path) : Path :=
  Path.join ((Path.directory? path).getD ".".toList)
    ((Path.fileName? path).getD "c-normalizer.log".toList)

/-- Opens the file of a log. Where that fails, the directory of the file is made first. -/
def openLog (path : Path) (world : World) : Except FileError Location × World :=
  match world.tree.openFile world.home path with
  | .ok (location, tree) => (.ok location, { world with tree := tree })
  | .error _ =>
    match world.tree.makeDirectories world.home ((Path.parent? path).getD []) with
    | (.error cause, tree) => (.error cause, { world with tree := tree })
    | (.ok (), tree) =>
      match tree.openFile world.home path with
      | .ok (location, tree) => (.ok location, { world with tree := tree })
      | .error cause => (.error cause, { world with tree := tree })

/-- The level up to which a request logs. -/
def levelOf (request : Request) (settings : Except Error Settings) : LogLevel :=
  if request.verbose then .debug
  else
    match settings with
    | .ok settings => settings.level
    | .error _ => .standard

/-- The code with which the program ends on an error. A text that cannot be placed stops it at once. -/
def exitCode : Error → Nat
  | .misplaced _ => 101
  | _ => 1

/-- Ends a run on an error. -/
def failWith (error : Error) (world : World) : Nat × World :=
  match error with
  | .misplaced _ => (exitCode error, world)
  | _ => (exitCode error, world.addRecord .error error.message)

/-- Runs a request whose settings are known, and gives the exit code and what is printed. -/
def runWith (request : Request) (settings : Except Error Settings) (world : World) :
    Nat × Text × World :=
  match settings with
  | .error error =>
    let (code, world) := failWith error world
    (code, [], world)
  | .ok settings =>
    let world := world.addRecord .info (programName ++ " v".toList ++ programVersion)
    match (execute settings request.command).run world with
    | (.ok stdout, world) => (0, stdout, world)
    | (.error error, world) =>
      let (code, world) := failWith error world
      (code, [], world)

/-- Runs a request that logs up to a level, with its settings. -/
def runLogging (request : Request) (settings : Except Error Settings) (level : LogLevel)
    (world : World) : Ending × World :=
  let (code, stdout, world) := runWith request settings { world with records := [] }
  (⟨code, stdout, some (world.records.filter (level.admits ·.level))⟩,
    { world with logFile := none })

/-- Runs a request. Where its log file cannot be opened, no more is done. -/
def runRequest (request : Request) (world : World) : Ending × World :=
  let (settings, world) := (settingsFor request).run world
  let level := levelOf request settings
  match request.logFile with
  | none => runLogging request settings level world
  | some path =>
    match openLog (logPath path) world with
    | (.error _, world) => (⟨101, [], some []⟩, world)
    | (.ok location, world) =>
      runLogging request settings level { world with logFile := some ⟨location, level⟩ }

/-- Runs a command line. -/
def run (args : List Text) (world : World) : Ending × World :=
  match parse args with
  | .usage => (⟨2, [], none⟩, world)
  | .help => (⟨0, [], some []⟩, world)
  | .version => (⟨0, programName ++ ' ' :: programVersion ++ ['\n'], some []⟩, world)
  | .value request => runRequest request world

end CommandLine

end PlainC
