import PlainC.Path

/-!
# The command line

A command line names one command with its file, and switches. Those that every command knows may come
before the command or behind it, and behind it they win. A switch that takes a value takes it behind an
equals sign or from the next argument, which must not look like a switch; unless it collects values it
comes once on each side of the command. Two dashes end the switches.
-/

namespace PlainC

inductive Command where
  | stripStatic (file : Path) (functions : List Text) (inPlace : Bool)
  | expand (file : Path)
  | unfold (file : Path)
  | canonicalize (file : Path) (strip : List Text)
  deriving DecidableEq, Repr

def Command.file : Command → Path
  | stripStatic file _ _ => file
  | expand file => file
  | unfold file => file
  | canonicalize file _ => file

structure Request where
  verbose : Bool
  logFile : Option Path
  config : Option Path
  outputDir : Option Path
  command : Command
  deriving DecidableEq, Repr

namespace CommandLine

/-- What a switch takes. -/
inductive Takes where
  | nothing
  | text
  | path
  deriving DecidableEq, Repr

structure Switch where
  name : Text
  short : Option Char
  takes : Takes
  collects : Bool
  deriving DecidableEq, Repr

def flag (name : String) (short : Option Char) : Switch := ⟨name.toList, short, .nothing, false⟩

def single (name : String) : Switch := ⟨name.toList, none, .path, false⟩

def collecting (name : String) : Switch := ⟨name.toList, none, .text, true⟩

/-- The switches that every command knows. -/
def common : List Switch := [
  flag "verbose" (some 'v'), single "log-file", single "config", single "output-dir"]

/-- What came of reading: an answer that ends it, or a value. -/
inductive Answer (α : Type) where
  | usage
  | help
  | version
  | value (a : α)

instance : Monad Answer where
  pure := .value
  bind answer next :=
    match answer with
    | .usage => .usage
    | .help => .help
    | .version => .version
    | .value a => next a

/-- Switches that were given, in order, with their values. -/
abbrev Given := List (Text × Text)

/-- Whether an argument looks like a switch. A lone dash does not. -/
def looksLikeSwitch (arg : Text) : Bool := arg.head? = some '-' && arg ≠ ['-']

/-- Notes a switch, if it may be given and its value is fit. -/
def note (switch : Switch) (value : Text) (given : Given) : Answer Given :=
  if !switch.collects && given.any (·.1 = switch.name) then .usage
  else if switch.takes = .path && value.isEmpty then .usage
  else .value (given ++ [(switch.name, value)])

/-- Whether the program's version may be asked for: only before the command. -/
abbrev AsksVersion := Bool

/-- The letters behind one dash. -/
def letters (switches : List Switch) (asksVersion : AsksVersion) :
    Text → Given → Answer Given
  | [], given => .value given
  | c :: rest, given =>
    if c = 'h' then .help
    else if c = 'V' && asksVersion then .version
    else
      match switches.find? fun switch => switch.short = some c with
      | some switch => do letters switches asksVersion rest (← note switch [] given)
      | none => .usage

/-- A name behind two dashes with the value attached to it, if there is one. -/
def splitValue (body : Text) : Text × Option Text :=
  let name := body.takeWhile (· ≠ '=')
  match body.drop name.length with
  | [] => (name, none)
  | _ :: value => (name, some value)

/-- A switch behind two dashes; it may take the next argument. -/
def longSwitch (switches : List Switch) (asksVersion : AsksVersion) (body : Text)
    (rest : List Text) (given : Given) : Answer (Given × List Text) := do
  let (name, value) := splitValue body
  match switches.find? fun switch => switch.name = name with
  | none =>
    if value.isSome then .usage
    else if name = "help".toList then .help
    else if name = "version".toList && asksVersion then .version
    else .usage
  | some switch =>
    match switch.takes, value, rest with
    | .nothing, some _, _ => .usage
    | .nothing, none, rest => return (← note switch [] given, rest)
    | _, some value, rest => return (← note switch value given, rest)
    | _, none, [] => .usage
    | _, none, value :: rest =>
      if looksLikeSwitch value then .usage else return (← note switch value given, rest)

/-- Reads switches up to an argument that is none, and says whether two dashes came before it. -/
def switchesUpTo (switches : List Switch) (asksVersion : AsksVersion) :
    (fuel : Nat) → List Text → Given → Answer (Given × Bool × List Text)
  | 0, args, given => .value (given, false, args)
  | _, [], given => .value (given, false, [])
  | fuel + 1, arg :: rest, given =>
    match arg with
    | ['-', '-'] => .value (given, true, rest)
    | '-' :: '-' :: body => do
      let (given, rest) ← longSwitch switches asksVersion body rest given
      switchesUpTo switches asksVersion fuel rest given
    | '-' :: c :: more => do
      let given ← letters switches asksVersion (c :: more) given
      switchesUpTo switches asksVersion fuel rest given
    | _ => .value (given, false, arg :: rest)

/-- Reads the arguments of a command: switches, and words between them. -/
def arguments (switches : List Switch) :
    (fuel : Nat) → List Text → Given → List Text → Answer (Given × List Text)
  | 0, _, _, _ => .usage
  | fuel + 1, args, given, words => do
    let (given, ended, rest) ← switchesUpTo switches false (args.length + 1) args given
    if ended then return (given, words ++ rest)
    match rest with
    | [] => return (given, words)
    | word :: rest =>
      if words.isEmpty && !word.isEmpty then arguments switches fuel rest given [word]
      else .usage

/-- The values of a switch in order. -/
def values (given : Given) (name : String) : List Text :=
  (given.filter (·.1 = name.toList)).map Prod.snd

def isGiven (given : Given) (name : String) : Bool := given.any (·.1 = name.toList)

/-- The switches of a command beside the common ones. -/
def ownSwitches? (name : Text) : Option (List Switch) :=
  if name = "strip-static".toList then some [collecting "function", flag "in-place" none]
  else if name = "expand".toList then some []
  else if name = "unfold".toList then some []
  else if name = "canonicalize".toList then some [collecting "strip"]
  else none

/-- The command of a name, with its file and switches. -/
def command? (name : Text) (file : Path) (given : Given) : Option Command :=
  if name = "strip-static".toList then
    match values given "function" with
    | [] => none
    | functions => some (.stripStatic file functions (isGiven given "in-place"))
  else if name = "expand".toList then some (.expand file)
  else if name = "unfold".toList then some (.unfold file)
  else if name = "canonicalize".toList then some (.canonicalize file (values given "strip"))
  else none

/-- Reads what stands behind the name of a command; `before` was given before it. -/
def readCommand (name : Text) (switches : List Switch) (before : Given) (args : List Text) :
    Answer Request := do
  let (given, words) ← arguments (common ++ switches) (args.length + 2) args [] []
  match words with
  | [file] =>
    if file.isEmpty then .usage
    else
      match command? name file given with
      | none => .usage
      | some command =>
        let last (name : String) : Option Text :=
          (values given name).getLast?.or (values before name).getLast?
        return {
          verbose := isGiven given "verbose" || isGiven before "verbose"
          logFile := last "log-file"
          config := last "config"
          outputDir := last "output-dir"
          command := command }
  | _ => .usage

/-- What is asked with the names behind `help`: the program, or one of its commands. -/
def helpOn : List Text → Answer Request
  | [] => .help
  | [name] => if name = "help".toList || (ownSwitches? name).isSome then .help else .usage
  | _ => .usage

/-- Reads a command line without the name of the program. -/
def parse (args : List Text) : Answer Request := do
  let (given, ended, rest) ← switchesUpTo common true (args.length + 1) args []
  if ended then .usage
  else
    match rest with
    | [] => .usage
    | name :: rest =>
      match ownSwitches? name with
      | some switches => readCommand name switches given rest
      | none => if name = "help".toList then helpOn rest else .usage

end CommandLine

end PlainC
