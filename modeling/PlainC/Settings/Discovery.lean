import PlainC.Settings
import PlainC.World

/-!
# Finding settings

Settings are looked for in the directory of a source, then in the one above it, and so on. The nearest
file wins; where there is none, the defaults hold.
-/

namespace PlainC

namespace Settings

def fileName : Text := "c-normalizer.toml".toList

/-- The directories in which settings for a source are looked for. -/
def directories (world : World) (start : Path) : List Path :=
  if world.isFile start then
    match Path.parent? start with
    | some parent => Path.ancestors parent
    | none => []
  else Path.ancestors start

/-- The settings file that is nearest to a source. -/
def nearest? (world : World) (start : Path) : Option Path :=
  ((directories world start).map fun dir => Path.join dir fileName).find? world.isFile

/-- The settings that a text from a file describes. -/
def ofText (origin : Path) (text : Text) : Except Error Settings :=
  match parse text with
  | .ok settings => .ok settings
  | .error refusal => .error (.malformed origin refusal.message)

/-- The settings in a file. -/
def ofFile (path : Path) : Action Settings := do
  let text ← Action.readText path
  ofText path text

/-- The settings for a source. -/
def forSource (source : Path) : Action Settings := do
  match nearest? (← get) source with
  | some path => ofFile path
  | none => return .standard

end Settings

end PlainC
