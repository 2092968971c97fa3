import PlainC.Expansion
import PlainC.Stripping
import PlainC.Typedef.Unfolding

/-!
# Canonical sources

The whole way of a file: functions are stripped if asked for, macros are expanded, and typedefs are
unfolded in what comes out. The first stage that fails ends the run.
-/

namespace PlainC

namespace Unfolding

/-- Unfolds the typedefs of a file in place. -/
def unfoldFile (reader : UnitReader) (path : Path) : Action Path := do
  let unit ← (reader.lookingBeside path).parse path
  let aliases := unit.aliases
  for typedef in unit.typedefs do
    if !typedef.isSubstitutable then
      Action.debug ("[unfold] keeping typedef `".toList ++ typedef.name ++ "` (".toList
        ++ typedef.canonical ++ ")".toList)
  let progress ← Action.placed (removeDeclarations unit.source unit.typedefs aliases)
  for line in progress.blanked do
    Action.warn ("[unfold] typedef at line ".toList ++ Text.ofNat line
      ++ " does not start with `typedef`, blanking it".toList)
  Action.writeText path (spellOutAll aliases progress.source.toText)
  Action.info ("Unfolded ".toList ++ Text.ofNat aliases.size ++ " typedefs in ".toList ++ path)
  return path

end Unfolding

namespace Settings

def expander (settings : Settings) : Expander := ⟨settings.tools, settings.outputDir⟩

def reader (settings : Settings) : UnitReader := .ofTools settings.tools

end Settings

namespace Canonicalization

/-- Expands a file and unfolds the result. Included files are also looked for beside `origin`, from
which the input was made. -/
def run (settings : Settings) (input origin : Path) : Action Path := do
  let dir := Path.directory? origin
  let expander := dir.elim settings.expander settings.expander.addDirectory
  let reader := dir.elim settings.reader settings.reader.addDirectory
  let expanded ← expander.expand input
  let canonical ← Unfolding.unfoldFile reader expanded
  Action.info ("Canonicalized ".toList ++ origin ++ " into ".toList ++ canonical)
  return canonical

/-- Makes the canonical file of an input. -/
def canonicalize (settings : Settings) (input : Path) : Action Path := run settings input input

/-- Strips functions first, into a file of its own. -/
def canonicalizeStripped (settings : Settings) (input : Path) (names : List Text) :
    Action Path := do
  if names.isEmpty then canonicalize settings input
  else do
    let text ← Stripping.stripAll settings.reader names input
    let path := Path.stripped input settings.outputDir
    Action.writeText path text
    Action.info ("Wrote stripped source to ".toList ++ path)
    run settings path input

end Canonicalization

end PlainC
