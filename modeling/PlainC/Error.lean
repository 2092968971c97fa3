import PlainC.Diagnostic
import PlainC.Text.Quoted
import PlainC.Token.Located

/-!
# Errors

What can go wrong, with what is needed to say so.
-/

namespace PlainC

/-- What can go wrong with a file. -/
inductive FileError where
  | notFound
  | permissionDenied
  | notDirectory
  | isDirectory
  | alreadyThere
  | nameTooLong
  /-- A path with a NUL in it. -/
  | nulInPath
  /-- A NUL in the name of a program or in an argument. -/
  | nulInArgument
  | invalidText
  | other (text : Text)
  /-- What went wrong, and where. -/
  | located (cause : FileError) (path : Text)
  deriving DecidableEq, Repr

def FileError.message : FileError → Text
  | notFound => "No such file or directory (os error 2)".toList
  | permissionDenied => "Permission denied (os error 13)".toList
  | notDirectory => "Not a directory (os error 20)".toList
  | isDirectory => "Is a directory (os error 21)".toList
  | alreadyThere => "File exists (os error 17)".toList
  | nameTooLong => "File name too long (os error 36)".toList
  | nulInPath => "file name contained an unexpected NUL byte".toList
  | nulInArgument => "nul byte found in provided data".toList
  | invalidText => "stream did not contain valid UTF-8".toList
  | other text => text
  | located cause path => cause.message ++ " at path ".toList ++ Text.quoted path

inductive Error where
  | unknownFunction (name path : Text)
  /-- A file that does not have the form it should. -/
  | malformed (path reason : Text)
  | preprocessing (path output : Text)
  | notCompiling (path : Text) (diagnostics : List Diagnostic) (output : Text)
  | brokenEdit (function reason : Text)
  | launch (tool reason : Text)
  | file (path : Text) (cause : FileError)
  /-- The tokens of a span have no positions. -/
  | misplaced (token : Misplaced)
  deriving DecidableEq, Repr

namespace Error

def message : Error → Text
  | unknownFunction name path =>
    "function `".toList ++ name ++ "` not found in ".toList ++ path
  | malformed path reason => "failed to parse ".toList ++ path ++ ": ".toList ++ reason
  | preprocessing path output =>
    "preprocessing ".toList ++ path ++ " failed:\n".toList ++ output
  | notCompiling path diagnostics output =>
    let details := if diagnostics.isEmpty then [output] else diagnostics.map Diagnostic.render
    Text.joinLines ((path ++ " does not compile after normalization:".toList) :: details)
  | brokenEdit function reason =>
    "invariant violated while editing `".toList ++ function ++ "`: ".toList ++ reason
  | launch tool reason => "failed to launch ".toList ++ tool ++ ": ".toList ++ reason
  | file path cause => "io error on ".toList ++ path ++ ": ".toList ++ cause.message
  | misplaced token => "a token ends inside a character: ".toList ++ token.spelling

/-- The error behind an error. -/
def source? : Error → Option Text
  | file _ cause => some cause.message
  | _ => none

end Error

end PlainC
