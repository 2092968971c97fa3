import PlainC.FileTree
import PlainC.Text.Blank
import PlainC.Text.Utf8

/-!
# External tools

A tool is a program that is given arguments, may read files, and prints. What it does is not ours to
say: a launcher answers each invocation as it likes, in view of the files and of the runs before.
-/

namespace PlainC

/-- How a tool ended. -/
inductive ExitStatus where
  | code (n : Nat)
  | signal (n : Nat)
  deriving DecidableEq, Repr

namespace ExitStatus

def isSuccess (status : ExitStatus) : Bool := status = code 0

def signalNames : List (Nat × String) := [
  (1, "SIGHUP"), (2, "SIGINT"), (3, "SIGQUIT"), (4, "SIGILL"), (5, "SIGTRAP"), (6, "SIGABRT"),
  (7, "SIGBUS"), (8, "SIGFPE"), (9, "SIGKILL"), (10, "SIGUSR1"), (11, "SIGSEGV"), (12, "SIGUSR2"),
  (13, "SIGPIPE"), (14, "SIGALRM"), (15, "SIGTERM")]

def describe : ExitStatus → Text
  | code n => "exit status: ".toList ++ Text.ofNat n
  | signal n =>
    let name :=
      match signalNames.lookup n with
      | some name => " (".toList ++ name.toList ++ ")".toList
      | none => []
    "signal: ".toList ++ Text.ofNat n ++ name

end ExitStatus

structure Invocation where
  program : Text
  args : List Text
  deriving DecidableEq, Repr

/-- Whether there is a NUL among what a program would be given; no program is started with one. -/
def Invocation.hasNul (invocation : Invocation) : Bool :=
  (invocation.program :: invocation.args).any fun text => '\x00' ∈ text

/-- What a tool printed, and how it ended. -/
structure Printed where
  stdout : Bytes
  stderr : Bytes
  status : ExitStatus

/-- A run that took place, with the files that were there. -/
structure Run where
  invocation : Invocation
  tree : FileTree
  printed : Printed

/-- Answers an invocation after some runs, or says why the tool could not be started. -/
abbrev Launcher := List Run → FileTree → Invocation → Except FileError Printed

/-- What a tool printed, as text. -/
structure Transcript where
  stdout : Text
  stderr : Text
  status : ExitStatus
  deriving DecidableEq, Repr

namespace Transcript

def ofPrinted (printed : Printed) : Transcript :=
  ⟨.ofBytes printed.stdout, .ofBytes printed.stderr, printed.status⟩

def isSuccess (output : Transcript) : Bool := output.status.isSuccess

/-- All that was printed, for a report; the status if that is nothing. -/
def report (output : Transcript) : Text :=
  let texts := [Text.trimEnd output.stderr, Text.trimEnd output.stdout].filter (!·.isEmpty)
  if texts.isEmpty then "process exited with status ".toList ++ output.status.describe
  else Text.joinLines texts

end Transcript

end PlainC
