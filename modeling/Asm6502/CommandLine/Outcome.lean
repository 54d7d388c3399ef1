import Asm6502.Assembly
import Asm6502.CommandLine.FileTree
import Asm6502.CommandLine.Request
import Asm6502.Rendering

/-!
What a command line does: it reads the input, assembles it, and writes the image and a report. A
run that fails changes no file.
-/

namespace Asm6502.CommandLine

/-! ## Texts -/

def versionText : Text :=
  "softcore-asm 0.1.0\n".toList

def failureText (before path after cause : Text) : Text :=
  "Error: ".toList ++ before ++ "'".toList ++ path ++ "'".toList ++ after ++
    "\n\nCaused by:\n    ".toList ++ cause ++ "\n".toList

def labelText (l : Label) : Text :=
  "  ".toList ++ l.name ++ ": $".toList ++ Text.hex 4 l.address.toNat ++ "\n".toList

def reportText (output : Text) (start : UInt16) (dump : Nat) (a : Assembly) : Text :=
  "Wrote ".toList ++ output ++ "\n\nMemory from $".toList ++ Text.hex 4 start.toNat ++
    ":\n".toList ++ Dump.render a.image.toList start.toNat dump ++ "\n\nLabels:\n".toList ++
    a.labels.entries.flatMap labelText

/-! ## Plans -/

inductive Action where
  | fail (message : Text)
  | save (path content report : Text)
  deriving DecidableEq, Repr

/-- What is left to do once the input has been read, and what the assembler told. -/
structure Plan where
  log : List Event
  action : Action

def Options.plan (o : Options) (source : Except FileFault Text) : Plan :=
  match source with
  | .error fault => ⟨[], .fail (failureText "Unable to read ".toList o.input [] fault.message)⟩
  | .ok source =>
    let config : Config := {}
    let session := Assembly.ofSource config source
    match session.result with
    | .error fault =>
      ⟨session.log,
        .fail (failureText "Assembly of ".toList o.input " failed".toList fault.message)⟩
    | .ok a =>
      ⟨session.log, .save o.outputPath (Mif.render a.image.toList config.start)
        (reportText o.outputPath config.start o.dump a)⟩

def creationFailure (path : Text) (fault : FileFault) : Text :=
  failureText "Unable to create ".toList path [] fault.message

/-! ## Outcomes -/

structure Outcome where
  exit : Nat
  /-- Nothing for a help text, which is the argument reader's own. -/
  stdout : Option Text
  /-- Nothing for what the argument reader says of arguments that it refuses. -/
  stderr : Option Text
  tree : FileTree

def Outcome.failure (message : Text) (tree : FileTree) : Outcome :=
  ⟨1, some [], some message, tree⟩

/-- Carries out the rest of a run on a tree. The output is created and written in one step: in a
`FileTree` a file that can be created can be written, so no failure lies between the two. -/
def Action.perform (tree : FileTree) : Action → Outcome
  | fail message => .failure message tree
  | save path content report =>
    match tree.writeText path content with
    | .error fault => .failure (creationFailure path fault) tree
    | .ok tree => ⟨0, some report, some [], tree⟩

def run (tree : FileTree) (args : List Text) : Outcome :=
  match Request.ofArguments args with
  | none => ⟨2, some [], none, tree⟩
  | some .version => ⟨0, some versionText, some [], tree⟩
  | some .help => ⟨0, none, some [], tree⟩
  | some (.assemble o) => (o.plan (tree.readText o.input)).action.perform tree

end Asm6502.CommandLine
