import Asm6502.CommandLine.Outcome

/-!
The command line on the real file system.
-/

namespace Asm6502.CommandLine

def FileFault.ofError : IO.Error → FileFault
  | .noFileOrDirectory .. => .missing
  | .noSuchThing .. => .missing
  | .inappropriateType _ code _ => if code = 20 || code = -20 then .notDirectory else .directory
  | .invalidArgument _ code details =>
    if code = 36 || code = -36 then .nameTooLong else .other details.toList
  | e => .other (toString e).toList

def readSource (path : Text) : IO (Except FileFault Text) := do
  try
    return FileTree.decode (← IO.FS.readBinFile (String.ofList path))
  catch e =>
    return .error (.ofError e)

def createResult (path : Text) : IO (Except Text IO.FS.Handle) := do
  try
    return .ok (← IO.FS.Handle.mk (String.ofList path) .write)
  catch e =>
    return .error (creationFailure path (.ofError e))

/-- Creates a file and writes it. Here, unlike in `Action.perform`, the second step can fail too. -/
def writeResult (path content : Text) : IO (Except Text Unit) := do
  match ← createResult path with
  | .error message => return .error message
  | .ok file =>
    try
      file.putStr (String.ofList content)
      return .ok ()
    catch e =>
      let fault := FileFault.ofError e
      return .error (failureText "Unable to write ".toList path [] fault.message)

def printLog (verbosity : Nat) (log : List Event) : IO Unit := do
  for event in log do
    if event.level.rank ≤ (Level.ofVerbosity verbosity).rank then
      IO.eprintln (String.ofList (event.level.tag ++ ' ' :: event.message))

def assemble (o : Options) : IO UInt32 := do
  let plan := o.plan (← readSource o.input)
  printLog o.verbosity plan.log
  match plan.action with
  | .fail message =>
    IO.eprint (String.ofList message)
    return 1
  | .save path content report =>
    match ← writeResult path content with
    | .error message =>
      IO.eprint (String.ofList message)
      return 1
    | .ok () =>
      IO.print (String.ofList report)
      return 0

def usageText : Text :=
  "Usage: softcore-asm [OPTIONS] <INPUT> [OUTPUT]\n".toList

def program (args : List Text) : IO UInt32 := do
  match Request.ofArguments args with
  | none =>
    IO.eprint (String.ofList usageText)
    return 2
  | some .version =>
    IO.print (String.ofList versionText)
    return 0
  | some .help =>
    IO.print (String.ofList usageText)
    return 0
  | some (.assemble o) => assemble o

end Asm6502.CommandLine

def main (args : List String) : IO UInt32 :=
  Asm6502.CommandLine.program (args.map String.toList)
