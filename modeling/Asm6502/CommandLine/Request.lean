import Asm6502.Text.Cut
import Asm6502.Text.Numeral

/-!
What a command line asks for. Arguments are read from left to right, options may stand anywhere
before a bare `--`, and the first argument that is refused or that asks for help or for the
version settles the request.
-/

namespace Asm6502.CommandLine

structure Options where
  input : Text
  output : Option Text
  dump : Nat
  verbosity : Nat
  /-- Whether a timing trace is wanted, which is no part of the outcome. -/
  trace : Bool
  deriving DecidableEq, Repr

inductive Request where
  | assemble (options : Options)
  | version
  | help
  deriving DecidableEq, Repr

/-! ## Arguments -/

inductive Argument where
  | endOfOptions
  | long (name : Text) (value : Option Text)
  | short (flags : Text)
  | plain (text : Text)
  deriving DecidableEq, Repr

/-- A lone `-` is no option. -/
def Argument.ofText : Text → Argument
  | ['-', '-'] => .endOfOptions
  | '-' :: '-' :: rest => .long (Text.before (· = '=') rest) (Text.after? (· = '=') rest)
  | '-' :: c :: cs => .short (c :: cs)
  | text => .plain text

/-- An unsigned 64-bit number in decimal, a plus sign allowed. -/
def readCount (t : Text) : Option Nat :=
  (Text.natural? 10 ((Text.dropFirst? '+' t).getD t)).filter fun n => n < 0x10000000000000000

/-! ## Reading a request -/

/-- What the arguments so far have set, to become `Options`. -/
structure Draft where
  input : Option Text := none
  output : Option Text := none
  dump : Option Nat := none
  verbosity : Nat := 0
  trace : Bool := false

inductive Progress where
  | refused
  | settled (request : Request)
  | continued (draft : Draft)

namespace Draft

/-- The first path is the input and the second the output; there is no third, and none is empty. -/
def addPath (d : Draft) (path : Text) : Option Draft :=
  if path = [] then none
  else
    match d.input, d.output with
    | none, _ => some { d with input := some path }
    | some _, none => some { d with output := some path }
    | some _, some _ => none

/-- The length of the dump may be set once. -/
def setDump (d : Draft) (value : Text) : Option Draft :=
  match d.dump with
  | some _ => none
  | none => (readCount value).map fun n => { d with dump := some n }

def addVerbosity (d : Draft) : Draft :=
  { d with verbosity := d.verbosity + 1 }

def longFlag (d : Draft) (name : Text) : Progress :=
  if name = "verbose".toList then .continued d.addVerbosity
  else if name = "trace".toList then
    if d.trace then .refused else .continued { d with trace := true }
  else if name = "version".toList then .settled .version
  else if name = "help".toList then .settled .help
  else .refused

def shortFlags (d : Draft) : Text → Progress
  | [] => .continued d
  | 'v' :: flags => d.addVerbosity.shortFlags flags
  | 'V' :: _ => .settled .version
  | 'h' :: _ => .settled .help
  | _ :: _ => .refused

def finish (d : Draft) : Option Request :=
  d.input.map fun input =>
    .assemble ⟨input, d.output, d.dump.getD 64, d.verbosity, d.trace⟩

def read (d : Draft) : List Text → Option Request
  | [] => d.finish
  | arg :: args =>
    match Argument.ofText arg with
    | .endOfOptions => (args.foldlM addPath d).bind finish
    | .plain path =>
      match d.addPath path with
      | none => none
      | some d => d.read args
    | .short flags =>
      match d.shortFlags flags with
      | .refused => none
      | .settled request => some request
      | .continued d => d.read args
    | .long name (some value) =>
      if name = "dump".toList then
        match d.setDump value with
        | none => none
        | some d => d.read args
      else none
    | .long name none =>
      if name = "dump".toList then
        match args with
        | [] => none
        | value :: args =>
          match d.setDump value with
          | none => none
          | some d => d.read args
      else
        match d.longFlag name with
        | .refused => none
        | .settled request => some request
        | .continued d => d.read args

end Draft

/-- `none` if the arguments are refused. -/
def Request.ofArguments (args : List Text) : Option Request :=
  Draft.read {} args

/-! ## Where the output goes -/

/-- A name without its extension, which starts at the last dot unless that is its first
character. -/
def stem (name : Text) : Text :=
  match Text.after? (· = '.') name.reverse with
  | none => name
  | some rest => if rest = [] then name else rest.reverse

/-- A reversed path from its last component on: slashes and components `.` do not count. -/
def skipDots : Text → Text
  | '/' :: rest => skipDots rest
  | '.' :: '/' :: rest => skipDots rest
  | rest => rest

/-- A path with the extension of its last component replaced, or put behind a name that has none.
The old extension is cut off first: if the path ends there and leaves `..`, that is the parent
directory and takes no new one. Without a name, as in `..`, a path stays as it is. -/
def withExtension (extension path : Text) : Text :=
  let body := (skipDots path.reverse).reverse
  let name := (Text.before (· = '/') body.reverse).reverse
  let directory := body.take (body.length - name.length)
  if name = [] ∨ name = ".".toList ∨ name = "..".toList then path
  else if stem name = ".".toList ∧ body = path then directory ++ "..".toList
  else directory ++ stem name ++ '.' :: extension

def Options.outputPath (o : Options) : Text :=
  o.output.getD (withExtension "mif".toList o.input)

end Asm6502.CommandLine
