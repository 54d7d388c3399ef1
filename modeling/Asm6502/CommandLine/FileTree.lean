import Asm6502.Text.Blank

/-!
Files and directories, and what reading and creating a path does to them. A path is followed
component by component from the working directory or from the root; every component but the last
has to be a directory. Names and paths are bounded in length, counted in bytes of UTF-8.
-/

namespace Asm6502.CommandLine

/-! ## Faults -/

inductive FileFault where
  | missing
  | notDirectory
  | directory
  | nameTooLong
  | notText
  /-- Any other reason, in the words of the system. -/
  | other (reason : Text)
  deriving DecidableEq, Repr

def FileFault.message : FileFault → Text
  | missing => "No such file or directory (os error 2)".toList
  | notDirectory => "Not a directory (os error 20)".toList
  | directory => "Is a directory (os error 21)".toList
  | nameTooLong => "File name too long (os error 36)".toList
  | notText => "stream did not contain valid UTF-8".toList
  | other reason => reason

/-! ## Places -/

/-- Where a place is counted from. `ancestor n` is the directory `n` levels above the working
directory, which is itself `ancestor 0`. -/
inductive Anchor where
  | root
  | ancestor (levels : Nat)
  deriving DecidableEq, Repr

structure Place where
  anchor : Anchor
  components : List Text
  deriving DecidableEq, Repr

namespace Place

def workingDirectory : Place :=
  ⟨.ancestor 0, []⟩

def root : Place :=
  ⟨.root, []⟩

/-- One directory up; the root is its own parent. -/
def parent (p : Place) : Place :=
  match p.components, p.anchor with
  | [], .root => root
  | [], .ancestor levels => ⟨.ancestor (levels + 1), []⟩
  | components, anchor => ⟨anchor, components.dropLast⟩

/-- One component further: `.` and an empty component stay, `..` goes up. -/
def descend (p : Place) (component : Text) : Place :=
  if component = [] ∨ component = ".".toList then p
  else if component = "..".toList then p.parent
  else { p with components := p.components ++ [component] }

def ofPath (path : Text) : Place :=
  (path.splitOn '/').foldl descend workingDirectory

/-- Whether `p` is `q` or lies on the way down to it. -/
def leadsTo (p q : Place) : Bool :=
  p.anchor = q.anchor && p.components.isPrefixOf q.components

end Place

/-! ## Trees -/

structure FileTree where
  files : List (Place × ByteArray)
  /-- Directories beside those on the way to `files`. -/
  directories : List Place

namespace FileTree

/-- A working directory with these files and directories, in a system that has a null device and a
directory for temporary files. -/
def ofWorkingDirectory (files : List (Text × ByteArray)) (directories : List Text) : FileTree :=
  { files := files.map (fun (path, bytes) => (Place.ofPath path, bytes)) ++
      [(⟨.root, ["dev".toList, "null".toList]⟩, .empty)]
    directories := directories.map Place.ofPath ++ [⟨.root, ["tmp".toList]⟩] }

def content? (t : FileTree) (p : Place) : Option ByteArray :=
  t.files.lookup p

/-- Every anchor is a directory, and so is a place on the way to a directory or to a file. -/
def isDirectory (t : FileTree) (p : Place) : Bool :=
  p.components.isEmpty || t.directories.any p.leadsTo ||
    t.files.any fun (q, _) => p.leadsTo q && p != q

/-! ## Following a path -/

def byteLength (t : Text) : Nat :=
  t.foldr (fun c n => c.utf8Size + n) 0

def nameLimit : Nat := 255

def pathLimit : Nat := 4095

def requireDirectory (t : FileTree) (p : Place) : Except FileFault Unit :=
  if t.isDirectory p then .ok ()
  else if (t.content? p).isSome then .error .notDirectory
  else .error .missing

def requireName (name : Text) : Except FileFault Unit :=
  if byteLength name ≤ nameLimit then .ok () else .error .nameTooLong

def follow (t : FileTree) (p : Place) : List Text → Except FileFault Place
  | [] => .ok p
  | component :: rest => do
    t.requireDirectory p
    requireName component
    t.follow (p.descend component) rest

def start (path : Text) : Except FileFault Place :=
  if path = [] then .error .missing
  else if pathLimit < byteLength path then .error .nameTooLong
  else .ok (if path.head? = some '/' then .root else .workingDirectory)

/-! ## Reading -/

def read (t : FileTree) (path : Text) : Except FileFault ByteArray := do
  let p ← t.follow (← start path) (path.splitOn '/')
  if t.isDirectory p then .error .directory
  else
    match t.content? p with
    | some bytes => .ok bytes
    | none => .error .missing

def decode (bytes : ByteArray) : Except FileFault Text :=
  match String.fromUTF8? bytes with
  | some s => .ok s.toList
  | none => .error .notText

def readText (t : FileTree) (path : Text) : Except FileFault Text := do
  decode (← t.read path)

/-! ## Writing -/

/-- Where a file of this path is created. A slash at the end asks for a directory, whatever the
name before it. -/
def creationPlace (t : FileTree) (path : Text) : Except FileFault Place := do
  let all := path.splitOn '/'
  let named := (all.reverse.dropWhile List.isEmpty).reverse
  let name := named.getLast?.getD []
  let parent ← t.follow (← start path) named.dropLast
  t.requireDirectory parent
  if named.length < all.length ∨ t.isDirectory (parent.descend name) then .error .directory
  else
    requireName name
    .ok (parent.descend name)

def put (t : FileTree) (p : Place) (bytes : ByteArray) : FileTree :=
  if (t.content? p).isSome then
    { t with files := t.files.map fun (q, old) => (q, if q = p then bytes else old) }
  else { t with files := t.files ++ [(p, bytes)] }

def writeText (t : FileTree) (path text : Text) : Except FileFault FileTree := do
  let p ← t.creationPlace path
  .ok (t.put p (String.ofList text).toUTF8)

/-! ## Comparing -/

def changesFrom (before after : FileTree) : List (Place × ByteArray) :=
  after.files.filter fun (p, bytes) => before.content? p != some bytes

end FileTree

end Asm6502.CommandLine
