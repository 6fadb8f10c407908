import TemplateCompiler.Path
import TemplateCompiler.Text.Quoted
import TemplateCompiler.Text.Utf8

/-!
# Files

The files and directories that a compiler can see, and the directory that relative paths start from.
A path is followed component by component, and each component but the last must be a directory that
exists, also one that the next component leaves again. There are limits to how long a component and
a whole path can be, and a zero character ends no path and stands in none.

Symbolic links and permissions are left out: every file that exists can be read, and one path from
the root leads to it. `resolve` is therefore lexical: a `..` drops the component before it, and no
directory is looked at.
-/

namespace TemplateCompiler

inductive Entry where
  | file (bytes : List UInt8)
  | directory

structure FileSystem where
  /-- The directory that relative paths start from. -/
  here : List String
  /-- Files and directories by their components from the root. -/
  entries : List (List String × Entry)

/-- Why a path does not lead to a readable text. -/
inductive ReadFault where
  | notFound
  | isDirectory
  | notDirectory
  | nameTooLong
  | zeroCharacter
  | malformed (m : Text.Utf8.Malformed)

def ReadFault.message (path : Path) : ReadFault → String
  | .notFound => s!"[Errno 2] No such file or directory: {Text.quoted path.toString}"
  | .isDirectory => s!"[Errno 21] Is a directory: {Text.quoted path.toString}"
  | .notDirectory => s!"[Errno 20] Not a directory: {Text.quoted path.toString}"
  | .nameTooLong => s!"[Errno 36] File name too long: {Text.quoted path.toString}"
  | .zeroCharacter => "embedded null byte"
  | .malformed m => m.message

namespace FileSystem

def herePath (fs : FileSystem) : Path :=
  ⟨.absolute, fs.here⟩

/-- An absolute path, with no component that leads to a parent. -/
def resolve (fs : FileSystem) (p : Path) : Path :=
  fs.herePath.resolve p

/-- Does a zero character stand in the path? -/
def hasZero (p : Path) : Bool :=
  p.parts.any fun part => part.toList.contains '\x00'

/-- The resolved path, if it can be one of a file at all. -/
def locate (fs : FileSystem) (p : Path) : Except ReadFault Path :=
  if hasZero p then .error .zeroCharacter else .ok (fs.resolve p)

/-! ## Looking up -/

def entry? (fs : FileSystem) (place : List String) : Option Entry :=
  if place.isEmpty then some .directory else fs.entries.lookup place

/-- The longest component in bytes. -/
def nameLimit : Nat := 255

/-- The longest path in bytes. -/
def pathLimit : Nat := 4095

/-- Follows components from a place. -/
def follow (fs : FileSystem) (place : List String) : List String → Except ReadFault Entry
  | [] =>
    match fs.entry? place with
    | none => .error .notFound
    | some e => .ok e
  | part :: rest =>
    match fs.entry? place with
    | none => .error .notFound
    | some (.file _) => .error .notDirectory
    | some .directory =>
      if nameLimit < part.utf8ByteSize then .error .nameTooLong
      else follow fs (if part = ".." then place.dropLast else place ++ [part]) rest

def find (fs : FileSystem) (p : Path) : Except ReadFault Entry :=
  if hasZero p then .error .zeroCharacter
  else if pathLimit < p.toString.utf8ByteSize then .error .nameTooLong
  else fs.follow (if p.root = .relative then fs.here else []) p.parts

/-- Is there a file? A path that is too long is a fault, any other that leads nowhere is not. -/
def isFile (fs : FileSystem) (p : Path) : Except ReadFault Bool :=
  match fs.find p with
  | .ok (.file _) => .ok true
  | .error .nameTooLong => .error .nameTooLong
  | _ => .ok false

def readBytes (fs : FileSystem) (p : Path) : Except ReadFault (List UInt8) :=
  match fs.find p with
  | .ok (.file bytes) => .ok bytes
  | .ok .directory => .error .isDirectory
  | .error f => .error f

/-- Every way to end a line becomes a line feed. -/
def unifyLineEnds : List Char → List Char
  | [] => []
  | '\r' :: '\n' :: rest => '\n' :: unifyLineEnds rest
  | c :: rest => (if c = '\r' then '\n' else c) :: unifyLineEnds rest

/-- The text of a file, with line feeds for line ends. -/
def readText (fs : FileSystem) (p : Path) : Except ReadFault String := do
  let bytes ← fs.readBytes p
  match Text.Utf8.decode bytes with
  | .ok text => .ok (String.ofList (unifyLineEnds text))
  | .error m => .error (.malformed m)

/-! ## Changing -/

/-- The directories above a place, outermost first. -/
def ancestors (place : List String) : List (List String) :=
  (List.range place.length).map place.take

/-- Puts an entry in the place of what is there, and makes the directories above it. -/
def put (fs : FileSystem) (p : Path) (e : Entry) : FileSystem :=
  let place := (fs.resolve p).parts
  let missing := (ancestors place).filter fun dir => (fs.entry? dir).isNone
  { fs with
    entries := fs.entries.filter (·.1 ≠ place) ++ missing.map (·, .directory) ++ [(place, e)] }

/-- Takes a file away. -/
def remove (fs : FileSystem) (p : Path) : Except ReadFault FileSystem := do
  let _ ← fs.readBytes p
  let place := (fs.resolve p).parts
  return { fs with entries := fs.entries.filter (·.1 ≠ place) }

/-- Writes a file in the place of what is there. A directory cannot be written. -/
def write (fs : FileSystem) (p : Path) (bytes : List UInt8) : Except ReadFault FileSystem :=
  match fs.find p with
  | .ok (.file _) | .error .notFound => .ok (fs.put p (.file bytes))
  | .ok .directory => .error .isDirectory
  | .error fault => .error fault

/-- Nothing but the directory that relative paths start from. -/
def empty (here : List String) : FileSystem where
  here := here
  entries := (ancestors here ++ [here]).map (·, .directory)

end FileSystem

end TemplateCompiler
