import QualityGate.Path
import QualityGate.Text.Utf8

/-! # File trees

Directories and files as one value. A path is walked part by part from a directory; every part that
has another part behind it, even an empty one, must be a directory, so a file followed by a slash is
not found to be a file. There are no links, and the parent of the top is the top. -/

namespace QualityGate

inductive FileError where
  | notFound
  | notDirectory
  | isDirectory
  | notText
  | fileExists
  | notEmpty
  | longName
  | nulInName
  | badDescriptor
  deriving DecidableEq, Repr

namespace FileError

/-- The reason in the words of the system, without its number. -/
def reason : FileError → String
  | .notFound => "No such file or directory"
  | .notDirectory => "Not a directory"
  | .isDirectory => "Is a directory"
  | .notText => "stream did not contain valid UTF-8"
  | .fileExists => "File exists"
  | .notEmpty => "Directory not empty"
  | .longName => "File name too long"
  | .nulInName => "file name contained an unexpected NUL byte"
  | .badDescriptor => "Bad file descriptor"

def number? : FileError → Option Nat
  | .notFound => some 2
  | .notDirectory => some 20
  | .isDirectory => some 21
  | .notText => none
  | .fileExists => some 17
  | .notEmpty => some 39
  | .longName => some 36
  | .nulInName => none
  | .badDescriptor => some 9

def message (e : FileError) : String :=
  match e.number? with
  | some n => s!"{e.reason} (os error {n})"
  | none => e.reason

end FileError

/-- A file with its content, or a directory with its entries. -/
inductive FileTree where
  | file (content : Bytes)
  | directory (entries : List (String × FileTree))
  deriving Repr, Inhabited

namespace FileTree

def empty : FileTree := directory []

def isDirectory : FileTree → Bool
  | file _ => false
  | directory _ => true

def child? (name : String) : FileTree → Option FileTree
  | file _ => none
  | directory entries => entries.lookup name

def get? : FileTree → List String → Option FileTree
  | t, [] => some t
  | t, n :: ns => (t.child? n).bind (·.get? ns)

/-- The entries with the one under `name` replaced, put at the end, or left out. -/
def setEntry (name : String) (t : Option FileTree) :
    List (String × FileTree) → List (String × FileTree)
  | [] => (t.map (name, ·)).toList
  | (n, u) :: es =>
    if n = name then (t.map (name, ·)).toList ++ es else (n, u) :: setEntry name t es

/-- The tree with what stands at a list of names replaced or removed. Directories on the way are made
where nothing stands yet; a file on the way stays and nothing changes. -/
def set (t : FileTree) : List String → Option FileTree → FileTree
  | [], new => new.getD t
  | [n], new =>
    match t with
    | file _ => t
    | directory es => directory (setEntry n new es)
  | n :: ns, new =>
    match t with
    | file _ => t
    | directory es =>
      directory (setEntry n (some (((es.lookup n).getD empty).set ns new)) es)

/-! ### Walking a path -/

/-- The end of a walk: the names from the top down, and what stands there. When nothing does, the
directory around it exists. -/
structure Place where
  names : List String
  tree? : Option FileTree

/-- Goes on from the directory at `names` along the parts of a path. -/
def walk (top : FileTree) : (names : List String) → List (List Char) → Except FileError Place
  | names, [] => .ok ⟨names, top.get? names⟩
  | names, p :: ps =>
    match top.get? names with
    | none => .error .notFound
    | some (file _) => .error .notDirectory
    | some (directory _) =>
      if p = [] ∨ p = ['.'] then walk top names ps
      else if p = ['.', '.'] then walk top names.dropLast ps
      else if 255 < (Text.Utf8.encode p).length then .error .longName
      else walk top (names ++ [String.ofList p]) ps

/-- The place of a path seen from the directory at `base`. A path is shorter than 4096 bytes and a
name in it is not longer than 255. -/
def locate (top : FileTree) (base : List String) (path : String) : Except FileError Place :=
  if '\x00' ∈ path.toList then .error .nulInName
  else if path = "" then .error .notFound
  else if 4095 < (Bytes.ofString path).length then .error .longName
  else if Path.isAbsolute path then walk top [] (Text.segments '/' path.toList)
  else walk top base (Text.segments '/' path.toList)

def find (top : FileTree) (base : List String) (path : String) : Except FileError FileTree := do
  match (← top.locate base path).tree? with
  | some t => .ok t
  | none => .error .notFound

def bytesAt (top : FileTree) (base : List String) (path : String) : Except FileError Bytes := do
  match ← top.find base path with
  | file content => .ok content
  | directory _ => .error .isDirectory

def textAt (top : FileTree) (base : List String) (path : String) : Except FileError String := do
  match (← top.bytesAt base path).toString? with
  | some s => .ok s
  | none => .error .notText

def isFileAt (top : FileTree) (base : List String) (path : String) : Bool :=
  match top.find base path with
  | .ok (file _) => true
  | _ => false

def existsAt (top : FileTree) (base : List String) (path : String) : Bool :=
  (top.find base path).toBool

def write (top : FileTree) (base : List String) (path : String) (content : Bytes) :
    Except FileError FileTree := do
  match ← top.locate base path with
  | ⟨names, some (file _)⟩ => .ok (top.set names (some (file content)))
  | ⟨names, none⟩ => .ok (top.set names (some (file content)))
  | ⟨_, some (directory _)⟩ => .error .isDirectory

def absolutePath (names : List String) : String :=
  "/" ++ "/".intercalate names

/-- The absolute path of what stands at a path, without `.`, `..` and empty parts. -/
def canonical (top : FileTree) (base : List String) (path : String) : Except FileError String := do
  match ← top.locate base path with
  | ⟨names, some _⟩ => .ok (absolutePath names)
  | ⟨_, none⟩ => .error .notFound

end FileTree

end QualityGate
