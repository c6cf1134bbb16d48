import QualityGate.FileTree

/-! # Repository roots

The root is given, or it is the nearest directory above the program itself that holds a `.git`. -/

namespace QualityGate

inductive RootError where
  | inaccessible (root : String) (reason : FileError)
  | noRepository (program : String)
  deriving DecidableEq, Repr

def RootError.message : RootError → String
  | inaccessible root reason => s!"cannot access root {root}: {reason.message}"
  | noRepository program => s!"no repository found above {program}; pass --root"

/-- The directory around some names, and those around it, from the inside out. -/
def enclosing : (depth : Nat) → List String → List (List String)
  | 0, _ => []
  | depth + 1, names => names.dropLast :: enclosing depth names.dropLast

namespace FileTree

/-- The absolute path of a root that is given, seen from the directory at `base`. -/
def givenRoot (files : FileTree) (base : List String) (root : String) : Except RootError String :=
  match files.canonical base root with
  | .ok path => .ok path
  | .error e => .error (.inaccessible root e)

/-- The root of the repository that the program lies in. -/
def rootAbove (files : FileTree) (program : List String) : Except RootError String :=
  match (enclosing program.length program).find? fun d => (files.get? (d ++ [".git"])).isSome with
  | some d => .ok (absolutePath d)
  | none => .error (.noRepository (absolutePath program))

end FileTree

end QualityGate
