import QualityGate.Text.Line

/-! # Paths

A path is a text cut at slashes. Empty parts and `.` name nothing and are left out, so repeated and
trailing slashes do not matter. The file name is the last part that is left, unless that is `..`. -/

namespace QualityGate.Path

/-- The parts of a path that name something. -/
def components (s : List Char) : List (List Char) :=
  (Text.segments '/' s).filter fun p => p ≠ [] ∧ p ≠ ['.']

def isAbsolute (s : String) : Bool :=
  s.toList.head? = some '/'

/-- Whether a path can only name a directory: it ends with a slash or with `.` or `..`. -/
def namesDirectory (s : String) : Bool :=
  match (Text.segments '/' s.toList).getLast? with
  | some p => p = [] ∨ p = ['.'] ∨ p = ['.', '.']
  | none => true

/-- The last component, unless it is `..`. -/
def fileName? (s : String) : Option String :=
  match (components s.toList).getLast? with
  | some p => if p = ['.', '.'] then none else some (String.ofList p)
  | none => none

/-- The name to show for a path: its file name, or the whole path when it has none. -/
def displayName (s : String) : String :=
  (fileName? s).getD s

/-- What follows the last dot of a name. A dot in front of the whole name starts no extension. -/
def extensionOfName? (name : List Char) : Option (List Char) :=
  let back := name.reverse
  match back.dropWhile (· ≠ '.') with
  | [] => none
  | [_] => none
  | _ => some (back.takeWhile (· ≠ '.')).reverse

def extension? (s : String) : Option String :=
  (fileName? s).bind fun n => (extensionOfName? n.toList).map String.ofList

/-- The path of `s` seen from the directory `base`. An absolute path stays as it is. -/
def join (base s : String) : String :=
  if isAbsolute s ∨ base = "" then s
  else if base.toList.getLast? = some '/' then base ++ s
  else base ++ "/" ++ s

end QualityGate.Path
