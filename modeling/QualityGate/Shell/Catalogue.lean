import QualityGate.Shell.Builtin
import QualityGate.Shell.Tool.Character
import QualityGate.Shell.Tool.Excerpt
import QualityGate.Shell.Tool.File
import QualityGate.Shell.Tool.Grep
import QualityGate.Shell.Tool.Line
import QualityGate.Shell.Tool.Series

/-! # The catalogue of commands

Which names are commands of the shell and which are programs of the system. -/

namespace QualityGate.Shell.Catalogue

/-- The status of a command that always has the same. -/
def constant (status : Nat) : Tool := fun _ => return status

/-- How long a span of time is, in microseconds, as it is written with a unit. -/
def span? (s : Bytes) : Option Nat :=
  let text := s.toStringLossy.toList
  let digits := text.takeWhile fun c => c.isDigit || c = '.'
  let unit : Option Nat := match text.drop digits.length with
    | [] | ['s'] => some 1
    | ['m'] => some 60
    | ['h'] => some 3600
    | ['d'] => some 86400
    | _ => none
  let value : Option Nat := match Text.segments '.' digits with
    | [whole] => (String.ofList whole).toNat?.map (· * 1000000)
    | [whole, part] =>
      let places := part.take 6
      let fraction := ((String.ofList places).toNat?).getD 0 * Nat.pow 10 (6 - places.length)
      if whole = [] ∧ part = [] then none
      else some (((String.ofList whole).toNat?).getD 0 * 1000000 + fraction)
    | _ => none
  match unit, value with
  | some u, some v => some (u * v)
  | _, _ => none

def sleep : Tool := fun arguments => do
  if arguments = [] then Tool.refuse "sleep" "missing operand" 1
  else
    match arguments.find? fun a => (span? a).isNone with
    | some a => Tool.refuse "sleep" s!"invalid time interval '{a.toStringLossy}'" 1
    | none =>
      Act.pass ((arguments.filterMap span?).foldl Nat.add 0)
      return 0

/-- Fails as outside a repository. -/
def git : Tool := fun _ => do
  Act.complain "fatal: not a git repository (or any of the parent directories): .git\n"
  return 128

def which (isProgram : String → Bool) : Tool := fun arguments => do
  let found := arguments.filter fun a => isProgram a.toStringLossy
  for a in found do Act.print s!"/usr/bin/{a.toStringLossy}\n"
  return if found.length = arguments.length then 0 else 1

/-- The commands of the shell that run no others and that are not special. -/
def builtins : List (String × Tool) :=
  [("[", Builtin.bracket), ("cd", Builtin.cd), ("chdir", Builtin.cd), ("echo", Builtin.echo),
   ("false", constant 1), ("hash", constant 0), ("jobs", constant 0),
   ("printf", Builtin.printf), ("pwd", Builtin.pwd), ("test", Builtin.test), ("true", constant 0),
   ("umask", fun _ => do Act.print "0022\n"; return 0),
   ("read", fun arguments => do Builtin.read (← Act.cuts) arguments)]

/-- The special commands of the shell that run no others. An error in one of them ends the shell. -/
def specials : List (String × Tool) :=
  [(":", constant 0), ("export", Builtin.mark ({ · with isExported := true })),
   ("local", Builtin.makeLocal),
   ("readonly", Builtin.mark ({ · with isReadonly := true })),
   ("set", fun arguments => Builtin.setOptions (arguments.length + 1) arguments),
   ("shift", Builtin.shift), ("times", constant 0), ("unset", Builtin.unset)]

/-- The commands of the shell that run others or leave something. -/
def runners : List String :=
  [".", "break", "command", "continue", "eval", "exec", "exit", "kill", "return", "trap", "type", "wait"]

/-- The commands of the shell in which an error ends it. -/
def isSpecial (name : String) : Bool :=
  (specials.map Prod.fst ++ [".", "break", "continue", "eval", "exec", "exit", "return", "trap"]).contains
    name

def isBuiltin (name : String) : Bool :=
  (builtins.map Prod.fst ++ specials.map Prod.fst ++ runners).contains name

def programs : List (String × Tool) :=
  [("[", Builtin.bracket), ("basename", Tool.basename), ("cat", Tool.cat), ("cp", Tool.cp),
   ("cut", Tool.cut), ("dirname", Tool.dirname), ("echo", Builtin.echo), ("false", constant 1),
   ("git", git), ("grep", Tool.grep), ("head", Tool.head), ("ls", Tool.ls), ("mkdir", Tool.mkdir),
   ("mv", Tool.mv), ("printf", Builtin.printf), ("pwd", Builtin.pwd), ("rev", Tool.rev),
   ("rm", Tool.rm), ("rmdir", Tool.rmdir), ("seq", Tool.seq), ("sleep", sleep), ("sort", Tool.sort),
   ("sync", constant 0), ("tac", Tool.tac), ("tail", Tool.tail), ("tee", Tool.tee),
   ("test", Builtin.test), ("touch", Tool.touch), ("tr", Tool.tr), ("true", constant 0),
   ("uniq", Tool.uniq), ("wc", Tool.wc), ("yes", Tool.yes)]

def callers : List String := ["dash", "env", "nohup", "sh", "timeout", "which", "xargs"]

def isProgram (name : String) : Bool := (programs.map Prod.fst ++ callers).contains name

def programPlaces : List String := ["/bin/", "/usr/bin/"]

/-- The program that a path leads to. -/
def programAt? (path : String) : Option String :=
  programPlaces.findSome? fun d =>
    if path.startsWith d ∧ isProgram (path.drop d.length).toString then some (path.drop d.length).toString
    else none

end QualityGate.Shell.Catalogue
