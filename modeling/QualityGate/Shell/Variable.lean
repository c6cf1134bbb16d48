import QualityGate.Shell.State

/-! # Variables and parameters

A variable has a name of its own; the parameters and what the shell tells of itself have names of one
character or of digits. What goes wrong with a name ends the shell. -/

namespace QualityGate.Shell.Act

/-- Complains in the name of the shell, with the line and the command of the shell that is run. -/
def warn (message : String) : Act Unit := do
  let o ← own
  let caller := if o.caller = "" then "" else s!"{o.caller}: "
  complain s!"{o.name.toStringLossy}: {o.line}: {caller}{message}\n"

def fail {α : Type} (message : String) : Act α := do
  warn message
  exit 2

def decimal (n : Nat) : Bytes := Bytes.ofString (toString n)

def separator : Act Bytes := do
  match (← own).bindings.lookup "IFS".toList with
  | some { value := some ifs, .. } => return ifs.take 1
  | _ => return [32]

def cuts : Act Bytes := do
  match (← own).bindings.lookup "IFS".toList with
  | some { value := some ifs, .. } => return ifs
  | _ => return [32, 9, 10]

def optionLetters (o : Options) : String :=
  (if o.errexit then "e" else "") ++ (if o.noglob then "f" else "") ++
    (if o.nounset then "u" else "") ++ (if o.xtrace then "x" else "")

def processNumber : Nat := 4242

def digitsValue (s : List Char) : Nat := s.foldl (fun n c => 10 * n + (c.toNat - '0'.toNat)) 0

def value? (name : List Char) : Act (Option Bytes) := do
  let o ← own
  let between ← separator
  match name with
  | ['#'] => return some (decimal o.parameters.length)
  | ['?'] => return some (decimal o.status)
  | ['$'] => return some (decimal processNumber)
  | ['!'] =>
    return (← shared).background.map fun _ => decimal (processNumber + 1)
  | ['-'] => return some (Bytes.ofString (optionLetters o.options))
  | ['@'] | ['*'] =>
    return if o.parameters = [] then none
      else some (between.intercalate o.parameters)
  | ['0'] => return some o.name
  | name =>
    if name.all Char.isDigit then
      return o.parameters[digitsValue name - 1]?
    else
      return (o.bindings.lookup name).bind Variable.value

def putVariable (name : List Char) (v : Option Variable) : Act Unit :=
  modifyOwn fun o =>
    let others := o.bindings.filter fun x => x.1 ≠ name
    { o with bindings := (v.map (name, ·)).toList ++ others }

/-- The variable of a name; one that is not there has no value and no marks. -/
def variableOf (name : List Char) : Act Variable := do
  return ((← own).bindings.lookup name).getD ⟨none, false, false⟩

def setVariable (name : List Char) (value : Bytes) : Act Unit := do
  let v ← variableOf name
  if v.isReadonly then fail s!"{String.ofList name}: is read only"
  else putVariable name (some { v with value := some value })

def unsetVariable (name : List Char) : Act Unit := do
  if (← variableOf name).isReadonly then fail s!"{String.ofList name}: is read only"
  else putVariable name none

end QualityGate.Shell.Act
