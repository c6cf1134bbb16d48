import QualityGate.Shell.Condition
import QualityGate.Shell.Format
import QualityGate.Shell.Pattern
import QualityGate.Shell.Tool

/-! # Commands of the shell itself

The commands that the shell carries out by itself and that run no other command. An error in one that
is special ends the shell, so it fails; in another it is only told. -/

namespace QualityGate.Shell.Builtin

/-- Tells an error, whose status is two. -/
def trouble (message : String) : Act Nat := do
  Act.warn message
  return 2

/-- Whether a text is a variable's name. -/
def isName (s : List Char) : Bool := s.head?.any isNameStart && s.all isNameChar

/-- An argument cut at its first equals sign. -/
def splitAssignment (s : Bytes) : List Char × Option Bytes :=
  let name : Bytes := s.takeWhile (· ≠ 61)
  (name.toStringLossy.toList, if name.length < s.length then some (s.drop (name.length + 1)) else none)

/-- The number that an argument spells; anything else ends the shell. -/
def count (s : Bytes) : Act Nat := do
  match s.toStringLossy.toNat? with
  | some n => return n
  | none => Act.fail s!"Illegal number: {s.toStringLossy}"

/-! ### Printing -/

/-- Prints its arguments with blanks between them, their escapes replaced. -/
def echo : Tool := fun arguments => do
  let (newline, arguments) := match arguments with
    | [45, 110] :: rest => (false, rest)
    | rest => (true, rest)
  let (text, ended) := Format.unescape (arguments.flatten.length + arguments.length + 1)
    ([32].intercalate arguments)
  discard (Act.write 1 (text ++ if newline && ! ended then [10] else []))
  return 0

def printf : Tool := fun arguments => do
  let arguments := if arguments.head? = some [45, 45] then arguments.drop 1 else arguments
  match arguments with
  | [] => trouble "usage: printf format [arg ...]"
  | format :: rest =>
    let p := Format.print format rest
    for c in p.complaints do Act.warn c
    discard (Act.write 1 p.output)
    match p.fault with
    | some f => trouble f
    | none => return if p.complaints = [] then 0 else 1

/-! ### Places -/

def cd : Tool := fun arguments => do
  let arguments := arguments.filter fun a => a ≠ [45, 76] ∧ a ≠ [45, 80] ∧ a ≠ [45, 45]
  let old ← Act.value? "OLDPWD".toList
  let home ← Act.value? "HOME".toList
  let (target, shows) := match arguments with
    | [] => (home.getD [], false)
    | [45] :: _ => (old.getD [], true)
    | a :: _ => (a, false)
  let s ← get
  let path := if target = [] then "." else target.toStringLossy
  match s.shared.files.locate s.own.directory path with
  | .ok ⟨names, some (.directory _)⟩ =>
    let here := FileTree.absolutePath names
    Act.setVariable "OLDPWD".toList (Bytes.ofString (FileTree.absolutePath s.own.directory))
    Act.setVariable "PWD".toList (Bytes.ofString here)
    Act.modifyOwn ({ · with directory := names })
    if shows then Act.print (here ++ "\n")
    return 0
  | _ => trouble s!"can't cd to {target.toStringLossy}"

def pwd : Tool := fun _ => do
  Act.print (FileTree.absolutePath (← Act.own).directory ++ "\n")
  return 0

/-! ### Variables -/

/-- Marks variables, giving values to those that come with one. -/
def mark (f : Variable → Variable) (arguments : List Bytes) : Act Nat := do
  for a in arguments.filter fun a => a ≠ [45, 112] ∧ a ≠ [45, 45] do
    let (name, value) := splitAssignment a
    if ! isName name then Act.fail s!"{String.ofList name}: bad variable name"
    if let some v := value then Act.setVariable name v
    Act.putVariable name (some (f (← Act.variableOf name)))
  return 0

def unset : Tool := fun arguments => do
  let (letters, names) := Tool.letters arguments
  for a in names do
    let name := a.toStringLossy.toList
    if ! isName name then Act.fail s!"{String.ofList name}: bad variable name"
    if 'f' ∈ letters then
      Act.modifyOwn fun o => { o with functions := o.functions.filter fun f => f.1 ≠ name }
    else Act.unsetVariable name
  return 0

def makeLocal : Tool := fun arguments => do
  match (← Act.own).locals with
  | [] => Act.fail "not in a function"
  | _ =>
    for a in arguments do
      let (name, value) := splitAssignment a
      if ! isName name then Act.fail s!"{String.ofList name}: bad variable name"
      let before := (← Act.own).bindings.lookup name
      Act.modifyOwn fun o =>
        match o.locals with
        | frame :: rest =>
          if frame.any fun x => x.1 = name then o
          else { o with locals := ((name, before) :: frame) :: rest }
        | [] => o
      if let some v := value then Act.setVariable name v
    return 0

def optionNames : List (String × Char) :=
  [("errexit", 'e'), ("nounset", 'u'), ("xtrace", 'x'), ("noglob", 'f')]

def switch (on : Bool) (letter : Char) (o : Options) : Options :=
  match letter with
  | 'e' => { o with errexit := on }
  | 'u' => { o with nounset := on }
  | 'x' => { o with xtrace := on }
  | 'f' => { o with noglob := on }
  | _ => o

def setOptions : (fuel : Nat) → List Bytes → Act Nat
  | 0, _ | _, [] => return 0
  | fuel + 1, a :: rest => do
    let put (ps : List Bytes) : Act Nat := do
      Act.modifyOwn ({ · with parameters := ps })
      return 0
    let change (on : Bool) (letters : List Char) : Act Unit :=
      Act.modifyOwn fun o =>
        { o with options := letters.foldl (fun x l => switch on l x) o.options }
    match a.toStringLossy.toList with
    | ['-', '-'] => put rest
    | ['-', 'o'] | ['+', 'o'] =>
      match rest with
      | n :: rest =>
        match optionNames.lookup n.toStringLossy with
        | some l =>
          change (a.head? = some 45) [l]
          setOptions fuel rest
        | none => Act.fail s!"Illegal option -o {n.toStringLossy}"
      | [] => return 0
    | '-' :: l :: ls =>
      match (l :: ls).find? fun c => ! "abCefhmnuvxIVE".toList.contains c with
      | some c => Act.fail s!"Illegal option -{c}"
      | none =>
        change true (l :: ls)
        setOptions fuel rest
    | '+' :: l :: ls =>
      change false (l :: ls)
      setOptions fuel rest
    | _ => put (a :: rest)

def shift : Tool := fun arguments => do
  let n ← match arguments with
    | [] => pure 1
    | a :: _ => count a
  if (← Act.own).parameters.length < n then Act.fail "can't shift that many"
  else
    Act.modifyOwn fun o => { o with parameters := o.parameters.drop n }
    return 0

/-! ### Reading -/

/-- The characters of a line; a backslash makes the next one plain and goes away. -/
def readMarks (raw : Bool) : Bytes → List Mark
  | 92 :: b :: s => if raw then ⟨92, false⟩ :: readMarks raw (b :: s) else ⟨b, true⟩ :: readMarks raw s
  | b :: s => if b = 92 ∧ ! raw then [] else ⟨b, false⟩ :: readMarks raw s
  | [] => []

/-- The values for so many variables that a line is cut into. The last one takes all that is left. -/
def values (ifs : Bytes) : (count : Nat) → List Mark → List Bytes
  | 0, _ => []
  | n + 1, m =>
    let isBlank (x : Mark) : Bool := ! x.isQuoted && ifs.contains x.byte &&
      (x.byte = 32 || x.byte = 9 || x.byte = 10)
    let cuts (x : Mark) : Bool := ! x.isQuoted && ifs.contains x.byte
    let m := m.dropWhile isBlank
    if n = 0 then [((m.reverse.dropWhile isBlank).reverse).map Mark.byte]
    else
      let field := m.takeWhile fun x => ! cuts x
      let rest := (m.drop field.length).dropWhile isBlank
      let rest := match rest with
        | x :: t => if cuts x then t else rest
        | [] => []
      field.map Mark.byte :: values ifs n rest

def read (ifs : Bytes) : Tool := fun arguments => do
  let (os, operands) := Tool.options ['p', 't'] (2 * arguments.length + 8) arguments
  let names := operands.map fun a => a.toStringLossy.toList
  match names with
  | [] => trouble "arg count"
  | names =>
    match names.find? fun n => ! isName n with
    | some n => trouble s!"{String.ofList n}: bad variable name"
    | none =>
      if let some prompt := os.lookup 'p' then discard (Act.write 2 prompt)
      let raw := os.any fun o => o.1 = 'r'
      let rec lines (fuel : Nat) (before : Bytes) : Act Bytes := do
        match ← Act.readLine 0 with
        | .error _ => return before
        | .ok line =>
          match fuel with
          | 0 => return before ++ line
          | fuel + 1 =>
            if ! raw ∧ [92, 10].isSuffixOf line then lines fuel (before ++ line.dropLast.dropLast)
            else return before ++ line
      let line := (← lines 1000 []).filter (· ≠ 0)
      for (name, value) in names.zip (values ifs names.length (readMarks raw (Tool.bare line))) do
        Act.setVariable name value
      return if line.getLast? = some 10 then 0 else 1

/-! ### Conditions -/

def test (arguments : List Bytes) : Act Nat := do
  let s ← get
  let answers : Condition.Answers :=
    ⟨fun path => (s.shared.files.find s.own.directory path).toOption, fun _ => false⟩
  match Condition.holds answers (arguments.map Bytes.toStringLossy) with
  | .ok true => return 0
  | .ok false => return 1
  | .error e => trouble e

def bracket : Tool := fun arguments => do
  if arguments.getLast? = some [93] then test arguments.dropLast else trouble "missing ]"

end QualityGate.Shell.Builtin
