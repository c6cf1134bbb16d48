import QualityGate.Shell.Arithmetic
import QualityGate.Shell.Pattern
import QualityGate.Shell.Variable

/-! # Fields

A word becomes fields. What stands outside quotes and came from an expansion is cut at the bytes of
`IFS`; a field with a pattern in it becomes the file names that the pattern stands for, if there are
any. The text of a command substitution is run by a function that is handed in. -/

namespace QualityGate.Shell

/-- What an expanded word is made of. -/
inductive Piece where
  /-- A byte. One that came from an expansion outside quotes may separate fields. -/
  | byte (b : UInt8) (isQuoted mayCut : Bool)
  /-- Nothing, but the field is there. -/
  | present
  /-- The end of one parameter and the start of the next. -/
  | cut
  deriving DecidableEq, Repr

namespace Fields

/-! ### Fields -/

/-- The fields made so far, the last one first; the field that is begun, backwards, if there is one;
and whether a blank ended the last field, so that a separator after it ends nothing. -/
structure Cutter where
  fields : List (List Mark)
  current : Option (List Mark)
  afterBlank : Bool

def Cutter.close (x : Cutter) (afterBlank : Bool) : Cutter :=
  match x.current with
  | some m => ⟨m.reverse :: x.fields, none, afterBlank⟩
  | none => { x with afterBlank := x.afterBlank && afterBlank }

def Cutter.step (ifs : Bytes) (x : Cutter) : Piece → Cutter
  | .present => { x with current := some (x.current.getD []), afterBlank := false }
  | .cut => x.close false
  | .byte b isQuoted mayCut =>
    if mayCut ∧ b ∈ ifs then
      if b = 32 ∨ b = 9 ∨ b = 10 then
        if x.current.isSome then x.close true else x
      else if x.current.isSome then x.close false
      else if x.afterBlank then { x with afterBlank := false }
      else { x with fields := [] :: x.fields }
    else
      { x with current := some (⟨b, isQuoted⟩ :: x.current.getD []), afterBlank := false }

def cut (ifs : Bytes) (ps : List Piece) : List (List Mark) :=
  ((ps.foldl (Cutter.step ifs) ⟨[], none, false⟩).close false).fields.reverse

/-- The bytes and their quotes, when nothing is cut. -/
def marks (ps : List Piece) : List Mark :=
  ps.filterMap fun
    | .byte b isQuoted _ => some ⟨b, isQuoted⟩
    | .cut => some ⟨32, false⟩
    | .present => none

def bytesOf (m : List Mark) : Bytes := m.map Mark.byte

/-! ### File names -/

/-- A pattern cut at its slashes. -/
def pathParts : List Mark → List (List Mark)
  | [] => [[]]
  | m :: s =>
    if m.byte = 47 then [] :: pathParts s
    else
      match pathParts s with
      | [] => [[m]]
      | p :: ps => (m :: p) :: ps

def sortBytes (xs : List Bytes) : List Bytes := xs.mergeSort fun a b => ! decide (b < a)

/-- The names in a directory that a pattern stands for. A dot in front must be written out. -/
def namesIn (p : List Mark) (t : FileTree) : List Bytes :=
  match t with
  | .file _ => []
  | .directory entries =>
    let names : List Bytes := [46] :: [46, 46] :: entries.map fun e => Bytes.ofString e.1
    let dotted := p.head?.any fun m => m.byte = 46
    names.filter fun n =>
      (dotted || n.head? != some 46) && Pattern.accepts (Pattern.parts p) n

def pathsFrom (top : FileTree) (base : List String) : (start : Bytes) → List (List Mark) → List Bytes
  | start, [] => if top.existsAt base start.toStringLossy then [start] else []
  | start, p :: ps =>
    let slash : Bytes := if ps = [] then [] else [47]
    if Pattern.isSpecial p then
      let place := if start = [] then "." else start.toStringLossy
      match top.find base place with
      | .ok t => (namesIn p t).flatMap fun n => pathsFrom top base (start ++ n ++ slash) ps
      | .error _ => []
    else
      pathsFrom top base (start ++ bytesOf p ++ slash) ps

/-- The file names that a field stands for, or its own bytes. -/
def fileNames (top : FileTree) (base : List String) (m : List Mark) : List Bytes :=
  if Pattern.isSpecial m then
    match pathsFrom top base [] (pathParts m) with
    | [] => [bytesOf m]
    | ps => sortBytes ps
  else [bytesOf m]

/-! ### Parameters -/

def piecesOf (isQuoted : Bool) (s : Bytes) : List Piece :=
  (if isQuoted then [.present] else []) ++ s.map fun b => .byte b isQuoted (! isQuoted)

/-- The pieces of the parameters, each one a field of its own. -/
def parameterPieces (isQuoted : Bool) : List Bytes → List Piece
  | [] => []
  | [s] => piecesOf isQuoted s
  | s :: ss => piecesOf isQuoted s ++ .cut :: parameterPieces isQuoted ss

/-- The name at the start of what stands in braces, and what follows it. -/
def splitName (s : List Char) : List Char × List Char :=
  match s with
  | c :: rest =>
    if isNameStart c then (s.takeWhile isNameChar, s.dropWhile isNameChar)
    else if c.isDigit then (s.takeWhile Char.isDigit, s.dropWhile Char.isDigit)
    else if isSpecialName c then ([c], rest)
    else ([], s)
  | [] => ([], [])

def withoutLastLines (s : Bytes) : Bytes := (s.reverse.dropWhile (· = 10)).reverse

section

variable (runText : List Char → Act Bytes)

/-- The pieces of the value of a parameter. One that is not set is an error if that is asked for. -/
def parameter (isQuoted : Bool) (name : List Char) : Act (List Piece) := do
  match name, isQuoted with
  | ['@'], _ | ['*'], false => return parameterPieces isQuoted (← Act.own).parameters
  | name, _ =>
    match ← Act.value? name with
    | some v => return piecesOf isQuoted v
    | none =>
      if (← Act.own).options.nounset ∧ name ≠ ['*'] then
        Act.fail s!"{String.ofList name}: parameter not set"
      else return piecesOf isQuoted []

def arithmetic (text : Bytes) : Act Bytes := do
  let s := text.toStringLossy.toList
  let bindings : Arithmetic.Variables := (← Act.own).bindings.filterMap fun v =>
    v.2.value.map fun x => (v.1, x.toStringLossy.toList)
  let result := do
    let t ← Arithmetic.parse s
    t.eval bindings
  match result with
  | .error e => Act.fail (e.message s)
  | .ok (n, after) =>
    let assigned := after.take (after.length - bindings.length)
    for (name, value) in assigned.reverse do
      Act.setVariable name (Bytes.ofString (String.ofList value))
    return Bytes.ofString (toString n)

mutual

/-- The pieces of a word. In a part of a word that is not quoted, what is not quoted may be cut. -/
def pieces : (fuel : Nat) → (isPart isQuoted : Bool) → Word → Act (List Piece)
  | 0, _, _, _ => throw .timedOut
  | _, _, _, [] => return []
  | fuel + 1, isPart, isQuoted, g :: w => do
    let ps ←
      match g with
      | .bare c => pure ((Text.Utf8.encodeChar c).map fun b => .byte b isQuoted (isPart && ! isQuoted))
      | .quoted c => pure ((Text.Utf8.encodeChar c).map fun b => .byte b true false)
      | .expansion q e => expansion fuel (q || isQuoted) e
    return ps ++ (← pieces fuel isPart isQuoted w)

def expansion : (fuel : Nat) → (isQuoted : Bool) → Expansion → Act (List Piece)
  | 0, _, _ => throw .timedOut
  | fuel + 1, isQuoted, e => do
    match e with
    | .variable name => parameter isQuoted name
    | .command text => return piecesOf isQuoted (withoutLastLines (← runText text))
    | .arithmetic text =>
      let ps ← pieces fuel false true (documentGlyphs text)
      return piecesOf isQuoted (← arithmetic (bytesOf (marks ps)))
    | .braces text => braces fuel isQuoted text

def braces : (fuel : Nat) → (isQuoted : Bool) → List Char → Act (List Piece)
  | 0, _, _ => throw .timedOut
  | fuel + 1, isQuoted, text => do
    match text with
    | '#' :: c :: rest =>
      let (name, behind) := splitName (c :: rest)
      if name ≠ [] ∧ behind = [] then
        let v ← Act.value? name
        if v.isNone ∧ (← Act.own).options.nounset then
          Act.fail s!"{String.ofList name}: parameter not set"
        else return piecesOf isQuoted (Act.decimal (v.getD []).length)
      else modified fuel isQuoted ['#'] (c :: rest)
    | text =>
      let (name, behind) := splitName text
      if name = [] then Act.fail "Bad substitution"
      else if behind = [] then parameter isQuoted name
      else modified fuel isQuoted name behind

def modified : (fuel : Nat) → (isQuoted : Bool) → (name operation : List Char) → Act (List Piece)
  | 0, _, _, _ => throw .timedOut
  | fuel + 1, isQuoted, name, operation => do
    let (colon, operation) := match operation with
      | ':' :: o => (true, o)
      | o => (false, o)
    let v ← Act.value? name
    let isThere := v.any fun s => ! (colon && s.isEmpty)
    let part (w : List Char) : Act (List Piece) := do
      let ps ← pieces fuel true isQuoted (partGlyphs isQuoted w)
      return (if isQuoted then [.present] else []) ++ ps
    let pattern (w : List Char) : Act (List Mark) :=
      return marks (← pieces fuel false false (partGlyphs false w))
    match operation, colon with
    | '-' :: w, _ => if isThere then parameter isQuoted name else part w
    | '+' :: w, _ => if isThere then part w else return piecesOf isQuoted []
    | '=' :: w, _ =>
      if isThere then parameter isQuoted name
      else if name.all isNameChar ∧ name.head?.any isNameStart then
        let s := bytesOf (marks (← part w))
        Act.setVariable name s
        return piecesOf isQuoted s
      else Act.fail s!"{String.ofList name}: bad variable name"
    | '?' :: w, _ =>
      if isThere then parameter isQuoted name
      else
        let s := bytesOf (marks (← part w))
        let message :=
          if w ≠ [] then s.toStringLossy
          else if colon then "parameter not set or null" else "parameter not set"
        Act.fail s!"{String.ofList name}: {message}"
    | '%' :: '%' :: w, false =>
      return piecesOf isQuoted (Pattern.withoutEnd true (← pattern w) (v.getD []))
    | '%' :: w, false =>
      return piecesOf isQuoted (Pattern.withoutEnd false (← pattern w) (v.getD []))
    | '#' :: '#' :: w, false =>
      return piecesOf isQuoted (Pattern.withoutStart true (← pattern w) (v.getD []))
    | '#' :: w, false =>
      return piecesOf isQuoted (Pattern.withoutStart false (← pattern w) (v.getD []))
    | _, _ => Act.fail "Bad substitution"

end

def depthLimit : Nat := 100000

/-- A word with the directory of the user in place of a tilde at its start. -/
def withoutTilde (w : Word) : Act Word := do
  match w with
  | .bare '~' :: rest =>
    if rest = [] ∨ rest.head? = some (.bare '/') then
      match ← Act.value? "HOME".toList with
      | some home => return home.toStringLossy.toList.map Glyph.quoted ++ rest
      | none => return w
    else return w
  | w => return w

def ofWord (w : Word) : Act (List Bytes) := do
  let ps ← if w = [] then pure [.present] else pieces runText depthLimit false false (← withoutTilde w)
  let fs := cut (← Act.cuts) ps
  let s ← get
  if s.own.options.noglob then return fs.map bytesOf
  else return fs.flatMap (fileNames s.shared.files s.own.directory)

def ofWords : List Word → Act (List Bytes)
  | [] => return []
  | w :: ws => do
    let fs ← ofWord runText w
    return fs ++ (← ofWords ws)

def patternOfWord (w : Word) : Act (List Mark) := do
  return marks (← pieces runText depthLimit false false (← withoutTilde w))

def valueOfWord (w : Word) : Act Bytes := do
  return bytesOf (← patternOfWord runText w)

def documentText (body : HereBody) : Act Bytes := do
  if body.isLiteral then return Text.Utf8.encode body.text
  else return bytesOf (marks (← pieces runText depthLimit false true (documentGlyphs body.text)))

end

end Fields

end QualityGate.Shell
