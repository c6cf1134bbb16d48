import QualityGate.Shell.Lexer

/-! # Arithmetic of the shell

Whole numbers of 64 bits that wrap around. A text is read into an expression by the binding strength
of its operators; a variable in it stands for the number that its value spells, and nothing for
zero. -/

namespace QualityGate.Shell

namespace Arithmetic

/-- The integer that the lowest 64 bits of an integer are. -/
def wrap (n : Int) : Int := Int.bmod n (Nat.pow 2 64)

def greatest : Int := Int.pow 2 63 - 1

inductive Term where
  | number (n : Int)
  | variable (name : List Char)
  | unary (operator : String) (a : Term)
  | binary (operator : String) (a b : Term)
  | choice (c a b : Term)
  | assign (name : List Char) (operator : Option String) (a : Term)
  deriving Repr, Inhabited

/-- Why there is no result. -/
inductive Fault where
  | expecting (what : String)
  | divisionByZero
  | illegalNumber (text : List Char)
  deriving DecidableEq, Repr

/-! ### Numbers -/

def digit? (base : Nat) (c : Char) : Option Nat :=
  let n :=
    if c.isDigit then c.toNat - '0'.toNat
    else if 'a' ≤ c ∧ c ≤ 'z' then c.toNat - 'a'.toNat + 10
    else if 'A' ≤ c ∧ c ≤ 'Z' then c.toNat - 'A'.toNat + 10
    else base
  if n < base then some n else none

def readDigits (base : Nat) : (value : Nat) → List Char → Nat × List Char
  | value, [] => (value, [])
  | value, c :: s =>
    match digit? base c with
    | some d => readDigits base (value * base + d) s
    | none => (value, c :: s)

/-- Reads a number without a sign: hexadecimal behind `0x`, octal behind `0`, else decimal. -/
def readNumber (s : List Char) : Nat × List Char :=
  match s with
  | '0' :: x :: d :: rest =>
    if (x = 'x' ∨ x = 'X') ∧ (digit? 16 d).isSome then readDigits 16 0 (d :: rest)
    else readDigits 8 0 (x :: d :: rest)
  | '0' :: rest => readDigits 8 0 rest
  | s => readDigits 10 0 s

def isSpace (c : Char) : Bool := c = ' ' || c = '\t' || c = '\n'

/-- The number that a text spells, with blanks around it and a sign. The empty text is zero. -/
def number? (s : List Char) : Option Int :=
  let s := s.dropWhile isSpace
  if s = [] then some 0
  else
    let (negative, t) := match s with
      | '-' :: t => (true, t)
      | '+' :: t => (false, t)
      | t => (false, t)
    let (n, rest) := readNumber t
    if t.head?.any Char.isDigit ∧ rest.all isSpace ∧ (n : Int) ≤ greatest + (if negative then 1 else 0)
    then some (if negative then - (n : Int) else n)
    else none

/-! ### Reading expressions -/

/-- The binary operators by how strongly they bind, the weakest first. -/
def levels : List (List String) :=
  [["||"], ["&&"], ["|"], ["^"], ["&"], ["==", "!="], ["<=", ">=", "<", ">"], ["<<", ">>"],
   ["+", "-"], ["*", "/", "%"]]

/-- All operators that assign, without the equals sign. -/
def assigning : List String := ["<<", ">>", "+", "-", "*", "/", "%", "&", "|", "^"]

def skipSpace (s : List Char) : List Char := s.dropWhile isSpace

def operator? (s : List Char) : Option (String × List Char) :=
  let longest := ["<<=", ">>=", "||", "&&", "==", "!=", "<=", ">=", "<<", ">>", "+=", "-=", "*=", "/=",
    "%=", "&=", "|=", "^=", "|", "^", "&", "<", ">", "+", "-", "*", "/", "%", "=", "?", ":", "(", ")",
    "!", "~"]
  (longest.find? fun o => o.toList.isPrefixOf s).map fun o => (o, s.drop o.length)

/-- The operator of an assignment ahead: `some none` for the plain one. -/
def assignment? (s : List Char) : Option (Option String × List Char) :=
  match operator? (skipSpace s) with
  | some ("=", rest) => some (none, rest)
  | some (o, rest) =>
    (assigning.find? fun a => a ++ "=" = o).map fun a => (some a, rest)
  | none => none

mutual

/-- Reads an assignment or what binds stronger. -/
def readTerm : (fuel : Nat) → List Char → Except Fault (Term × List Char)
  | 0, _ => .error (.expecting "primary")
  | fuel + 1, s =>
    let s := skipSpace s
    let name := match s with
      | c :: _ => if isNameStart c then s.takeWhile isNameChar else []
      | [] => []
    match name, assignment? (s.drop name.length) with
    | c :: cs, some (o, rest) => do
      let (t, rest) ← readTerm fuel rest
      .ok (.assign (c :: cs) o t, rest)
    | _, _ => do
      let (c, rest) ← readLevel fuel levels s
      match operator? (skipSpace rest) with
      | some ("?", rest) =>
        let (a, rest) ← readTerm fuel rest
        match operator? (skipSpace rest) with
        | some (":", rest) =>
          let (b, rest) ← readTerm fuel rest
          .ok (.choice c a b, rest)
        | _ => .error (.expecting "':'")
      | _ => .ok (c, rest)

/-- Reads operands joined by the operators of one level. -/
def readLevel : (fuel : Nat) → List (List String) → List Char → Except Fault (Term × List Char)
  | 0, _, _ => .error (.expecting "primary")
  | fuel + 1, [], s => readUnary fuel s
  | fuel + 1, os :: ls, s => do
    let (a, rest) ← readLevel fuel ls s
    readMore fuel os ls a rest

def readMore : (fuel : Nat) → List String → List (List String) → Term → List Char →
    Except Fault (Term × List Char)
  | 0, _, _, _, _ => .error (.expecting "primary")
  | fuel + 1, os, ls, a, s =>
    match operator? (skipSpace s) with
    | some (o, rest) =>
      if o ∈ os then do
        let (b, rest) ← readLevel fuel ls rest
        readMore fuel os ls (.binary o a b) rest
      else .ok (a, s)
    | none => .ok (a, s)

def readUnary : (fuel : Nat) → List Char → Except Fault (Term × List Char)
  | 0, _ => .error (.expecting "primary")
  | fuel + 1, s =>
    let s := skipSpace s
    match operator? s with
    | some ("(", rest) => do
      let (t, rest) ← readTerm fuel rest
      match operator? (skipSpace rest) with
      | some (")", rest) => .ok (t, rest)
      | _ => .error (.expecting "')'")
    | some (o, rest) =>
      if o ∈ ["!", "~", "-", "+"] then do
        let (t, rest) ← readUnary fuel rest
        .ok (.unary o t, rest)
      else .error (.expecting "primary")
    | none =>
      match s with
      | c :: _ =>
        if c.isDigit then
          let (n, rest) := readNumber s
          .ok (.number (min n greatest), rest)
        else if isNameStart c then
          .ok (.variable (s.takeWhile isNameChar), s.dropWhile isNameChar)
        else .error (.expecting "primary")
      | [] => .error (.expecting "primary")

end

def parse (s : List Char) : Except Fault Term :=
  match readTerm (32 * s.length + 32) s with
  | .ok (t, rest) => if rest.all isSpace then .ok t else .error (.expecting "EOF")
  | .error e => .error e

/-! ### Evaluation -/

def truth (p : Bool) : Int := if p then 1 else 0

/-- An integer as the number that its 64 bits are. -/
def bits (n : Int) : Nat := (n % Int.pow 2 64).toNat

def apply (o : String) (a b : Int) : Except Fault Int :=
  match o with
  | "+" => .ok (wrap (a + b))
  | "-" => .ok (wrap (a - b))
  | "*" => .ok (wrap (a * b))
  | "/" => if b = 0 then .error .divisionByZero else .ok (wrap (a.tdiv b))
  | "%" => if b = 0 then .error .divisionByZero else .ok (a.tmod b)
  | "<<" => .ok (wrap (a * Int.pow 2 (b % 64).toNat))
  | ">>" => .ok (a / Int.pow 2 (b % 64).toNat)
  | "<" => .ok (truth (a < b))
  | ">" => .ok (truth (a > b))
  | "<=" => .ok (truth (a ≤ b))
  | ">=" => .ok (truth (a ≥ b))
  | "==" => .ok (truth (a = b))
  | "!=" => .ok (truth (a ≠ b))
  | "&" => .ok (wrap (bits a &&& bits b : Nat))
  | "|" => .ok (wrap (bits a ||| bits b : Nat))
  | _ => .ok (wrap (bits a ^^^ bits b : Nat))

abbrev Variables := List (List Char × List Char)

def Variables.number (vs : Variables) (name : List Char) : Except Fault Int :=
  let text := (vs.lookup name).getD []
  match number? text with
  | some n => .ok n
  | none => .error (.illegalNumber text)

def Variables.set (vs : Variables) (name : List Char) (n : Int) : Variables :=
  (name, (toString n).toList) :: vs

def Term.eval (vs : Variables) : Term → Except Fault (Int × Variables)
  | .number n => .ok (n, vs)
  | .variable name => (vs.number name).map (·, vs)
  | .unary o a => do
    let (n, vs) ← a.eval vs
    match o with
    | "!" => .ok (truth (n = 0), vs)
    | "~" => .ok (-n - 1, vs)
    | "-" => .ok (wrap (-n), vs)
    | _ => .ok (n, vs)
  | .binary o a b => do
    let (m, vs) ← a.eval vs
    if o = "||" ∧ m ≠ 0 then .ok (1, vs)
    else if o = "&&" ∧ m = 0 then .ok (0, vs)
    else
      let (n, vs) ← b.eval vs
      if o = "||" ∨ o = "&&" then .ok (truth (n ≠ 0), vs)
      else .ok (← apply o m n, vs)
  | .choice c a b => do
    let (n, vs) ← c.eval vs
    if n = 0 then b.eval vs else a.eval vs
  | .assign name o a => do
    let (n, vs) ← a.eval vs
    match o with
    | none => .ok (n, vs.set name n)
    | some o =>
      let r ← apply o (← vs.number name) n
      .ok (r, vs.set name r)

def Fault.message (text : List Char) : Fault → String
  | expecting what => s!"arithmetic expression: expecting {what}: \"{String.ofList text}\""
  | divisionByZero => s!"arithmetic expression: division by zero: \"{String.ofList text}\""
  | illegalNumber n => s!"Illegal number: {String.ofList n}"

end Arithmetic

end QualityGate.Shell
