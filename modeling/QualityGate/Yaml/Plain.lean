import QualityGate.Decimal.Binary64
import QualityGate.Yaml.Token

/-! # What scalars mean

A plain scalar may mean nothing, a truth value, a number, or its own text; a scalar in any other style
is text. A tag of the core schema asks for one of these, and is refused where the text does not fit. -/

namespace QualityGate.Yaml

inductive Plain where
  | null
  | bool (b : Bool)
  | int (n : Int)
  | float (x : Binary64)
  | text (s : List Char)
  deriving DecidableEq, Repr

namespace Plain

/-! ### Words -/

def isOneOf (words : List String) (s : List Char) : Bool :=
  words.any (·.toList = s)

def isNull (s : List Char) : Bool := isOneOf ["null", "Null", "NULL", "~"] s

def bool? (s : List Char) : Option Bool :=
  if isOneOf ["true", "True", "TRUE"] s then some true
  else if isOneOf ["false", "False", "FALSE"] s then some false
  else none

/-! ### Whole numbers -/

def digit? (base : Nat) (c : Char) : Option Nat :=
  (hexDigit? c).filter (· < base)

/-- The number that digits write; there is at least one. -/
def digits? (base : Nat) : List Char → Option Nat
  | [] => none
  | ds => ds.foldl (fun n d => do some ((← n) * base + (← digit? base d))) (some 0)

/-- A text without the word at its start, if the word is there. -/
def behind? (word : String) (s : List Char) : Option (List Char) :=
  if word.toList.isPrefixOf s then some (s.drop word.length) else none

/-- A text without one sign at its start. -/
def unsigned (signs : List Char) : List Char → List Char
  | c :: s => if c ∈ signs then s else c :: s
  | [] => []

/-- Digits that start with a zero and are more than that, perhaps behind a sign: such a text is no
decimal number. -/
def isPadded (s : List Char) : Bool :=
  match unsigned ['-', '+'] s with
  | '0' :: d :: ds => (d :: ds).all Char.isDigit
  | _ => false

/-- The number that is written behind the mark of a base. -/
def marked? (s : List Char) : Option Nat :=
  ((behind? "0x" s).bind (digits? 16)) <|>
  ((behind? "0o" s).bind (digits? 8)) <|>
  ((behind? "0b" s).bind (digits? 2))

/-- The whole number that is not below zero and is written by a text, perhaps with a plus. -/
def natural? (s : List Char) : Option Nat :=
  let s' := unsigned ['+'] s
  (marked? s') <|> (if isPadded s then none else digits? 10 s')

def integer? (s : List Char) : Option Int :=
  match natural? s with
  | some n => some n
  | none =>
    match s with
    | '-' :: r =>
      ((marked? r) <|> (if isPadded s then none else digits? 10 r)).map fun n => -(n : Int)
    | _ => none

/-- The range of the whole numbers that are read as such at all. -/
def isWhole (n : Int) : Bool := -Int.pow 2 127 ≤ n && n < Int.pow 2 128

/-! ### Other numbers -/

/-- The exponent behind a number: none, or its sign and digits. -/
def exponent? : List Char → Option Int
  | [] => some 0
  | e :: s =>
    if e = 'e' ∨ e = 'E' then
      match s with
      | '-' :: s => (digits? 10 s).map fun n => -(n : Int)
      | s => (digits? 10 (unsigned ['+'] s)).map Int.ofNat
    else none

/-- The magnitude nearest to a decimal number with a point or an exponent or neither. -/
def magnitude? (s : List Char) : Option Nat :=
  let whole := s.takeWhile Char.isDigit
  let rest := s.dropWhile Char.isDigit
  let (fraction, rest) :=
    match rest with
    | '.' :: r => (r.takeWhile Char.isDigit, r.dropWhile Char.isDigit)
    | r => ([], r)
  match digits? 10 (whole ++ fraction), exponent? rest with
  | some n, some e => some (Binary64.ofDecimal n (e - fraction.length))
  | _, _ => none

/-- The number that is written by a text. A decimal number out of range is none. -/
def float? (s : List Char) : Option Binary64 :=
  let signs := s.takeWhile fun c => c = '+' ∨ c = '-'
  let body := s.drop signs.length
  if isOneOf [".inf", ".Inf", ".INF"] body then
    match signs with
    | [] | ['+'] => some ⟨false, Binary64.infinity⟩
    | ['-'] => some ⟨true, Binary64.infinity⟩
    | _ => none
  else if isOneOf [".nan", ".NaN", ".NAN"] s then some ⟨false, Binary64.notNumber⟩
  else
    match signs with
    | [] | ['+'] => ((magnitude? body).filter (· < Binary64.infinity)).map (⟨false, ·⟩)
    | ['-'] => ((magnitude? body).filter (· < Binary64.infinity)).map (⟨true, ·⟩)
    | _ => none

def ofText (s : List Char) : Plain :=
  if s = [] ∨ isNull s then null
  else
    match bool? s, (integer? s).filter isWhole with
    | some b, _ => bool b
    | none, some n => int n
    | none, none =>
      if isPadded s then text s
      else
        match float? s with
        | some x => float x
        | none => text s

end Plain

/-! ### Tags -/

/-- The tags of the core schema that ask for a meaning. -/
inductive CoreTag where
  | bool
  | int
  | float
  | null
  deriving DecidableEq, Repr

namespace CoreTag

def ofName? (tag : List Char) : Option CoreTag :=
  match String.ofList tag with
  | "tag:yaml.org,2002:bool" => some .bool
  | "tag:yaml.org,2002:int" => some .int
  | "tag:yaml.org,2002:float" => some .float
  | "tag:yaml.org,2002:null" => some .null
  | _ => none

def describe : CoreTag → String
  | bool => "a boolean"
  | int => "an integer"
  | float => "a float"
  | null => "null"

def read? (s : List Char) : CoreTag → Option Plain
  | bool => (Plain.bool? s).map .bool
  | int => ((Plain.integer? s).filter Plain.isWhole).map .int
  | float => (Plain.float? s).map .float
  | null => if Plain.isNull s then some .null else none

end CoreTag

/-- The meaning of a scalar, unless its tag asks for another. A tag with the sign of tags says nothing
about a plain text. -/
def scalarMeaning (tag : Option (List Char)) (style : ScalarStyle) (s : List Char) :
    Except CoreTag Plain :=
  let untagged := if style = .plain then Plain.ofText s else .text s
  match tag with
  | none => .ok untagged
  | some t =>
    match CoreTag.ofName? t with
    | some core =>
      match core.read? s with
      | some p => .ok p
      | none => .error core
    | none => .ok (if t.head? = some '!' then untagged else .text s)

end QualityGate.Yaml
