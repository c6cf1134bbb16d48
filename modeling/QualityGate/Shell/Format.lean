import QualityGate.Decimal.Binary64
import QualityGate.Json.Number
import QualityGate.Shell.Arithmetic

/-! # Formatted printing

A format is printed with its escapes replaced and with arguments in place of its directives. It is
used again while it takes arguments and some are left; a directive without an argument gets an empty
one, which counts as zero. -/

namespace QualityGate.Shell.Format

def ascii (c : Char) : UInt8 := UInt8.ofNat c.toNat

def isOctal (b : UInt8) : Bool := 48 ≤ b && b ≤ 55

/-- The byte that the escape of a letter stands for. -/
def escaped? (b : UInt8) : Option UInt8 :=
  [('\\', 92), ('a', 7), ('b', 8), ('e', 27), ('f', 12), ('n', 10), ('r', 13), ('t', 9),
   ('v', 11)].findSome? fun (c, e) => if b = ascii c then some e else none

def octalValue (s : Bytes) : UInt8 :=
  s.foldl (fun n b => 8 * n + (b - 48)) 0

def readEscape (s : Bytes) : UInt8 × Bytes :=
  match s with
  | b :: rest =>
    if isOctal b then
      let digits := (s.take 3).takeWhile isOctal
      (octalValue digits, s.drop digits.length)
    else
      match escaped? b with
      | some e => (e, rest)
      | none => (92, s)
  | [] => (92, [])

/-- A text with its escapes replaced, as arguments are; the sign of the end cuts it off. Tells also
whether it did. -/
def unescape : (fuel : Nat) → Bytes → Bytes × Bool
  | 0, _ | _, [] => ([], false)
  | fuel + 1, b :: s =>
    if b ≠ 92 then
      let (t, ended) := unescape fuel s
      (b :: t, ended)
    else if s.head? = some (ascii 'c') then ([], true)
    else
      let s := match s with
        | 48 :: c :: rest => if isOctal c then c :: rest else s
        | s => s
      let (e, rest) := readEscape s
      let (t, ended) := unescape fuel rest
      (e :: t, ended)

/-- How a directive prints: to the left, with a sign, a blank, zeros or a mark in front, how wide,
and how exactly. -/
structure Layout where
  left : Bool
  sign : Bool
  blank : Bool
  zeros : Bool
  mark : Bool
  width : Nat
  precision : Option Nat
  deriving Repr, Inhabited

def Layout.pad (l : Layout) (s : Bytes) : Bytes :=
  let fill := List.replicate (l.width - s.length) 32
  if l.left then s ++ fill else fill ++ s

def Layout.number (l : Layout) (front digits : Bytes) : Bytes :=
  let digits := List.replicate (l.precision.getD 1 - digits.length) 48 ++ digits
  if l.zeros ∧ ! l.left ∧ l.precision.isNone then
    front ++ List.replicate (l.width - front.length - digits.length) 48 ++ digits
  else l.pad (front ++ digits)

/-- The digits of a number in a base; zero has none of its own. -/
def digitsIn (base n : Nat) (upper : Bool) : Bytes :=
  if n = 0 then []
  else (Nat.toDigits base n).map fun c => ascii (if upper then c.toUpper else c)

structure Reading (α : Type) where
  value : α
  complaint : Option String

def splitSign (s : List Char) : Bool × List Char :=
  match s with
  | '-' :: t => (true, t)
  | '+' :: t => (false, t)
  | t => (false, t)

/-- An argument as a whole number between two bounds. -/
def readInteger (low high : Int) (argument : Bytes) : Reading Int :=
  match argument with
  | [] => ⟨0, none⟩
  | b :: rest =>
    if b = ascii '\'' ∨ b = ascii '"' then ⟨((rest.head?.map UInt8.toNat).getD 0 : Nat), none⟩
    else
      let text := argument.toStringLossy
      let (negative, digits) := splitSign (Arithmetic.skipSpace text.toList)
      if ! digits.head?.any Char.isDigit then ⟨0, some s!"{text}: expected numeric value"⟩
      else
        let (n, behind) := Arithmetic.readNumber digits
        let value : Int := if negative then - (n : Int) else n
        if value < low ∨ high < value then
          ⟨max low (min high value), some s!"{text}: Numerical result out of range"⟩
        else if behind ≠ [] then ⟨value, some s!"{text}: not completely converted"⟩
        else ⟨value, none⟩

def readFraction (argument : Bytes) : Reading Binary64 :=
  if argument = [] then ⟨⟨false, 0⟩, none⟩
  else
    let text := argument.toStringLossy
    let (negative, digits) := splitSign (Arithmetic.skipSpace text.toList)
    match Json.readNumeral (Bytes.ofString (String.ofList digits)) with
    | .ok (n, behind) =>
      let fraction := n.fraction.getD []
      let x : Binary64 := ⟨negative,
        Binary64.ofDecimal (Json.digitsValue (n.whole ++ fraction))
          (n.exponent.getD 0 - fraction.length)⟩
      ⟨x, if behind = [] then none else some s!"{text}: not completely converted"⟩
    | .error _ => ⟨⟨false, 0⟩, some s!"{text}: expected numeric value"⟩

/-- A finite number with a fixed count of places behind the point. -/
def fixed (x : Binary64) (places : Nat) : Bytes :=
  let num := Binary64.units x.magnitude * Nat.pow 10 places
  let n := Binary64.roundedQuotient num (Nat.pow 2 1074)
  let whole := Bytes.ofString (toString (n / Nat.pow 10 places))
  if places = 0 then whole
  else
    let digits := Bytes.ofString (toString (n % Nat.pow 10 places))
    whole ++ 46 :: (List.replicate (places - digits.length) 48 ++ digits)

/-- What printing has made so far: the output, the complaints, and what was wrong with the format, or
whether an argument ended it all. -/
structure Printed where
  output : Bytes
  complaints : List String
  fault : Option String
  ended : Bool
  deriving Repr, Inhabited

def Printed.add (p : Printed) (s : Bytes) : Printed := { p with output := p.output ++ s }

/-- Adds a complaint, if there is one. -/
def Printed.complain (p : Printed) (c : Option String) : Printed :=
  { p with complaints := p.complaints ++ c.toList }

def readFlags : Layout → Bytes → Layout × Bytes
  | l, b :: s =>
    if b = ascii '-' then readFlags { l with left := true } s
    else if b = ascii '+' then readFlags { l with sign := true } s
    else if b = ascii ' ' then readFlags { l with blank := true } s
    else if b = ascii '0' then readFlags { l with zeros := true } s
    else if b = ascii '#' then readFlags { l with mark := true } s
    else (l, b :: s)
  | l, [] => (l, [])

def readCount (s : Bytes) (arguments : List Bytes) : Nat × Bytes × List Bytes :=
  match s with
  | 42 :: rest =>
    ((readInteger 0 10000 (arguments.headD [])).value.toNat, rest, arguments.drop 1)
  | s =>
    let digits := s.takeWhile fun b => 48 ≤ b && b ≤ 57
    (digits.foldl (fun n b => 10 * n + (b.toNat - 48)) 0, s.drop digits.length, arguments)

def convert (l : Layout) (conversion : Char) (argument : Bytes) (p : Printed) : Option Printed :=
  let signed (x : Reading Int) : Printed :=
    let front : Bytes :=
      if x.value < 0 then [45] else if l.sign then [43] else if l.blank then [32] else []
    (p.add (l.number front (digitsIn 10 x.value.natAbs false))).complain x.complaint
  let unsigned (base : Nat) (upper : Bool) : Printed :=
    let x := readInteger (-Int.pow 2 63) (Int.pow 2 64 - 1) argument
    let n := (x.value % Int.pow 2 64).toNat
    let front : String :=
      if ! l.mark ∨ n = 0 then "" else if base = 16 then (if upper then "0X" else "0x")
      else if base = 8 then "0" else ""
    (p.add (l.number (Bytes.ofString front) (digitsIn base n upper))).complain x.complaint
  match conversion with
  | 'd' | 'i' => some (signed (readInteger (-Int.pow 2 63) (Int.pow 2 63 - 1) argument))
  | 'u' => some (unsigned 10 false)
  | 'o' => some (unsigned 8 false)
  | 'x' => some (unsigned 16 false)
  | 'X' => some (unsigned 16 true)
  | 'c' => some (p.add (l.pad [argument.headD 0]))
  | 's' => some (p.add (l.pad (argument.take (l.precision.getD argument.length))))
  | 'b' =>
    let (s, ended) := unescape (argument.length + 1) argument
    some { p.add (l.pad (s.take (l.precision.getD s.length))) with ended }
  | 'f' | 'F' =>
    let x := readFraction argument
    let front : Bytes :=
      if x.value.negative then [45] else if l.sign then [43] else if l.blank then [32] else []
    let layout := { l with precision := none }
    some ((p.add (layout.number front (fixed x.value (l.precision.getD 6)))).complain x.complaint)
  | _ => none

/-- Prints the format once. Gives back the arguments that are left. -/
def once : (fuel : Nat) → (format : Bytes) → (arguments : List Bytes) → Printed →
    Printed × List Bytes
  | 0, _, arguments, p => (p, arguments)
  | _, [], arguments, p => (p, arguments)
  | fuel + 1, b :: s, arguments, p =>
    if b = 92 then
      let (e, rest) := readEscape s
      once fuel rest arguments (p.add [e])
    else if b ≠ 37 then once fuel s arguments (p.add [b])
    else if s.head? = some 37 then once fuel (s.drop 1) arguments (p.add [37])
    else
      let (l, rest) := readFlags default s
      let (width, rest, arguments) := readCount rest arguments
      let (precision, rest, arguments) := match rest with
        | 46 :: rest =>
          let (n, rest, arguments) := readCount rest arguments
          (some n, rest, arguments)
        | rest => (none, rest, arguments)
      match rest with
      | [] => ({ p with fault := some "missing format character" }, arguments)
      | c :: rest =>
        match convert { l with width, precision } (Char.ofNat c.toNat) (arguments.headD []) p with
        | some p => if p.ended then (p, []) else once fuel rest (arguments.drop 1) p
        | none =>
          let text : Bytes := 37 :: s.take (s.length - rest.length)
          ({ p with fault := some s!"{text.toStringLossy}: invalid directive" }, arguments)

def again : (fuel : Nat) → (format : Bytes) → (arguments : List Bytes) → Printed → Printed
  | 0, _, _, p => p
  | fuel + 1, format, arguments, p =>
    let (p, left) := once (format.length + 1) format arguments p
    if p.fault.isSome ∨ p.ended ∨ left = [] ∨ left.length = arguments.length then p
    else again fuel format left p

def print (format : Bytes) (arguments : List Bytes) : Printed :=
  again (arguments.length + 1) format arguments ⟨[], [], none, false⟩

end QualityGate.Shell.Format
