import QualityGate.Json.Number
import QualityGate.Json.Text
import QualityGate.Proofs.Decimal.Range

/-! # The grammar of JSON texts

What a JSON text is, and what it stands for, without a reader. A text is written for a tree, which
keeps all of it but the blanks: numbers and strings as they are spelled, members in their order and
with their repetitions. `Tree.Written` is the grammar; `Tree.Denotes` says which value a tree stands
for. Not every tree that can be written stands for one: `Tree.Legible` asks that numbers fit, as far
as the rounding of the reader tells, and that surrogates come in pairs.

Strings and numbers are looked at in two ways. Strictly, as values that are kept, or leniently, as
values that are passed over: then nothing but the grammar counts, and what they stand for is of no
interest. -/

namespace QualityGate.Json

/-! ### Blanks -/

def IsBlanks (w : List Char) : Prop := ∀ c ∈ w, c ∈ [' ', '\t', '\n', '\r']

/-! ### Strings -/

/-- A character that may stand in a string as it is. -/
def IsPlain (c : Char) : Prop := 0x20 ≤ c.toNat ∧ c ≠ '"' ∧ c ≠ '\\'

/-- The letters of the short escapes, and what they stand for. -/
def shortEscapes : List (Char × Char) :=
  [('"', '"'), ('\\', '\\'), ('/', '/'), ('b', '\x08'), ('f', '\x0C'), ('n', '\n'), ('r', '\r'),
    ('t', '\t')]

def hexDigits : List (Char × Nat) :=
  "0123456789abcdef".toList.zipIdx ++ "ABCDEF".toList.zipIdx 10

/-- The four hexadecimal digits of a code unit. -/
inductive CodeUnit : List Char → Nat → Prop
  | mk {a b c d : Char} {i j k l : Nat} (ha : (a, i) ∈ hexDigits) (hb : (b, j) ∈ hexDigits)
      (hc : (c, k) ∈ hexDigits) (hd : (d, l) ∈ hexDigits) :
      CodeUnit [a, b, c, d] (((i * 16 + j) * 16 + k) * 16 + l)

/-- What stands behind the backslash of an escape, and the character that it stands for. A surrogate
stands for a character only together with its other half; leniently it may stand alone. -/
inductive Escape (lenient : Bool) : List Char → Char → Prop
  | short {l c : Char} (h : (l, c) ∈ shortEscapes) : Escape lenient [l] c
  | code {u : List Char} {n : Nat} (hu : CodeUnit u n) (hn : n < 0xD800 ∨ 0xDFFF < n) :
      Escape lenient ('u' :: u) (Char.ofNat n)
  | pair {u v : List Char} {high low : Nat} (hstrict : lenient = false) (hu : CodeUnit u high)
      (hhigh : 0xD800 ≤ high ∧ high < 0xDC00) (hv : CodeUnit v low)
      (hlow : 0xDC00 ≤ low ∧ low ≤ 0xDFFF) :
      Escape lenient ('u' :: u ++ '\\' :: 'u' :: v)
        (Char.ofNat (0x10000 + (high - 0xD800) * 0x400 + (low - 0xDC00)))
  | lone {u : List Char} {n : Nat} (hlenient : lenient = true) (hu : CodeUnit u n)
      (hn : 0xD800 ≤ n ∧ n ≤ 0xDFFF) : Escape lenient ('u' :: u) Text.Utf8.replacement

/-- What stands between the quotes of a string, and the characters that it stands for. -/
inductive Spells (lenient : Bool) : List Char → List Char → Prop
  | nil : Spells lenient [] []
  | plain {c : Char} {b s : List Char} (hc : IsPlain c) (h : Spells lenient b s) :
      Spells lenient (c :: b) (c :: s)
  | escape {e b s : List Char} {c : Char} (he : Escape lenient e c) (h : Spells lenient b s) :
      Spells lenient ('\\' :: e ++ b) (c :: s)

/-- What may stand between the quotes of a string. Any four hexadecimal digits make an escape. -/
def IsBody (b : List Char) : Prop := ∃ s, Spells true b s

/-! ### Numbers -/

def IsDigits (ds : List Char) : Prop := ds ≠ [] ∧ ∀ c ∈ ds, c.isDigit = true

/-- The whole part: one zero, or digits that start with none. -/
def IsWhole (ds : List Char) : Prop := ds = ['0'] ∨ IsDigits ds ∧ ds.head? ≠ some '0'

namespace Numeral

/-- The sign of a number. Only a minus is written. -/
def sign (negative : Bool) : List Char := if negative then ['-'] else []

inductive FractionWritten : Option Bytes → List Char → Prop
  | none : FractionWritten none []
  | some {ds : List Char} (h : IsDigits ds) :
      FractionWritten (some (Text.Utf8.encode ds)) ('.' :: ds)

/-- How the exponent is written, if there is one: its sign may be left out. -/
inductive ExponentWritten : Option Int → List Char → Prop
  | none : ExponentWritten none []
  | plain {e : Char} {ds : List Char} (he : e = 'e' ∨ e = 'E') (h : IsDigits ds) :
      ExponentWritten (some (digitsValue (Text.Utf8.encode ds))) (e :: ds)
  | plus {e : Char} {ds : List Char} (he : e = 'e' ∨ e = 'E') (h : IsDigits ds) :
      ExponentWritten (some (digitsValue (Text.Utf8.encode ds))) (e :: '+' :: ds)
  | minus {e : Char} {ds : List Char} (he : e = 'e' ∨ e = 'E') (h : IsDigits ds) :
      ExponentWritten (some (-(digitsValue (Text.Utf8.encode ds) : Int))) (e :: '-' :: ds)

inductive Written : Numeral → List Char → Prop
  | mk {negative : Bool} {ds fs es : List Char} {fraction : Option Bytes} {exponent : Option Int}
      (hds : IsWhole ds) (hfs : FractionWritten fraction fs) (hes : ExponentWritten exponent es) :
      Written ⟨negative, Text.Utf8.encode ds, fraction, exponent⟩ (sign negative ++ ds ++ fs ++ es)

/-- The number is not too large. Its digits and its power of ten are rounded, and then the threshold
from which binary64 has only infinity decides about their product. -/
def Fits (n : Numeral) : Prop :=
  n.mantissa = 0 ∨ n.power < 0 ∨
    n.power ≤ greatestPower ∧
      Binary64.value (Binary64.ofQuotient n.mantissa 1) *
        Binary64.value (Binary64.powerOfTen n.power.toNat) < Binary64.threshold

end Numeral

def IsNumber (text : List Char) : Prop := ∃ n : Numeral, n.Written text

def InRange (text : List Char) : Prop := ∃ n : Numeral, n.Written text ∧ n.Fits

/-- The decimal of a whole number that a word of 64 bits can hold, signed or unsigned. -/
def IsWordDecimal (text : List Char) (k : Int) : Prop :=
  -2 ^ 63 ≤ k ∧ k < 2 ^ 64 ∧ text = (toString k).toList

/-- The number that a text stands for. Strictly, it has to fit. -/
inductive NumberValue (lenient : Bool) (text : List Char) : Number → Prop
  | whole {k : Int} (h : IsWordDecimal text k) : NumberValue lenient text (.whole k)
  | real {n : Numeral} (h : n.Written text) (hno : ∀ k, ¬ IsWordDecimal text k)
      (hfits : lenient = false → n.Fits) : NumberValue lenient text (.real n.real)

/-! ### Trees -/

/-- A JSON value as it is written, the blanks left out. -/
inductive Tree where
  | null
  | bool (b : Bool)
  | number (text : List Char)
  | string (body : List Char)
  | array (items : List Tree)
  | object (members : List (List Char × Tree))

/-- What stands between two brackets: commas between the elements, and blanks around each. -/
inductive Series {α : Type} (R : α → List Char → Prop) : List α → List Char → Prop
  | none {w : List Char} (hw : IsBlanks w) : Series R [] w
  | last {x : α} {w text w' : List Char} (hw : IsBlanks w) (h : R x text) (hw' : IsBlanks w') :
      Series R [x] (w ++ text ++ w')
  | more {x y : α} {xs : List α} {w text w' rest : List Char} (hw : IsBlanks w) (h : R x text)
      (hw' : IsBlanks w') (hs : Series R (y :: xs) rest) :
      Series R (x :: y :: xs) (w ++ text ++ w' ++ ',' :: rest)

mutual

/-- How a tree is written, from its first character to its last. -/
inductive Tree.Written : Tree → List Char → Prop
  | null : Tree.Written .null "null".toList
  | true : Tree.Written (.bool true) "true".toList
  | false : Tree.Written (.bool false) "false".toList
  | number {n : List Char} (h : IsNumber n) : Tree.Written (.number n) n
  | string {b : List Char} (h : IsBody b) : Tree.Written (.string b) ('"' :: b ++ ['"'])
  | array {ts : List Tree} {text : List Char} (h : Series Tree.Written ts text) :
      Tree.Written (.array ts) ('[' :: text ++ [']'])
  | object {ms : List (List Char × Tree)} {text : List Char} (h : Series MemberWritten ms text) :
      Tree.Written (.object ms) ('{' :: text ++ ['}'])

inductive MemberWritten : List Char × Tree → List Char → Prop
  | mk {b w w' text : List Char} {t : Tree} (hb : IsBody b) (hw : IsBlanks w) (hw' : IsBlanks w')
      (h : Tree.Written t text) :
      MemberWritten (b, t) ('"' :: b ++ '"' :: w ++ ':' :: w' ++ text)

end

/-- The text is one for the tree: the tree as it is written, with blanks around. -/
def Tree.IsTextOf (t : Tree) (text : List Char) : Prop :=
  ∃ w u w', IsBlanks w ∧ t.Written u ∧ IsBlanks w' ∧ text = w ++ u ++ w'

/-- The bytes are a JSON text. -/
def IsJsonText (content : Bytes) : Prop :=
  ∃ text, content = Text.Utf8.encode text ∧ ∃ t : Tree, t.IsTextOf text

/-! ### What trees stand for -/

mutual

/-- The value that a tree stands for. Of the members with one name the last counts. -/
inductive Tree.Denotes (lenient : Bool) : Tree → Value → Prop
  | null : Tree.Denotes lenient .null .null
  | bool (b : Bool) : Tree.Denotes lenient (.bool b) (.bool b)
  | number {n : List Char} {x : Number} (h : NumberValue lenient n x) :
      Tree.Denotes lenient (.number n) (.number x)
  | string {b : List Char} {s : String} (h : Spells lenient b s.toList) :
      Tree.Denotes lenient (.string b) (.string s)
  | array {ts : List Tree} {vs : List Value} (h : List.Forall₂ (Tree.Denotes lenient) ts vs) :
      Tree.Denotes lenient (.array ts) (.array vs)
  | object {ms : List (List Char × Tree)} {vs : List (String × Value)}
      (h : List.Forall₂ (MemberDenotes lenient) ms vs) :
      Tree.Denotes lenient (.object ms) (.object (lastOfEach vs))

inductive MemberDenotes (lenient : Bool) : List Char × Tree → String × Value → Prop
  | mk {b : List Char} {s : String} {t : Tree} {v : Value} (hb : Spells lenient b s.toList)
      (h : Tree.Denotes lenient t v) : MemberDenotes lenient (b, t) (s, v)

end

namespace Tree

mutual

/-- How many containers stand inside one another. -/
def depth : Tree → Nat
  | .array ts => itemsDepth ts + 1
  | .object ms => membersDepth ms + 1
  | _ => 0

def itemsDepth : List Tree → Nat
  | [] => 0
  | t :: ts => max t.depth (itemsDepth ts)

def membersDepth : List (List Char × Tree) → Nat
  | [] => 0
  | (_, t) :: ms => max t.depth (membersDepth ms)

end

mutual

/-- All numbers of a tree, as they are written. -/
def numbers : Tree → List (List Char)
  | .number n => [n]
  | .array ts => itemsNumbers ts
  | .object ms => membersNumbers ms
  | _ => []

def itemsNumbers : List Tree → List (List Char)
  | [] => []
  | t :: ts => t.numbers ++ itemsNumbers ts

def membersNumbers : List (List Char × Tree) → List (List Char)
  | [] => []
  | (_, t) :: ms => t.numbers ++ membersNumbers ms

end

mutual

/-- All strings of a tree, as they are written, the names of members among them. -/
def strings : Tree → List (List Char)
  | .string b => [b]
  | .array ts => itemsStrings ts
  | .object ms => membersStrings ms
  | _ => []

def itemsStrings : List Tree → List (List Char)
  | [] => []
  | t :: ts => t.strings ++ itemsStrings ts

def membersStrings : List (List Char × Tree) → List (List Char)
  | [] => []
  | (b, t) :: ms => b :: t.strings ++ membersStrings ms

end

/-- What is written can be kept: all numbers fit, and in all strings surrogates come in pairs. -/
structure Legible (t : Tree) : Prop where
  number : ∀ n ∈ t.numbers, InRange n
  string : ∀ b ∈ t.strings, ∃ s, Spells false b s

end Tree

end QualityGate.Json
