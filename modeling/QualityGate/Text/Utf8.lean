/-! # UTF-8

Bytes and the text they spell. A machine reads one byte at a time and emits a character at the last
byte of its sequence. The strict reader stops at the first byte that no sequence allows. The lossy
reader puts one `U+FFFD` for each maximal part that is the start of no sequence, and goes on with the
byte that broke the sequence off; a byte below `0x80` therefore always stands for itself. -/

namespace QualityGate

abbrev Bytes := List UInt8

namespace Text.Utf8

/-! ### Writing -/

def encodeChar (c : Char) : Bytes :=
  let n := c.toNat
  if n < 0x80 then
    [UInt8.ofNat n]
  else if n < 0x800 then
    [UInt8.ofNat (0xC0 + n / 64), UInt8.ofNat (0x80 + n % 64)]
  else if n < 0x10000 then
    [UInt8.ofNat (0xE0 + n / 4096), UInt8.ofNat (0x80 + n / 64 % 64), UInt8.ofNat (0x80 + n % 64)]
  else
    [UInt8.ofNat (0xF0 + n / 262144), UInt8.ofNat (0x80 + n / 4096 % 64),
      UInt8.ofNat (0x80 + n / 64 % 64), UInt8.ofNat (0x80 + n % 64)]

def encode (s : List Char) : Bytes :=
  s.flatMap encodeChar

/-! ### The machine -/

/-- Where the machine stands: between characters, or inside a sequence. Inside, `left + 1` bytes are
still due, the next of them between `low` and `high`, and `value` holds the bits read so far. -/
inductive State where
  | start
  | inside (left : Nat) (low high : UInt8) (value : Nat)
  deriving DecidableEq, Repr

/-- What a byte between characters begins; `none` when it begins nothing. The bounds on the second
byte keep out overlong spellings, surrogates and values above `U+10FFFF`. -/
def begin? (b : UInt8) : Option (List Char × State) :=
  if b < 0x80 then some ([Char.ofNat b.toNat], .start)
  else if b < 0xC2 then none
  else if b < 0xE0 then some ([], .inside 0 0x80 0xBF (b.toNat - 0xC0))
  else if b = 0xE0 then some ([], .inside 1 0xA0 0xBF 0)
  else if b = 0xED then some ([], .inside 1 0x80 0x9F 13)
  else if b < 0xF0 then some ([], .inside 1 0x80 0xBF (b.toNat - 0xE0))
  else if b = 0xF0 then some ([], .inside 2 0x90 0xBF 0)
  else if b < 0xF4 then some ([], .inside 2 0x80 0xBF (b.toNat - 0xF0))
  else if b = 0xF4 then some ([], .inside 2 0x80 0x8F 4)
  else none

/-- One byte: the characters it completes (one or none) and the next state. -/
def accept? : State → UInt8 → Option (List Char × State)
  | .start, b => begin? b
  | .inside left low high value, b =>
    if low ≤ b ∧ b ≤ high then
      let value := value * 64 + (b.toNat - 0x80)
      match left with
      | 0 => some ([Char.ofNat value], .start)
      | left + 1 => some ([], .inside left 0x80 0xBF value)
    else
      none

/-! ### Reading -/

/-- Reads on from a state; `none` as soon as a byte is refused, or when a sequence is unfinished. -/
def decodeFrom? : State → Bytes → Option (List Char)
  | st, [] => if st = .start then some [] else none
  | st, b :: s =>
    match accept? st b with
    | none => none
    | some (out, next) => (decodeFrom? next s).map (out ++ ·)

/-- The text that the bytes spell, when they are well-formed. -/
def decode? (s : Bytes) : Option (List Char) :=
  decodeFrom? .start s

/-- The sign put in place of an invalid part. -/
def replacement : Char := '\uFFFD'

/-- One byte read leniently: a refused byte ends the part before it, and is then read afresh. -/
def acceptLossy (st : State) (b : UInt8) : List Char × State :=
  match accept? st b with
  | some r => r
  | none =>
    if st = .start then
      ([replacement], .start)
    else
      match begin? b with
      | some (out, next) => (replacement :: out, next)
      | none => ([replacement, replacement], .start)

/-- Reads on leniently from a state. -/
def decodeLossyFrom : State → Bytes → List Char
  | st, [] => if st = .start then [] else [replacement]
  | st, b :: s => (acceptLossy st b).1 ++ decodeLossyFrom (acceptLossy st b).2 s

/-- The text of the bytes, with one `U+FFFD` for each maximal invalid part. -/
def decodeLossy (s : Bytes) : List Char :=
  decodeLossyFrom .start s

end Text.Utf8

def Bytes.ofString (s : String) : Bytes :=
  Text.Utf8.encode s.toList

def Bytes.toString? (s : Bytes) : Option String :=
  (Text.Utf8.decode? s).map String.ofList

def Bytes.toStringLossy (s : Bytes) : String :=
  String.ofList (Text.Utf8.decodeLossy s)

end QualityGate
