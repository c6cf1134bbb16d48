import QualityGate.Json.Fault
import QualityGate.Text.Digit

/-! # Strings in JSON texts

A string is read byte by byte up to its closing quote. Escapes add the bytes of the character that
they stand for, and two escapes of surrogates make one character. The bytes between the quotes are
checked to be text when the quote is reached. -/

namespace QualityGate.Json

def hexDigit? (b : UInt8) : Option Nat :=
  if 0x30 ≤ b ∧ b ≤ 0x39 then some (b.toNat - 0x30)
  else if 0x41 ≤ b ∧ b ≤ 0x46 then some (b.toNat - 0x41 + 10)
  else if 0x61 ≤ b ∧ b ≤ 0x66 then some (b.toNat - 0x61 + 10)
  else none

/-- The value of the four hexadecimal digits of an escape. Four bytes are taken before any of them is
looked at. -/
def readHex : Bytes → Except Fault (Nat × Bytes)
  | a :: b :: c :: d :: s =>
    match hexDigit? a, hexDigit? b, hexDigit? c, hexDigit? d with
    | some a, some b, some c, some d => .ok (((a * 16 + b) * 16 + c) * 16 + d, s)
    | _, _, _, _ => .error ⟨.badEscape, s⟩
  | _ => .error ⟨.endInString, []⟩

/-- The byte that a one-letter escape stands for. -/
def shortEscape? (b : UInt8) : Option UInt8 :=
  if b = 0x22 ∨ b = 0x5C ∨ b = 0x2F then some b
  else if b = 0x62 then some 0x08
  else if b = 0x66 then some 0x0C
  else if b = 0x6E then some 0x0A
  else if b = 0x72 then some 0x0D
  else if b = 0x74 then some 0x09
  else none

/-- The second half of a pair of surrogates, which must follow the first half at once. -/
def readPair (high : Nat) : Bytes → Except Fault (Bytes × Bytes)
  | 0x5C :: 0x75 :: s => do
    let (low, s) ← readHex s
    if 0xDC00 ≤ low ∧ low ≤ 0xDFFF then
      let n := 0x10000 + (high - 0xD800) * 0x400 + (low - 0xDC00)
      .ok (Text.Utf8.encodeChar (Char.ofNat n), s)
    else
      .error ⟨.loneSurrogate, s⟩
  | [] => .error ⟨.endInString, []⟩
  | [0x5C] => .error ⟨.endInString, []⟩
  | 0x5C :: s => stopAt .halfPair s
  | s => stopAt .halfPair s

/-- The bytes of the character that an escape stands for, read from behind its backslash. A lenient
reader lets surrogates stand alone. -/
def readEscape (lenient : Bool) : Bytes → Except Fault (Bytes × Bytes)
  | [] => .error ⟨.endInString, []⟩
  | 0x75 :: s => do
    let (n, s) ← readHex s
    if 0xD800 ≤ n ∧ n ≤ 0xDFFF then
      if lenient then .ok (Text.Utf8.encodeChar Text.Utf8.replacement, s)
      else if 0xDC00 ≤ n then .error ⟨.loneSurrogate, s⟩
      else readPair n s
    else
      .ok (Text.Utf8.encodeChar (Char.ofNat n), s)
  | b :: s =>
    match shortEscape? b with
    | some c => .ok ([c], s)
    | none => .error ⟨.badEscape, s⟩

/-- The bytes of a string, escapes replaced, and what follows its closing quote. -/
def readStringBytes (lenient : Bool) : (fuel : Nat) → Bytes → Except Fault (Bytes × Bytes)
  | _, [] => .error ⟨.endInString, []⟩
  | 0, s => .error ⟨.endInString, s⟩
  | fuel + 1, b :: s =>
    if b = 0x22 then
      .ok ([], s)
    else if b = 0x5C then do
      let (c, s) ← readEscape lenient s
      let (text, s) ← readStringBytes lenient fuel s
      .ok (c ++ text, s)
    else if b < 0x20 then
      .error ⟨.control, s⟩
    else do
      let (text, s) ← readStringBytes lenient fuel s
      .ok (b :: text, s)

def readString (lenient : Bool) (s : Bytes) : Except Fault (String × Bytes) := do
  let (text, s) ← readStringBytes lenient (s.length + 1) s
  match text.toString? with
  | some t => .ok (t, s)
  | none => .error ⟨.badUtf8, s⟩

end QualityGate.Json
