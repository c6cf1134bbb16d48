import QualityGate.Text.Utf8
import QualityGate.Yaml.Cursor

/-! # Anchors, tags and directives

The names that stand in front of a node, and the two directives in front of a document. -/

namespace QualityGate.Yaml

/-! ### Anchors -/

def readAnchorName (c : Cursor) : Except Fault (List Char × Cursor) :=
  let (name, next) := c.span isWordChar
  let ended := endsWord next.peek || next.peek.any ("?:,]\x7d%@`".toList.contains ·)
  if name ≠ [] && ended then .ok (name, next) else c.fail .badAnchor

/-! ### Tags -/

/-- A character that may stand in the address of a tag as it is. Some may only stand in an address
between angle brackets or in a directive. -/
def isAddressChar (bracketed : Bool) (c : Char) : Bool :=
  isWordChar c || ";/?:@&=+$.!~*'()".toList.contains c || (bracketed && ",[]".toList.contains c)

def hexDigit? (c : Char) : Option Nat :=
  if c.isDigit then some (c.toNat - '0'.toNat)
  else if 'a' ≤ c ∧ c ≤ 'f' then some (c.toNat - 'a'.toNat + 10)
  else if 'A' ≤ c ∧ c ≤ 'F' then some (c.toNat - 'A'.toNat + 10)
  else none

def escapedOctet? : List Char → Option UInt8
  | '%' :: a :: b :: _ => do
    let a ← hexDigit? a
    let b ← hexDigit? b
    some (UInt8.ofNat (16 * a + b))
  | _ => none

/-- How many octets a character has that starts with this one. -/
def octetCount? (b : UInt8) : Option Nat :=
  if b < 0x80 then some 1
  else if b < 0xC0 then none
  else if b < 0xE0 then some 2
  else if b < 0xF0 then some 3
  else if b < 0xF8 then some 4
  else none

def readOctets : (due : Nat) → Bytes → Cursor → Except Fault (Bytes × Cursor)
  | 0, octets, c => .ok (octets, c)
  | due + 1, octets, c =>
    match escapedOctet? c.rest with
    | some b =>
      if 0x80 ≤ b ∧ b < 0xC0 then readOctets due (octets ++ [b]) (c.skip 3) else c.fail .badTagEscape
    | none => c.fail .badTagEscape

def readAddressEscape (c : Cursor) : Except Fault (List Char × Cursor) :=
  match escapedOctet? c.rest with
  | none => c.fail .badTagEscape
  | some b =>
    match octetCount? b with
    | none => c.fail .badTagEscape
    | some n => do
      let (octets, c) ← readOctets (n - 1) [b] (c.skip 3)
      .ok (Text.Utf8.decodeLossy octets, c)

def readAddressChars (bracketed : Bool) :
    (fuel : Nat) → List Char → Cursor → Except Fault (List Char × Cursor)
  | 0, text, c => .ok (text, c)
  | fuel + 1, text, c =>
    match c.peek with
    | some d =>
      if d = '%' then do
        let (e, c) ← readAddressEscape c
        readAddressChars bracketed fuel (text ++ e) c
      else if isAddressChar bracketed d then
        readAddressChars bracketed fuel (text ++ [d]) (c.skip 1)
      else
        .ok (text, c)
    | none => .ok (text, c)

/-- An address, of which `stem` is read already. It is not empty; a stem of one character, the sign of
tags, is not part of it. -/
def readAddress (bracketed : Bool) (stem : List Char) (c : Cursor) :
    Except Fault (List Char × Cursor) := do
  let (text, next) ← readAddressChars bracketed (c.rest.length + 1) [] c
  if stem = [] ∧ text = [] then c.fail .badTag else .ok (stem.drop 1 ++ text, next)

/-- The handle of a tag: the sign of tags, perhaps a word and the sign again. -/
def readHandle (c : Cursor) : Except Fault (List Char × Cursor) :=
  if c.peek = some '!' then
    let (word, next) := (c.skip 1).span isWordChar
    if next.peek = some '!' then .ok ('!' :: (word ++ ['!']), next.skip 1)
    else .ok ('!' :: word, next)
  else
    c.fail .badTag

/-- The handle and the suffix of a tag. A tag that is written out has no handle; neither has the sign
of tags when it stands alone. -/
def readTag (flow : Bool) (c : Cursor) : Except Fault ((List Char × List Char) × Cursor) := do
  let (parts, next) ←
    if c.peekAt 1 = some '<' then do
      let (address, next) ← readAddress true [] (c.skip 2)
      if next.peek = some '>' then .ok (([], address), next.skip 1) else next.fail .badTag
    else do
      let (handle, next) ← readHandle c
      if 1 < handle.length ∧ handle.getLast? = some '!' then do
        let (suffix, next) ← readAddress false [] next
        .ok ((handle, suffix), next)
      else do
        let (suffix, next) ← readAddress false handle next
        .ok (if suffix = [] then ([], ['!']) else (['!'], suffix), next)
  if endsWord next.peek || (flow && next.peek = some ',') then .ok (parts, next) else next.fail .badTag

/-! ### Directives -/

inductive Directive where
  | version (major minor : Nat)
  | tag (handle stem : List Char)
  deriving DecidableEq, Repr

def readVersionNumber (c : Cursor) : Except Fault (Nat × Cursor) :=
  let (digits, next) := c.span Char.isDigit
  if digits = [] ∨ 9 < digits.length then c.fail .badVersion
  else .ok (digits.foldl (fun n d => 10 * n + (d.toNat - '0'.toNat)) 0, next)

def readDirectiveValue (name : List Char) (c : Cursor) : Except Fault (Directive × Cursor) :=
  if name = "YAML".toList then do
    let (major, c) ← readVersionNumber c.skipGaps
    if c.peek = some '.' then do
      let (minor, c) ← readVersionNumber (c.skip 1)
      .ok (.version major minor, c)
    else
      c.fail .badVersion
  else if name = "TAG".toList then do
    let (handle, c) ← readHandle c.skipGaps
    if handle.getLast? ≠ some '!' then c.fail .badTag
    else if c.peek.any isGap then do
      let (stem, c) ← readAddress true [] c.skipGaps
      if endsWord c.peek then .ok (.tag handle stem, c) else c.fail .badTag
    else
      c.fail .badTag
  else
    c.fail .badDirective

def readDirective (c : Cursor) : Except Fault (Directive × Mark × Cursor) := do
  let (name, next) := c.span isWordChar
  if name = [] || ! endsWord next.peek then
    c.fail .badDirective
  else
    let (d, next) ← readDirectiveValue name next
    let stop := next.mark
    let next := next.skipGaps.skipComment
    if endsLine next.peek then .ok (d, stop, next.readBreak.2) else next.fail .trailingText

end QualityGate.Yaml
