import QualityGate.Json.Number
import QualityGate.Json.Text

/-! # Reading JSON

A value is read from bytes, with what follows it. The strict reader allows 127 containers inside one
another. The lenient one is for values that nobody looks at: it checks the grammar alone, at any depth
and for numbers of any size. -/

namespace QualityGate.Json

/-- How many containers may stand inside one another. -/
def depthLimit : Nat := 127

def isBlank (b : UInt8) : Bool :=
  b = 0x20 || b = 0x09 || b = 0x0A || b = 0x0D

/-- The bytes from the next token on. -/
def skipBlanks (s : Bytes) : Bytes := s.dropWhile isBlank

/-- Takes the rest of a word whose first letter is read. -/
def readWord (v : Value) : (letters : Bytes) → Bytes → Except Fault (Value × Bytes)
  | [], s => .ok (v, s)
  | _ :: _, [] => .error ⟨.endInValue, []⟩
  | l :: ls, b :: s => if b = l then readWord v ls s else .error ⟨.noWord, s⟩

def readColon (s : Bytes) : Except Fault Bytes :=
  match skipBlanks s with
  | [] => .error ⟨.endInObject, []⟩
  | 0x3A :: s => .ok s
  | _ :: s => .error ⟨.noColon, s⟩

/-- Takes a name with its colon. The name must be a string. -/
def readName (lenient : Bool) (s : Bytes) : Except Fault (String × Bytes) :=
  match s with
  | 0x22 :: s => do
    let (name, s) ← readString lenient s
    let s ← readColon s
    .ok (name, s)
  | _ => stopAt .noName s

/-- Takes a comma with the blanks behind it, or sees that the container ends here. Right behind the
opening bracket there is no comma. -/
def readComma (first : Bool) (close : UInt8) (atEnd noComma : Reason) (s : Bytes) :
    Except Fault (Option Bytes) :=
  match skipBlanks s with
  | [] => .error ⟨atEnd, []⟩
  | b :: s =>
    if b = close then .ok none
    else if first then .ok (some (b :: s))
    else if b = 0x2C then
      match skipBlanks s with
      | [] => .error ⟨.endInValue, []⟩
      | c :: s => if c = close then .error ⟨.trailingComma, s⟩ else .ok (some (c :: s))
    else .error ⟨noComma, s⟩

/-- What follows the closing bracket that `readComma` has seen. -/
def skipClose (s : Bytes) : Bytes := (skipBlanks s).drop 1

mutual

/-- Reads a value. `depth` more containers may be opened. -/
def readValue (lenient : Bool) : (fuel depth : Nat) → Bytes → Except Fault (Value × Bytes)
  | 0, _, s => .error ⟨.endInValue, s⟩
  | fuel + 1, depth, s =>
    match skipBlanks s with
    | [] => .error ⟨.endInValue, []⟩
    | b :: s =>
      if b = 0x6E then readWord .null (.ofString "ull") s
      else if b = 0x74 then readWord (.bool true) (.ofString "rue") s
      else if b = 0x66 then readWord (.bool false) (.ofString "alse") s
      else if b = 0x22 then do
        let (text, s) ← readString lenient s
        .ok (.string text, s)
      else if b = 0x2D ∨ isDigit b then do
        let (n, s) ← readNumber lenient (b :: s)
        .ok (.number n, s)
      else if b = 0x5B ∨ b = 0x7B then
        if !lenient && depth = 0 then .error ⟨.tooDeep, s⟩
        else if b = 0x5B then do
          let (items, s) ← readItems lenient fuel (depth - 1) true s
          .ok (.array items, s)
        else do
          let (members, s) ← readMembers lenient fuel (depth - 1) true s
          .ok (.object (lastOfEach members), s)
      else .error ⟨.noValue, s⟩

def readItems (lenient : Bool) :
    (fuel depth : Nat) → (first : Bool) → Bytes → Except Fault (List Value × Bytes)
  | 0, _, _, s => .error ⟨.endInList, s⟩
  | fuel + 1, depth, first, s => do
    match ← readComma first 0x5D .endInList .noListComma s with
    | none => .ok ([], skipClose s)
    | some s =>
      let (v, s) ← readValue lenient fuel depth s
      let (vs, s) ← readItems lenient fuel depth false s
      .ok (v :: vs, s)

def readMembers (lenient : Bool) :
    (fuel depth : Nat) → (first : Bool) → Bytes → Except Fault (List (String × Value) × Bytes)
  | 0, _, _, s => .error ⟨.endInObject, s⟩
  | fuel + 1, depth, first, s => do
    match ← readComma first 0x7D .endInObject .noObjectComma s with
    | none => .ok ([], skipClose s)
    | some s =>
      let (name, s) ← readName lenient s
      let (v, s) ← readValue lenient fuel depth s
      let (ms, s) ← readMembers lenient fuel depth false s
      .ok ((name, v) :: ms, s)

end

def checkEnd (s : Bytes) : Except Fault Unit :=
  match skipBlanks s with
  | [] => .ok ()
  | _ :: s => .error ⟨.trailingText, s⟩

/-- As much fuel as any value in the bytes needs: two units for each byte that a container opens with. -/
def fuelFor (s : Bytes) : Nat := 2 * s.length + 2

def read (s : Bytes) : Except Fault Value := do
  let (v, rest) ← readValue false (fuelFor s) depthLimit s
  checkEnd rest
  .ok v

end QualityGate.Json
