import QualityGate.Json.Reading

/-! # Hook events

An event is one JSON text on standard input. Only the tool's input matters, and in it the path of the
edited file; a payload that cannot be read counts as one that names no file. The payload is an object
in which `tool_input` stands at most once and all other members are skipped, or the list of its fields
in order, which is just the tool's input. -/

namespace QualityGate

/-- What set the gate off: the edited file, if any, and the tool's whole input. -/
structure Event where
  filePath : Option String
  toolInput : List (String × Json.Value)
  deriving Repr

namespace Event

/-- The event that says nothing, as at the end of a session. -/
def empty : Event := ⟨none, []⟩

def forFile (path : String) : Event := ⟨some path, []⟩

/-- An event about a tool's input. A path must be a string, and not the empty one. -/
def ofToolInput (v : Json.Value) : Event :=
  let members := v.members
  let path := (members.lookup "file_path").bind Json.Value.text?
  ⟨path.filter (· ≠ ""), members⟩

/-! ### Payloads -/

/-- Reads the members of a payload up to its closing bracket, and keeps the tool's input, of which
there may be only one. -/
def readMembers :
    (fuel : Nat) → (first : Bool) → (found : Option Json.Value) → Bytes →
      Except Json.Fault (Option Json.Value × Bytes)
  | 0, _, _, s => .error ⟨.endInObject, s⟩
  | fuel + 1, first, found, s => do
    match ← Json.readComma first 0x7D .endInObject .noObjectComma s with
    | none => .ok (found, Json.skipClose s)
    | some s =>
      let (name, s) ← Json.readName false s
      if name = "tool_input" then
        if found.isSome then
          .error ⟨.noName, s⟩
        else
          let (v, s) ← Json.readValue false (Json.fuelFor s) (Json.depthLimit - 1) s
          readMembers fuel false (some v) s
      else
        let (_, s) ← Json.readValue true (Json.fuelFor s) 0 s
        readMembers fuel false found s

/-- Reads the list of a payload's fields up to its closing bracket. -/
def readFields (s : Bytes) : Except Json.Fault (Option Json.Value × Bytes) := do
  match ← Json.readComma true 0x5D .endInList .noListComma s with
  | none => .ok (none, Json.skipClose s)
  | some s =>
    let (v, s) ← Json.readValue false (Json.fuelFor s) (Json.depthLimit - 1) s
    match Json.skipBlanks s with
    | 0x5D :: s => .ok (some v, s)
    | s => Json.stopAt .trailingText s

/-- Reads a payload: the tool's input, if it has one. -/
def readPayload (s : Bytes) : Except Json.Fault (Option Json.Value) := do
  let (v, rest) ←
    match Json.skipBlanks s with
    | 0x7B :: s => readMembers (s.length + 1) true none s
    | 0x5B :: s => readFields s
    | s => Json.stopAt .noValue s
  Json.checkEnd rest
  .ok v

/-! ### Events -/

def ofText (raw : String) : Event :=
  match readPayload (Bytes.ofString raw) with
  | .ok (some v) => ofToolInput v
  | _ => empty

/-- The event of the bytes on standard input; bytes that spell no text say nothing. -/
def ofBytes (raw : Bytes) : Event :=
  match raw.toString? with
  | some s => ofText s
  | none => empty

end Event

end QualityGate
