import QualityGate.Yaml.Lexer

/-! # YAML nodes

The tokens of a document are read as a tree of nodes. A node that is left out is an empty plain scalar
at the place where it would have to start. -/

namespace QualityGate.Yaml

/-- What every node but an alias has: its place and perhaps a tag and an anchor. -/
structure Head where
  mark : Mark
  tag : Option (List Char)
  anchor : Option (List Char)
  deriving DecidableEq, Repr

/-- A node. Its aliases name their targets by values of `α`. -/
inductive Node (α : Type) where
  | scalar (head : Head) (text : List Char) (style : ScalarStyle)
  | sequence (head : Head) (items : List (Node α))
  | mapping (head : Head) (entries : List (Node α × Node α))
  | alias (mark : Mark) (target : α)
  deriving Repr

namespace Node

abbrev Named := Node (List Char)

/-- The node that is left out at a place. -/
def absent (m : Mark) : Named := .scalar ⟨m, none, none⟩ [] .plain

abbrev Ahead := List Lexeme

/-- The token ahead. After the last one the text ends. -/
def ahead : Ahead → Token
  | [] => .streamEnd
  | l :: _ => l.token

def here : Ahead → Mark
  | [] => ⟨0, 0, 0⟩
  | l :: _ => l.start

def behind : Ahead → Mark
  | [] => ⟨0, 0, 0⟩
  | l :: _ => l.stop

def fail {β : Type} (p : Problem) (ls : Ahead) : Except Fault β := .error ⟨p, here ls⟩

/-! ### Properties -/

/-- The handles of tags, with what they stand for. -/
abbrev Handles := List (List Char × List Char)

def defaultHandles : Handles :=
  [("!".toList, "!".toList), ("!!".toList, "tag:yaml.org,2002:".toList)]

def fullTag (handles : Handles) (handle suffix : List Char) (m : Mark) :
    Except Fault (List Char) :=
  if handle = [] then .ok suffix
  else
    match handles.lookup handle with
    | some stem => .ok (stem ++ suffix)
    | none => .error ⟨.unknownHandle, m⟩

/-- The properties in front of a node: at most one anchor and one tag, in either order. -/
def readHead (handles : Handles) (ls : Ahead) : Except Fault (Head × Ahead) :=
  let m := here ls
  match ls with
  | ⟨.anchor a, _, _⟩ :: ⟨.tag h s, m₂, _⟩ :: ls => do .ok (⟨m, some (← fullTag handles h s m₂), some a⟩, ls)
  | ⟨.anchor a, _, _⟩ :: ls => .ok (⟨m, none, some a⟩, ls)
  | ⟨.tag h s, m₁, _⟩ :: ⟨.anchor a, _, _⟩ :: ls => do .ok (⟨m, some (← fullTag handles h s m₁), some a⟩, ls)
  | ⟨.tag h s, m₁, _⟩ :: ls => do .ok (⟨m, some (← fullTag handles h s m₁), none⟩, ls)
  | ls => .ok (⟨m, none, none⟩, ls)

/-- The head of a scalar that is written out: the sign of tags alone says nothing there. -/
def Head.ofWritten (h : Head) : Head :=
  if h.tag = some ['!'] then { h with tag := none } else h

/-! ### Nodes -/

mutual

/-- Reads a node. Block collections may start only outside the flow collections, and a sequence
without indentation of its own only as a key or value of a block mapping. -/
def readNode (handles : Handles) :
    (fuel : Nat) → (block indentless : Bool) → Ahead → Except Fault (Named × Ahead)
  | 0, _, _, ls => fail .noContent ls
  | fuel + 1, block, indentless, ls =>
    match ls with
    | ⟨.alias name, m, _⟩ :: ls => .ok (.alias m name, ls)
    | _ => do
      let (head, ls) ← readHead handles ls
      match ls with
      | ⟨.scalar text style, _, _⟩ :: ls => .ok (.scalar (Head.ofWritten head) text style, ls)
      | ⟨.flowSequenceStart, _, _⟩ :: ls =>
        let (items, ls) ← readFlowItems handles fuel true ls
        .ok (.sequence head items, ls)
      | ⟨.flowMappingStart, _, _⟩ :: ls =>
        let (entries, ls) ← readFlowEntries handles fuel true ls
        .ok (.mapping head entries, ls)
      | l :: rest =>
        if indentless ∧ l.token = .blockEntry then
          let (items, ls) ← readIndentlessItems handles fuel ls
          .ok (.sequence head items, ls)
        else if block ∧ l.token = .blockSequenceStart then
          let (items, ls) ← readBlockItems handles fuel rest
          .ok (.sequence head items, ls)
        else if block ∧ l.token = .blockMappingStart then
          let (entries, ls) ← readBlockEntries handles fuel rest
          .ok (.mapping head entries, ls)
        else if head.anchor.isSome ∨ head.tag.isSome then
          .ok (.scalar head [] .plain, ls)
        else
          fail .noContent ls
      | [] => fail .noContent ls

/-- Reads a node, or sees that it is left out because one of the given tokens comes first. -/
def readUnless (handles : Handles) :
    (fuel : Nat) → (block indentless : Bool) → (stops : List Token) → (absentAt : Mark) → Ahead →
      Except Fault (Named × Ahead)
  | 0, _, _, _, _, ls => fail .noContent ls
  | fuel + 1, block, indentless, stops, m, ls =>
    if ahead ls ∈ stops then .ok (absent m, ls) else readNode handles fuel block indentless ls

def readBlockItems (handles : Handles) :
    (fuel : Nat) → Ahead → Except Fault (List Named × Ahead)
  | 0, ls => fail .noDash ls
  | fuel + 1, ls =>
    match ls with
    | ⟨.blockEntry, _, m⟩ :: ls => do
      let (n, ls) ← readUnless handles fuel true false [.blockEntry, .blockEnd] m ls
      let (ns, ls) ← readBlockItems handles fuel ls
      .ok (n :: ns, ls)
    | ⟨.blockEnd, _, _⟩ :: ls => .ok ([], ls)
    | ls => fail .noDash ls

/-- Reads the items of a sequence without indentation. It ends with the first token that is no dash. -/
def readIndentlessItems (handles : Handles) :
    (fuel : Nat) → Ahead → Except Fault (List Named × Ahead)
  | 0, ls => fail .noDash ls
  | fuel + 1, ls =>
    match ls with
    | ⟨.blockEntry, _, m⟩ :: ls => do
      let (n, ls) ← readUnless handles fuel true false [.blockEntry, .key, .value, .blockEnd] m ls
      let (ns, ls) ← readIndentlessItems handles fuel ls
      .ok (n :: ns, ls)
    | ls => .ok ([], ls)

def readBlockEntries (handles : Handles) :
    (fuel : Nat) → Ahead → Except Fault (List (Named × Named) × Ahead)
  | 0, ls => fail .noKey ls
  | fuel + 1, ls =>
    match ls with
    | ⟨.key, _, m⟩ :: ls => do
      let (k, ls) ← readUnless handles fuel true true [.key, .value, .blockEnd] m ls
      let (v, ls) ←
        match ls with
        | ⟨.value, _, m⟩ :: ls => readUnless handles fuel true true [.key, .value, .blockEnd] m ls
        | ls => .ok (absent (here ls), ls)
      let (es, ls) ← readBlockEntries handles fuel ls
      .ok ((k, v) :: es, ls)
    | ⟨.blockEnd, _, _⟩ :: ls => .ok ([], ls)
    | ls => fail .noKey ls

/-- Reads the items of a flow sequence up to its end. An item may be a single entry of a mapping. -/
def readFlowItems (handles : Handles) :
    (fuel : Nat) → (first : Bool) → Ahead → Except Fault (List Named × Ahead)
  | 0, _, ls => fail .noSequenceComma ls
  | fuel + 1, first, ls =>
    match ls with
    | ⟨.flowSequenceEnd, _, _⟩ :: ls => .ok ([], ls)
    | _ => do
      let ls ← match first, ls with
        | true, ls => .ok ls
        | false, ⟨.flowEntry, _, _⟩ :: ls => .ok ls
        | false, ls => fail .noSequenceComma ls
      match ls with
      | ⟨.flowSequenceEnd, _, _⟩ :: ls => .ok ([], ls)
      | ⟨.key, m, _⟩ :: ls =>
        let (e, ls) ← readFlowPair handles fuel ls
        let (ns, ls) ← readFlowItems handles fuel false ls
        .ok (.mapping ⟨m, none, none⟩ [e] :: ns, ls)
      | ls =>
        let (n, ls) ← readNode handles fuel false false ls
        let (ns, ls) ← readFlowItems handles fuel false ls
        .ok (n :: ns, ls)

/-- Reads the single entry of a mapping inside a flow sequence. The token that stands in place of its
key is passed over. -/
def readFlowPair (handles : Handles) :
    (fuel : Nat) → Ahead → Except Fault ((Named × Named) × Ahead)
  | 0, ls => fail .noSequenceComma ls
  | fuel + 1, ls => do
    let (k, ls) ←
      if ahead ls ∈ [Token.value, .flowEntry, .flowSequenceEnd] then
        .ok (absent (behind ls), ls.drop 1)
      else
        readNode handles fuel false false ls
    let (v, ls) ←
      match ls with
      | ⟨.value, _, _⟩ :: ls =>
        readUnless handles fuel false false [.flowEntry, .flowSequenceEnd] (here ls) ls
      | ls => .ok (absent (here ls), ls)
    .ok ((k, v), ls)

/-- Reads the entries of a flow mapping up to its end. A key may stand without a value. -/
def readFlowEntries (handles : Handles) :
    (fuel : Nat) → (first : Bool) → Ahead → Except Fault (List (Named × Named) × Ahead)
  | 0, _, ls => fail .noMappingComma ls
  | fuel + 1, first, ls =>
    match ls with
    | ⟨.flowMappingEnd, _, _⟩ :: ls => .ok ([], ls)
    | _ => do
      let ls ← match first, ls with
        | true, ls => .ok ls
        | false, ⟨.flowEntry, _, _⟩ :: ls => .ok ls
        | false, ls => fail .noMappingComma ls
      match ls with
      | ⟨.flowMappingEnd, _, _⟩ :: ls => .ok ([], ls)
      | ⟨.key, _, _⟩ :: ls =>
        let (k, ls) ←
          readUnless handles fuel false false [.value, .flowEntry, .flowMappingEnd] (here ls) ls
        let (v, ls) ←
          match ls with
          | ⟨.value, _, _⟩ :: ls =>
            readUnless handles fuel false false [.flowEntry, .flowMappingEnd] (here ls) ls
          | ls => .ok (absent (here ls), ls)
        let (es, ls) ← readFlowEntries handles fuel false ls
        .ok ((k, v) :: es, ls)
      | ls =>
        let (k, ls) ← readNode handles fuel false false ls
        let v := absent (here ls)
        let (es, ls) ← readFlowEntries handles fuel false ls
        .ok ((k, v) :: es, ls)

end

end Node

end QualityGate.Yaml
