import QualityGate.Yaml.Node

/-! # YAML documents

A text holds at most one document here. Its aliases are bound to slots: an anchor takes the slot whose
number is the count of names that are anchors so far, an alias means the slot that its name has when
the alias is read, and a slot holds the last node that took it. -/

namespace QualityGate.Yaml

open Node (Named Ahead Handles)

/-! ### The root -/

structure Directives where
  version : Option (Nat × Nat)
  handles : Handles

/-- Reads directives. A version or a handle is given once, and the version is 1.1 or 1.2. -/
def readDirectives : Directives → Ahead → Except Fault (Directives × Ahead)
  | ds, ⟨.directive (.version major minor), m, _⟩ :: ls =>
    if ds.version.isSome then .error ⟨.repeatedVersion, m⟩
    else if major = 1 ∧ (minor = 1 ∨ minor = 2) then
      readDirectives { ds with version := some (major, minor) } ls
    else .error ⟨.badVersion, m⟩
  | ds, ⟨.directive (.tag handle stem), m, _⟩ :: ls =>
    if (ds.handles.lookup handle).isSome then .error ⟨.repeatedHandle, m⟩
    else readDirectives { ds with handles := (handle, stem) :: ds.handles } ls
  | ds, ls => .ok (ds, ls)

/-- As much fuel as any node in the lexemes needs: each call but one in three takes a lexeme. -/
def fuelFor (ls : Ahead) : Nat := 3 * ls.length + 3

/-- Reads a document behind its sign. It may be empty. -/
def readContent (handles : Handles) (ls : Ahead) : Except Fault (Named × Ahead) :=
  match ls with
  | ⟨.directive _, m, _⟩ :: _ => .ok (.absent m, ls)
  | ⟨.documentStart, m, _⟩ :: _ => .ok (.absent m, ls)
  | ⟨.documentEnd, m, _⟩ :: _ => .ok (.absent m, ls)
  | ⟨.streamEnd, m, _⟩ :: _ => .ok (.absent m, ls)
  | ls => Node.readNode handles (fuelFor ls) true false ls

/-- Reads the first document, if there is one. Only a document with directives needs its sign. -/
def readFirst (ls : Ahead) : Except Fault (Option Named × Ahead) := do
  match ls with
  | ⟨.streamEnd, _, _⟩ :: _ => .ok (none, ls)
  | ⟨.directive _, _, _⟩ :: _ | ⟨.documentStart, _, _⟩ :: _ =>
    let (ds, ls) ← readDirectives ⟨none, []⟩ ls
    match ls with
    | ⟨.documentStart, _, _⟩ :: ls =>
      let (n, ls) ← readContent (ds.handles ++ Node.defaultHandles) ls
      .ok (some n, ls)
    | ls => Node.fail .noDocumentStart ls
  | ls =>
    let (n, ls) ← Node.readNode Node.defaultHandles (fuelFor ls) true false ls
    .ok (some n, ls)

def skipDocumentEnds (ls : Ahead) : Ahead :=
  ls.dropWhile (·.token = .documentEnd)

/-- The root of the only document of a text, if there is one. -/
def readRoot (s : List Char) : Except Fault (Option Named) := do
  let ls ← lexemes s
  let (root, ls) ← readFirst ls
  match skipDocumentEnds ls with
  | ⟨.streamEnd, _, _⟩ :: _ => .ok root
  | ls => Node.fail .severalDocuments ls

/-! ### Aliases -/

abbrev Node.Bound := Node Nat

/-- The binding of anchors at work: the slot of each name, how many anchors were met, and the nodes
that took a slot, each with its turn. -/
structure Binder where
  names : List (List Char × Nat)
  turns : Nat
  stored : List (Nat × Nat × Node.Bound)

namespace Binder

def empty : Binder := ⟨[], 0, []⟩

/-- Gives a slot and a turn to an anchor. -/
def meet (b : Binder) (name : List Char) : (Nat × Nat) × Binder :=
  let slot := b.names.length
  let names :=
    if (b.names.lookup name).isSome then
      b.names.map fun (n, s) => if n = name then (n, slot) else (n, s)
    else
      (name, slot) :: b.names
  ((slot, b.turns), { b with names := names, turns := b.turns + 1 })

def meetHead (b : Binder) (h : Head) : Option (Nat × Nat) × Binder :=
  match h.anchor with
  | some name =>
    let (p, b) := b.meet name
    (some p, b)
  | none => (none, b)

/-- Stores a node in the slot that it took. -/
def store (b : Binder) (place : Option (Nat × Nat)) (n : Node.Bound) : Binder :=
  match place with
  | some (slot, turn) => { b with stored := (slot, turn, n) :: b.stored }
  | none => b

/-- The node of a slot: the one with the last turn. -/
def last (slot : Nat) : List (Nat × Nat × Node.Bound) → Option (Nat × Node.Bound)
  | [] => none
  | (s, turn, n) :: rest =>
    match last slot rest with
    | some (t, m) => if s = slot ∧ t < turn then some (turn, n) else some (t, m)
    | none => if s = slot then some (turn, n) else none

end Binder

mutual

def bindNode (b : Binder) : Named → Except Fault (Node.Bound × Binder)
  | .scalar head text style =>
    let (place, b) := b.meetHead head
    let n := .scalar head text style
    .ok (n, b.store place n)
  | .sequence head items => do
    let (place, b) := b.meetHead head
    let (items, b) ← bindItems b items
    let n := .sequence head items
    .ok (n, b.store place n)
  | .mapping head entries => do
    let (place, b) := b.meetHead head
    let (entries, b) ← bindEntries b entries
    let n := .mapping head entries
    .ok (n, b.store place n)
  | .alias m name =>
    match b.names.lookup name with
    | some slot => .ok (.alias m slot, b)
    | none => .error ⟨.unknownAnchor, m⟩

def bindItems (b : Binder) : List Named → Except Fault (List Node.Bound × Binder)
  | [] => .ok ([], b)
  | n :: ns => do
    let (n, b) ← bindNode b n
    let (ns, b) ← bindItems b ns
    .ok (n :: ns, b)

def bindEntries (b : Binder) :
    List (Named × Named) → Except Fault (List (Node.Bound × Node.Bound) × Binder)
  | [] => .ok ([], b)
  | (k, v) :: es => do
    let (k, b) ← bindNode b k
    let (v, b) ← bindNode b v
    let (es, b) ← bindEntries b es
    .ok ((k, v) :: es, b)

end

/-- A text that is read: its root, if it has one, and the nodes of the slots. -/
structure Document where
  root : Option Node.Bound
  stored : List (Nat × Nat × Node.Bound)

namespace Document

/-- The node that an alias to a slot means. -/
def target? (d : Document) (slot : Nat) : Option Node.Bound :=
  (Binder.last slot d.stored).map (·.2)

def read (s : List Char) : Except Fault Document := do
  match ← readRoot s with
  | none => .ok ⟨none, []⟩
  | some root =>
    let (root, b) ← bindNode .empty root
    .ok ⟨some root, b.stored⟩

end Document

end QualityGate.Yaml
