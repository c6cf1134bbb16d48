import QualityGate.Decimal.Shortest
import QualityGate.Text.Quoted
import QualityGate.Yaml.Document
import QualityGate.Yaml.Plain

/-! # Shapes of documents

Readers for documents of which it is known what they should hold: texts, numbers, lists, mappings with
fixed fields. A fault says what was found, what was expected, at which place of the document and where
in the text. A node that is left out counts as an empty list or mapping, but a word for nothing does
not. -/

namespace QualityGate.Yaml

/-- A place in a document. A key that is no scalar of its own has no name. -/
inductive Place where
  | root
  | item (parent : Place) (index : Nat)
  | member (parent : Place) (name : String)
  | nameless (parent : Place)
  deriving DecidableEq, Repr

namespace Place

def describe : Place → String
  | root => "."
  | item p i => s!"{p.describe}[{i}]"
  | member root name => name
  | member p name => s!"{p.describe}.{name}"
  | nameless root => "?"
  | nameless p => s!"{p.describe}.?"

end Place

inductive Misfit where
  | wrongType (found expected : String)
  | wrongValue (found expected : String)
  | unknownField (name : String) (fields : List String)
  | repeatedField (name : String)
  deriving DecidableEq, Repr

def alternatives : List String → String
  | [a, b] => s!"expected `{a}` or `{b}`"
  | names => "expected one of " ++ ", ".intercalate (names.map fun n => s!"`{n}`")

def Misfit.message : Misfit → String
  | wrongType found expected => s!"invalid type: {found}, expected {expected}"
  | wrongValue found expected => s!"invalid value: {found}, expected {expected}"
  | unknownField name fields => s!"unknown field `{name}`, {alternatives fields}"
  | repeatedField name => s!"duplicate field `{name}`"

structure ShapeFault where
  place : Place
  mark : Mark
  misfit : Misfit
  deriving DecidableEq, Repr

/-- The fault in words. The root has no place worth mentioning, and neither has the start of the
text. -/
def ShapeFault.message (f : ShapeFault) : String :=
  let text := f.misfit.message
  let text := if f.place = .root then text else s!"{f.place.describe}: {text}"
  if f.mark.line = 0 ∧ f.mark.column = 0 then text else s!"{text} at {f.mark.describe}"

abbrev Shaped (α : Type) := Except ShapeFault α

namespace Shape

/-- The node that a node means: itself, or the target of an alias. -/
def follow (d : Document) (n : Node.Bound) : Node.Bound :=
  match n with
  | .alias _ slot => (d.target? slot).getD n
  | n => n

def markOf : Node.Bound → Mark
  | .scalar h _ _ => h.mark
  | .sequence h _ => h.mark
  | .mapping h _ => h.mark
  | .alias m _ => m

def describe : Plain → String
  | .null => "unit value"
  | .bool b => s!"boolean `{b}`"
  | .int n => s!"integer `{n}`"
  | .float x => s!"floating point `{Decimal.render x}`"
  | .text s => s!"string {Text.quoted (String.ofList s)}"

/-- The misfit of a node where something else is expected. -/
def misfit (expected : String) : Node.Bound → Misfit
  | .sequence _ _ => .wrongType "sequence" expected
  | .mapping _ _ => .wrongType "map" expected
  | .alias _ _ => .wrongType "alias" expected
  | .scalar h s style =>
    match scalarMeaning h.tag style s with
    | .ok p => .wrongType (describe p) expected
    | .error t => .wrongValue (describe (.text s)) t.describe

def refuse {α : Type} (place : Place) (expected : String) (n : Node.Bound) : Shaped α :=
  .error ⟨place, markOf n, misfit expected n⟩

/-- Whether a node is left out, or may as well be. -/
def isLeftOut : Node.Bound → Bool
  | .scalar _ s style => s = [] && style = .plain
  | _ => false

/-! ### Readers -/

/-- Reads a text; any scalar is one, as it is written. -/
def text (d : Document) (place : Place) (n : Node.Bound) : Shaped String :=
  match follow d n with
  | .scalar _ s _ => .ok (String.ofList s)
  | n => refuse place "a string" n

/-- Reads a whole number of 64 bits that is not below zero. -/
def natural (d : Document) (place : Place) (n : Node.Bound) : Shaped Nat :=
  let n := follow d n
  match n with
  | .scalar h s style =>
    let asked := style = .literal ∧ (h.tag.bind CoreTag.ofName?) = some .int
    match (Plain.natural? s).filter (· < Nat.pow 2 64) with
    | some v => if style = .plain ∨ asked then .ok v else refuse place "u64" n
    | none => refuse place "u64" n
  | n => refuse place "u64" n

/-- Reads what may be absent: a plain scalar for nothing means that it is. -/
def optional {α : Type} (read : Place → Node.Bound → Shaped α) (d : Document) (place : Place)
    (n : Node.Bound) : Shaped (Option α) :=
  match follow d n with
  | .scalar h s .plain =>
    match h.tag with
    | none => if s = [] ∨ Plain.isNull s then .ok none else (read place n).map some
    | some t =>
      if CoreTag.ofName? t = some .null then
        if Plain.isNull s then .ok none
        else .error ⟨place, h.mark, .wrongValue (describe (.text s)) CoreTag.null.describe⟩
      else
        (read place n).map some
  | _ => (read place n).map some

/-- Reads the items of a list, the first of which has the given number. -/
def itemsFrom {α : Type} (read : Place → Node.Bound → Shaped α) (place : Place) :
    Nat → List Node.Bound → Shaped (List α)
  | _, [] => .ok []
  | i, n :: ns => do
    let x ← read (.item place i) n
    let xs ← itemsFrom read place (i + 1) ns
    .ok (x :: xs)

def list {α : Type} (read : Place → Node.Bound → Shaped α) (d : Document) (place : Place)
    (n : Node.Bound) : Shaped (List α) :=
  match follow d n with
  | .sequence _ items => itemsFrom read place 0 items
  | n => if isLeftOut n then .ok [] else refuse place "a sequence" n

/-- The entries of a mapping; the root of an empty text has none. -/
def entries (d : Document) (place : Place) (expected : String) (n : Node.Bound) :
    Shaped (List (Node.Bound × Node.Bound)) :=
  match follow d n with
  | .mapping _ es => .ok es
  | n => if isLeftOut n then .ok [] else refuse place expected n

def key (d : Document) (place : Place) (expected : String) (n : Node.Bound) : Shaped String :=
  match follow d n with
  | .scalar _ s _ => .ok (String.ofList s)
  | n => refuse place expected n

def placeOf (place : Place) : Node.Bound → Place
  | .scalar _ s _ => .member place (String.ofList s)
  | _ => .nameless place

def table {α : Type} (read : Place → Node.Bound → Shaped α) (d : Document) (place : Place)
    (n : Node.Bound) : Shaped (List (String × α)) := do
  let es ← entries d place "a map" n
  es.mapM fun (k, v) => do
    let name ← key d place "a string" k
    let x ← read (placeOf place k) v
    .ok (name, x)

/-- Reads the fields of a mapping one by one into what is read so far. `read` takes the value of a
field, if the field is known; none is given twice. -/
def readFields {α : Type} (d : Document) (place : Place) (start : Mark) (fields : List String)
    (read : String → Option (α → Place → Node.Bound → Shaped α)) :
    (seen : List String) → α → List (Node.Bound × Node.Bound) → Shaped α
  | _, x, [] => .ok x
  | seen, x, (k, v) :: es => do
    let name ← key d place "field identifier" k
    match read name with
    | none => .error ⟨place, markOf (follow d k), .unknownField name fields⟩
    | some field =>
      if name ∈ seen then
        .error ⟨place, start, .repeatedField name⟩
      else
        let x ← field x (placeOf place k) v
        readFields d place start fields read (name :: seen) x es

/-- Reads a mapping with the given fields, each of which may be missing. -/
def record {α : Type} (name : String) (fields : List String) (blank : α)
    (read : String → Option (α → Place → Node.Bound → Shaped α)) (d : Document) (place : Place)
    (n : Node.Bound) : Shaped α := do
  let es ← entries d place s!"struct {name}" n
  readFields d place (markOf (follow d n)) fields read [] blank es

end Shape

end QualityGate.Yaml
