/-! # Command-line arguments

A command line names a hook and gives it options. The color flag may stand on either side of the
hook's name; all other options stand behind it, each at most once. An option's value is attached with
an equals sign, or follows as an argument of its own that does not start with a hyphen; the short
option may also have it attached directly. A value is only looked at when the next option begins or
the arguments end. -/

namespace QualityGate

inductive HookName where
  | fast
  | full
  | complete
  deriving DecidableEq, Repr

/-- The hook of a name. Each has two. -/
def HookName.ofWord? : String → Option HookName
  | "fast" | "post-edit-fast" => some fast
  | "full" | "post-edit" => some full
  | "complete" | "on-complete" => some complete
  | _ => none

structure Invocation where
  hook : HookName
  root : Option String
  config : Option String
  noFormat : Bool
  color : Bool
  deriving DecidableEq, Repr

/-- Why a command line asks for no hook. Asking for help or for the version is one reason. -/
inductive UsageError where
  | help
  | version
  | nothingAsked
  | noHook
  | unknownHook
  | unknownOption
  | missingValue
  | repeatedOption
  | needlessValue
  deriving DecidableEq, Repr

/-- The exit code: asking is no error. -/
def UsageError.exit : UsageError → Nat
  | help | version => 0
  | _ => 2

namespace Arguments

/-! ### The forms of an argument -/

inductive Form where
  /-- Two hyphens alone: no options follow. -/
  | stop
  | long (name : List Char) (value : Option (List Char))
  | short (letter : Char) (rest : List Char)
  | word
  deriving DecidableEq, Repr

/-- The form of an argument. A single hyphen is a word. -/
def Form.of : List Char → Form
  | ['-', '-'] => .stop
  | '-' :: '-' :: s =>
    let name := s.takeWhile (· ≠ '=')
    match s.drop name.length with
    | _ :: value => .long name (some value)
    | [] => .long name none
  | '-' :: c :: s => .short c s
  | _ => .word

/-! ### Behind the hook's name -/

/-- The options that take a value. -/
inductive Key where
  | root
  | config
  deriving DecidableEq, Repr

/-- The options read so far. The last one that takes a value may still wait for it, or have it without
being settled. -/
structure Draft where
  root : Option String
  config : Option String
  noFormat : Bool
  color : Bool
  pending : Option (Key × Option String)
  deriving DecidableEq, Repr

namespace Draft

def empty : Draft := ⟨none, none, false, false, none⟩

/-- Gives an option its value: none twice, and no empty value. -/
def assign (d : Draft) (k : Key) (value : String) : Except UsageError Draft :=
  let given := match k with
    | .root => d.root
    | .config => d.config
  if given.isSome then .error .repeatedOption
  else if value = "" then .error .missingValue
  else
    match k with
    | .root => .ok { d with root := some value }
    | .config => .ok { d with config := some value }

/-- Settles the pending option, which must have its value. -/
def settle (d : Draft) : Except UsageError Draft :=
  match d.pending with
  | none => .ok d
  | some (_, none) => .error .missingValue
  | some (k, some value) => { d with pending := none }.assign k value

/-- Begins an option with a value, attached or not. -/
def begin (d : Draft) (k : Key) (value : Option (List Char)) : Except UsageError Draft := do
  let d ← d.settle
  match value with
  | some v => d.assign k (String.ofList v)
  | none => .ok { d with pending := some (k, none) }

def setNoFormat (d : Draft) : Except UsageError Draft := do
  let d ← d.settle
  if d.noFormat then .error .repeatedOption else .ok { d with noFormat := true }

def setColor (d : Draft) : Except UsageError Draft := do
  let d ← d.settle
  if d.color then .error .repeatedOption else .ok { d with color := true }

/-- Answers a request for help, unless an option is wrong. -/
def showHelp (d : Draft) : Except UsageError Draft := do
  let _ ← d.settle
  .error .help

def readLong (d : Draft) (name : List Char) (value : Option (List Char)) :
    Except UsageError Draft :=
  match String.ofList name, value with
  | "root", v => d.begin .root v
  | "config", v => d.begin .config v
  | "no-format", none => d.setNoFormat
  | "color", none => d.setColor
  | "help", none => d.showHelp
  | "no-format", some _ | "color", some _ | "help", some _ => .error .needlessValue
  | _, _ => .error .unknownOption

/-- Reads a short option. What is attached to it is its value, without an equals sign in front. -/
def readShort (d : Draft) (letter : Char) (rest : List Char) : Except UsageError Draft :=
  if letter = 'c' then
    match rest with
    | [] => d.begin .config none
    | '=' :: v => d.begin .config (some v)
    | v => d.begin .config (some v)
  else if letter = 'h' then d.showHelp
  else .error .unknownOption

def readWord (d : Draft) (word : String) : Except UsageError Draft :=
  match d.pending with
  | some (k, none) => .ok { d with pending := some (k, some word) }
  | _ => .error .unknownOption

def read : Draft → List String → Except UsageError Draft
  | d, [] => d.settle
  | d, a :: as =>
    match Form.of a.toList with
    | .stop => if as = [] then d.settle else .error .unknownOption
    | .long name value => do read (← d.readLong name value) as
    | .short letter rest => do read (← d.readShort letter rest) as
    | .word => do read (← d.readWord a) as

end Draft

/-! ### In front of the hook's name -/

/-- Whether a word is what a command line may ask for: a hook, or help. -/
def isAskable (word : String) : Bool :=
  (HookName.ofWord? word).isSome || word = "help"

/-- Answers a request for help about something: about at most one thing, which there must be. -/
def helpAbout : List String → UsageError
  | [] => .help
  | [w] => if isAskable w then .help else .unknownHook
  | _ => .unknownHook

def readEarly (color : Bool) : Form → Except UsageError Bool
  | .long name value =>
    match String.ofList name, value with
    | "color", none => if color then .error .repeatedOption else .ok true
    | "help", none => .error .help
    | "version", none => .error .version
    | "color", some _ | "help", some _ | "version", some _ => .error .needlessValue
    | _, _ => .error .unknownOption
  | .short 'h' _ => .error .help
  | .short 'V' _ => .error .version
  | .short _ _ => .error .unknownOption
  | .stop | .word => .error .unknownHook

/-- Reads a command line whose color flag is known so far. -/
def readFrom : (color : Bool) → List String → Except UsageError Invocation
  | color, [] => .error (if color then .noHook else .nothingAsked)
  | color, a :: as =>
    match HookName.ofWord? a with
    | some hook => do
      let d ← Draft.empty.read as
      .ok ⟨hook, d.root, d.config, d.noFormat, color || d.color⟩
    | none =>
      if a = "help" then .error (helpAbout as)
      else
        match Form.of a.toList, as with
        | .stop, [] => .error (if color then .noHook else .nothingAsked)
        | .stop, w :: _ => .error (if isAskable w then .unknownOption else .unknownHook)
        | form, as => do readFrom (← readEarly color form) as

def read (args : List String) : Except UsageError Invocation :=
  readFrom false args

end Arguments

end QualityGate
