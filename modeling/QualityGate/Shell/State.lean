import QualityGate.FileTree
import QualityGate.Shell.Command

/-! # The state of a shell

A shell has a directory, variables, functions, parameters and descriptors of its own, of which a
subshell gets a copy. Files, pipes and the clock are shared. The clock counts microseconds and only
moves by what commands are known to take, so a run has one outcome. -/

namespace QualityGate.Shell

inductive Channel where
  /-- Nothing comes from it, and what goes there is lost. -/
  | void
  /-- What was written and not yet read, the last piece first, and the bytes that follow it again and
  again, if there are any. -/
  | pipe (pieces : List Bytes) (endless : Bytes)
  /-- A place in a file. -/
  | file (names : List String) (offset : Nat) (appends : Bool)
  deriving Repr, Inhabited

/-- Why a command does not go on with the next one. -/
inductive Leave where
  | breakLoop (depth : Nat)
  | continueLoop (depth : Nat)
  | returned
  | exited
  | killed (signal : String)
  | timedOut
  deriving DecidableEq, Repr

/-- A variable: its value, if it has one, and its marks. -/
structure Variable where
  value : Option Bytes
  isExported : Bool
  isReadonly : Bool
  deriving Repr, Inhabited

structure Options where
  /-- A command that fails ends the shell. -/
  errexit : Bool
  /-- To use a variable that is not set is an error. -/
  nounset : Bool
  /-- Commands are told before they run. -/
  xtrace : Bool
  /-- Patterns are not replaced by file names. -/
  noglob : Bool
  deriving Repr, Inhabited

/-- What a shell has of its own. -/
structure Own where
  directory : List String
  bindings : List (List Char × Variable)
  functions : List (List Char × Command)
  name : Bytes
  parameters : List Bytes
  status : Nat
  /-- The channel of each open descriptor. -/
  descriptors : List (Nat × Nat)
  options : Options
  traps : List (String × Bytes)
  line : Nat
  /-- The command of the shell that is being run, by which its errors are named. -/
  caller : String
  /-- The status of the last command substitution. -/
  substituted : Nat
  /-- The variables that the running functions made local, with what they were before. -/
  locals : List (List (List Char × Option Variable))
  /-- How many functions, substitutions and texts are being run inside each other. -/
  depth : Nat
  loops : Nat
  /-- Whether a failure is asked for here, and so ends nothing. -/
  isTested : Bool
  deriving Inhabited

structure Shared where
  files : FileTree
  channels : Array Channel
  clock : Nat
  deadline : Nat
  /-- When the last command in the background ends, and with which status. -/
  background : Option (Nat × Nat)
  deriving Inhabited

structure State where
  own : Own
  shared : Shared
  deriving Inhabited

abbrev Act (α : Type) := ExceptT Leave (StateM State) α

namespace Act

def modifyOwn (f : Own → Own) : Act Unit := modify fun s => { s with own := f s.own }

def modifyShared (f : Shared → Shared) : Act Unit := modify fun s => { s with shared := f s.shared }

def own : Act Own := return (← get).own

def shared : Act Shared := return (← get).shared

def setStatus (n : Nat) : Act Unit := modifyOwn ({ · with status := n % 256 })

def exit {α : Type} (n : Nat) : Act α := do
  setStatus n
  throw .exited

/-- Lets time pass. A run whose time is used up ends at once. -/
def pass (microseconds : Nat) : Act Unit := do
  modifyShared fun h => { h with clock := h.clock + microseconds }
  let h ← shared
  if h.deadline ≤ h.clock then throw .timedOut

/-- Runs an action and tells how it was left. -/
def attempt {α : Type} (a : Act α) : Act (Except Leave α) :=
  ExceptT.mk fun s =>
    let (r, s) := a.run s
    (.ok r, s)

/-- Runs an action in a subshell, which keeps all it has of its own to itself. The end of the
subshell is not the end of the shell. -/
def inSubshell (a : Act Unit) : Act Unit := do
  let before ← own
  modifyOwn fun o => { o with traps := [], loops := 0 }
  let r ← attempt a
  let status := (← own).status
  modifyOwn fun _ => { before with status }
  match r with
  | .error (.killed signal) => throw (.killed signal)
  | .error .timedOut => throw .timedOut
  | _ => return ()

/-! ### Channels -/

def newChannel (c : Channel) : Act Nat := do
  let n := (← shared).channels.size
  modifyShared fun h => { h with channels := h.channels.push c }
  return n

/-- The channel of a descriptor, with its number. -/
def channel? (descriptor : Nat) : Act (Option (Nat × Channel)) := do
  let s ← get
  match s.own.descriptors.lookup descriptor with
  | some n => return (s.shared.channels[n]?).map (n, ·)
  | none => return none

def setChannel (n : Nat) (c : Channel) : Act Unit :=
  modifyShared fun h => { h with channels := h.channels.setIfInBounds n c }

/-- Joins a descriptor to a channel, or closes it. -/
def join (descriptor : Nat) (n : Option Nat) : Act Unit :=
  modifyOwn fun o =>
    let others := o.descriptors.filter fun d => d.1 ≠ descriptor
    { o with descriptors := (n.map (descriptor, ·)).toList ++ others }

def patch (content : Bytes) (offset : Nat) (s : Bytes) : Bytes :=
  let before := content.take offset
  before ++ List.replicate (offset - before.length) 0 ++ s ++ content.drop (offset + s.length)

/-- Writes to a descriptor. Tells whether it is open. -/
def write (descriptor : Nat) (s : Bytes) : Act Bool := do
  match ← channel? descriptor with
  | none => return false
  | some (_, .void) => return true
  | some (n, .pipe pieces endless) =>
    setChannel n (.pipe (s :: pieces) endless)
    return true
  | some (n, .file names offset appends) =>
    match (← shared).files.get? names with
    | some (.file content) =>
      let offset := if appends then content.length else offset
      modifyShared fun h =>
        { h with files := h.files.set names (some (.file (patch content offset s))) }
      setChannel n (.file names (offset + s.length) appends)
      return true
    | _ => return true

def print (s : String) : Act Unit := discard (write 1 (Bytes.ofString s))

def complain (s : String) : Act Unit := discard (write 2 (Bytes.ofString s))

/-- What there is to read. -/
structure Source where
  bytes : Bytes
  endless : Bytes

/-- Takes all there is to read from a descriptor. -/
def readAll (descriptor : Nat) : Act (Except FileError Source) := do
  match ← channel? descriptor with
  | none => return .error .badDescriptor
  | some (_, .void) => return .ok ⟨[], []⟩
  | some (n, .pipe pieces endless) =>
    setChannel n (.pipe [] endless)
    return .ok ⟨pieces.reverse.flatten, endless⟩
  | some (n, .file names offset appends) =>
    match (← shared).files.get? names with
    | some (.file content) =>
      setChannel n (.file names (max offset content.length) appends)
      return .ok ⟨content.drop offset, []⟩
    | some (.directory _) => return .error .isDirectory
    | none => return .ok ⟨[], []⟩

/-- Gives back bytes that were read from a file. Out of a pipe they are gone. -/
def unread (descriptor : Nat) (s : Bytes) : Act Unit := do
  match ← channel? descriptor with
  | some (n, .file names offset appends) => setChannel n (.file names (offset - s.length) appends)
  | _ => return ()

/-- Takes a line from a descriptor, with its end if it has one. -/
def readLine (descriptor : Nat) : Act (Except FileError Bytes) := do
  match ← readAll descriptor with
  | .error e => return .error e
  | .ok source =>
    let whole := source.bytes ++ source.endless
    let line := whole.takeWhile (· ≠ 10)
    let taken := whole.take (line.length + 1)
    let rest := source.bytes.drop taken.length
    match ← channel? descriptor with
    | some (n, .pipe _ endless) => setChannel n (.pipe [rest] endless)
    | _ => unread descriptor rest
    return .ok taken

/-- Goes on for ever, so the time is used up. -/
def forever {α : Type} : Act α := do
  pass (← shared).deadline
  throw .timedOut

/-- How many channels the run itself is joined to. What is written there is waited for to its end. -/
def ownChannels : Nat := 2

/-- Writes some bytes and then others again and again. It comes to an end only in front of a reader
that does not take everything. -/
def writeSource (descriptor : Nat) (s : Source) : Act Unit := do
  discard (write descriptor s.bytes)
  if s.endless ≠ [] then
    match ← channel? descriptor with
    | some (n, .pipe pieces _) =>
      if n < ownChannels then forever else setChannel n (.pipe pieces s.endless)
    | _ => forever

end Act

end QualityGate.Shell
