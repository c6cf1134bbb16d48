import QualityGate.Shell.Tool

/-! # Programs on files

Programs that list, make, copy, move and remove files and directories. Each complains about what it
cannot do and goes on with the next operand. -/

namespace QualityGate.Shell.Tool

/-- What a path names, and whether something is there. -/
def place (path : String) : Act (Except FileError FileTree.Place) := do
  let s ← get
  return s.shared.files.locate s.own.directory path

def put (names : List String) (t : Option FileTree) : Act Unit :=
  Act.modifyShared fun h => { h with files := h.files.set names t }

def treeAt (path : String) : Act (Except FileError FileTree) := do
  let s ← get
  return s.shared.files.find s.own.directory path

def lastName (path : String) : String :=
  ((Path.components path.toList).getLast?.map String.ofList).getD path

/-- Does something for each operand; the status is one if it failed for any. -/
def forOperands (operands : List Bytes) (f : String → Act Bool) : Act Nat := do
  let mut status := 0
  for path in operands do
    if ! (← f path.toStringLossy) then status := 1
  return status

def touch : Tool := fun arguments => do
  let (os, operands) := optionsOf "drt" arguments
  if operands = [] then refuse "touch" "missing file operand" 1
  else
    forOperands operands fun path => do
      match ← place path with
      | .error e =>
        complain "touch" s!"cannot touch '{path}': {e.reason}"
        return false
      | .ok ⟨names, none⟩ =>
        if os.any fun o => o.1 = 'c' then return true
        else if Path.namesDirectory path then
          complain "touch" s!"setting times of '{path}': {FileError.notFound.reason}"
          return false
        else
          put names (some (.file []))
          return true
      | .ok _ => return true

/-- The paths from the top part down to a whole path. -/
def ancestry (path : String) : List String :=
  let start := if Path.isAbsolute path then "/" else ""
  let parts := (Path.components path.toList).map String.ofList
  (List.range parts.length).map fun n => start ++ "/".intercalate (parts.take (n + 1))

def mkdir : Tool := fun arguments => do
  let (os, operands) := optionsOf "m" arguments
  let make (path : String) (mayExist : Bool) : Act Bool := do
    match ← place path with
    | .error e =>
      complain "mkdir" s!"cannot create directory '{path}': {e.reason}"
      return false
    | .ok ⟨names, none⟩ =>
      put names (some .empty)
      return true
    | .ok ⟨_, some t⟩ =>
      if mayExist ∧ t.isDirectory then return true
      else
        complain "mkdir" s!"cannot create directory '{path}': {FileError.fileExists.reason}"
        return false
  if operands = [] then refuse "mkdir" "missing operand" 1
  else if os.any fun o => o.1 = 'p' then
    forOperands operands fun path => (ancestry path).allM fun p => make p true
  else forOperands operands fun path => make path false

def rmdir : Tool := fun arguments => do
  let (_, operands) := optionsOf "" arguments
  if operands = [] then refuse "rmdir" "missing operand" 1
  else
    forOperands operands fun path => do
      let refuseFor (e : FileError) : Act Bool := do
        complain "rmdir" s!"failed to remove '{path}': {e.reason}"
        return false
      match ← place path with
      | .error e => refuseFor e
      | .ok ⟨_, none⟩ => refuseFor .notFound
      | .ok ⟨_, some (.file _)⟩ => refuseFor .notDirectory
      | .ok ⟨names, some (.directory [])⟩ =>
        put names none
        return true
      | .ok ⟨_, some (.directory _)⟩ => refuseFor .notEmpty

def rm : Tool := fun arguments => do
  let (os, operands) := optionsOf "" arguments
  let has (c : Char) : Bool := os.any fun o => o.1 = c
  let force := has 'f'
  if operands = [] then
    if force then return 0 else refuse "rm" "missing operand" 1
  else
    forOperands operands fun path => do
      let refuseFor (e : FileError) : Act Bool := do
        complain "rm" s!"cannot remove '{path}': {e.reason}"
        return false
      match ← place path with
      | .error e => if force then return true else refuseFor e
      | .ok ⟨_, none⟩ => if force then return true else refuseFor .notFound
      | .ok ⟨names, some t⟩ =>
        if t.isDirectory ∧ ! (has 'r' || has 'R') then refuseFor .isDirectory
        else
          put names none
          return true

/-- The place that something is copied or moved to: a directory takes it under its own name. -/
def destination (target source : String) : Act (Except FileError FileTree.Place) := do
  match ← place target with
  | .ok ⟨names, some (.directory es)⟩ =>
    let name := lastName source
    return .ok ⟨names ++ [name], (FileTree.directory es).child? name⟩
  | r => return r

def transfer (name : String) (moves : Bool) : Tool := fun arguments => do
  let (os, operands) := optionsOf "t" arguments
  let deep := moves ∨ os.any fun o => o.1 = 'r' ∨ o.1 = 'R' ∨ o.1 = 'a'
  match operands with
  | [] => refuse name "missing file operand" 1
  | [a] => refuse name s!"missing destination file operand after '{a.toStringLossy}'" 1
  | operands =>
    let target := (operands.getLast?.getD []).toStringLossy
    let sources := operands.dropLast
    let targetIsDirectory := match ← treeAt target with
      | .ok t => t.isDirectory
      | .error _ => false
    if 1 < sources.length ∧ ! targetIsDirectory then
      complain name s!"target '{target}': {FileError.notFound.reason}"
      return 1
    else
      forOperands sources fun source => do
        match ← place source with
        | .error e =>
          complain name s!"cannot stat '{source}': {e.reason}"
          return false
        | .ok ⟨_, none⟩ =>
          complain name s!"cannot stat '{source}': {FileError.notFound.reason}"
          return false
        | .ok ⟨old, some t⟩ =>
          if t.isDirectory ∧ ! deep then
            complain name s!"-r not specified; omitting directory '{source}'"
            return false
          else
            match ← destination target source with
            | .error e =>
              complain name s!"cannot create regular file '{target}': {e.reason}"
              return false
            | .ok ⟨new, _⟩ =>
              if new = old then
                complain name s!"'{source}' and '{target}' are the same file"
                return false
              else
                if moves then put old none
                put new (some t)
                return true

def cp : Tool := transfer "cp" false

def mv : Tool := transfer "mv" true

/-- The names in a directory, in increasing order, with those that start with a dot if they are asked
for, and with the directory itself and the one around it. -/
def listing (hidden : Option Bool) (t : FileTree) : List String :=
  match t with
  | .file _ => []
  | .directory es =>
    let names : List String := es.map Prod.fst
    let shown : List String := match hidden with
      | none => names.filter fun (n : String) => n.toList.head? ≠ some '.'
      | some true => "." :: ".." :: names
      | some false => names
    shown.mergeSort fun a b => ! decide (Bytes.ofString b < Bytes.ofString a)

def ls : Tool := fun arguments => do
  let (os, operands) := optionsOf "" arguments
  let has (c : Char) : Bool := os.any fun o => o.1 = c
  let hidden := if has 'a' then some true else if has 'A' then some false else none
  let paths := if operands = [] then ["."] else operands.map Bytes.toStringLossy
  let paths := paths.mergeSort fun a b => ! decide (Bytes.ofString b < Bytes.ofString a)
  let mut status := 0
  let mut directories : List (String × FileTree) := []
  let mut files : List String := []
  for path in paths do
    match ← treeAt path with
    | .error e =>
      complain "ls" s!"cannot access '{path}': {e.reason}"
      status := 2
    | .ok t =>
      if t.isDirectory ∧ ! has 'd' then directories := directories ++ [(path, t)]
      else files := files ++ [path]
  for path in files do Act.print s!"{path}\n"
  let mut isFirst := files.isEmpty
  for (path, t) in directories do
    let gap := if isFirst then "" else "\n"
    if 1 < paths.length then Act.print s!"{gap}{path}:\n"
    isFirst := false
    for name in listing hidden t do Act.print s!"{name}\n"
  return status

def tee : Tool := fun arguments => do
  let (os, operands) := optionsOf "" arguments
  let appends := os.any fun o => o.1 = 'a'
  match ← operand [45] with
  | .error e =>
    complain "tee" s!"read error: {e.reason}"
    return 1
  | .ok s =>
    let text ← whole s
    discard (Act.write 1 text)
    forOperands operands fun path => do
      let h ← get
      let before := match h.shared.files.bytesAt h.own.directory path with
        | .ok content => if appends then content else []
        | .error _ => []
      match h.shared.files.write h.own.directory path (before ++ text) with
      | .ok files =>
        Act.modifyShared ({ · with files })
        return true
      | .error e =>
        complain "tee" s!"{path}: {e.reason}"
        return false

def basename : Tool := fun arguments => do
  match arguments.map Bytes.toStringLossy with
  | [] => refuse "basename" "missing operand" 1
  | [path] =>
    Act.print (short path ++ "\n")
    return 0
  | [path, ending] =>
    let name := short path
    let cut := if ending ≠ name ∧ name.endsWith ending then (name.dropEnd ending.length).toString else name
    Act.print (cut ++ "\n")
    return 0
  | _ :: _ :: extra :: _ => refuse "basename" s!"extra operand '{extra}'" 1
where
  /-- The last part of a path, and a slash for the top. -/
  short (path : String) : String :=
    match ((Text.segments '/' path.toList).filter (· ≠ [])).getLast? with
    | some p => String.ofList p
    | none => if path = "" then "" else "/"

def dirname : Tool := fun arguments => do
  if arguments = [] then refuse "dirname" "missing operand" 1
  else
    for path in arguments do
      let s := path.toStringLossy.toList
      let trimmed := (s.reverse.dropWhile (· = '/')).reverse
      let above := (trimmed.reverse.dropWhile (· ≠ '/')).dropWhile (· = '/')
      let out :=
        if ! trimmed.contains '/' then (if trimmed = [] ∧ s ≠ [] then "/" else ".")
        else if above = [] then "/" else String.ofList above.reverse
      Act.print (out ++ "\n")
    return 0

end QualityGate.Shell.Tool
