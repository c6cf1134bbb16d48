import QualityGate.Shell.Catalogue
import QualityGate.Shell.Fields
import QualityGate.Shell.Parser
import QualityGate.Shell.Signal

/-! # Running commands

Commands act on the state of a shell. The stages of a pipeline run one after the other, each from the
same moment on, and the pipeline takes as long as the longest. A command in the background runs as
soon as it is started, and its end is remembered. Everything is bounded by a number of steps, which is
far more than what fits into the time of a call. -/

namespace QualityGate.Shell.Evaluation

/-- How long a command of the shell takes, in microseconds. -/
def builtinTime : Nat := 10

/-- How long a program takes, in microseconds. -/
def programTime : Nat := 1000

/-- How deep texts may be run inside each other. -/
def depthLimit : Nat := 1000

/-- How deep functions may be run inside each other. -/
def functionLimit : Nat := 1000

/-- How many bytes fit into a pipe that nobody reads. -/
def pipeSize : Nat := 65536

/-! ### Parts of commands -/

def spaced (ws : List Bytes) : Bytes := [32].intercalate ws

def device? (path : String) : Option Channel :=
  match path with
  | "/dev/null" => some .void
  | "/dev/zero" => some (.pipe [] [0])
  | _ => none

/-- The descriptor that a path names. -/
def descriptorAt? (path : String) : Option Nat :=
  [("/dev/stdin", 0), ("/dev/stdout", 1), ("/dev/stderr", 2)].lookup path

def openPath (kind : RedirectKind) (path : String) : Act (Except String Nat) := do
  let s ← get
  let opened (names : List String) (appends : Bool) : Act (Except String Nat) :=
    return .ok (← Act.newChannel (.file names 0 appends))
  let told (missing : String) (e : FileError) : String := if e = .notFound then missing else e.reason
  let cannotOpen (e : FileError) : Except String Nat :=
    .error ("cannot open " ++ path ++ ": " ++ told "No such file" e)
  let cannotCreate (e : FileError) : Except String Nat :=
    .error ("cannot create " ++ path ++ ": " ++ told "Directory nonexistent" e)
  match device? path, (descriptorAt? path).bind fun n => s.own.descriptors.lookup n with
  | some c, _ => return .ok (← Act.newChannel c)
  | none, some n => return .ok n
  | none, none =>
    match kind, s.shared.files.locate s.own.directory path with
    | .input, .ok ⟨names, some _⟩ => opened names false
    | .input, .ok ⟨_, none⟩ => return cannotOpen .notFound
    | .input, .error e => return cannotOpen e
    | _, .error e => return cannotCreate e
    | _, .ok ⟨_, some (.directory _)⟩ => return cannotCreate .isDirectory
    | kind, .ok ⟨names, there⟩ =>
      if there.isNone ∧ Path.namesDirectory path then return cannotCreate .isDirectory
      else
        if there.isNone ∨ kind = .output then
          Act.modifyShared fun h => { h with files := h.files.set names (some (.file [])) }
        opened names (kind = .append)

/-- Joins a descriptor as a redirection says. Tells whether that worked. -/
def redirectTo (descriptor : Nat) (kind : RedirectKind) (target : Bytes) : Act Bool := do
  let text := target.toStringLossy
  match kind with
  | .copyInput | .copyOutput =>
    if text = "-" then
      Act.join descriptor none
      return true
    else
      match text.toNat? with
      | none => Act.fail "Syntax error: Bad fd number"
      | some n =>
        match (← Act.own).descriptors.lookup n with
        | some c =>
          Act.join descriptor (some c)
          return true
        | none =>
          Act.warn s!"{n}: Bad file descriptor"
          return false
  | .here _ =>
    Act.join descriptor (some (← Act.newChannel (.pipe [target] [])))
    return true
  | kind =>
    match ← openPath kind text with
    | .ok c =>
      Act.join descriptor (some c)
      return true
    | .error message =>
      Act.warn message
      return false

def redirectsOf : Command → List Redirect
  | .simple _ _ _ rs | .subshell _ rs | .group _ rs | .choice _ _ _ rs | .loop _ _ _ rs
  | .forEach _ _ _ rs | .select _ _ rs => rs
  | _ => []

/-- Whether the end of a run waits for a command in the background, which keeps its outputs open. -/
def keepsOutputs (c : Command) : Bool :=
  ! ([1, 2].all fun n => (redirectsOf c).any fun r => r.descriptor = n)

/-- What an assignment or a word in the arguments of a marking command is. -/
def isMarking (w : Option Word) : Bool :=
  match w.bind Word.text? with
  | some s => ["export", "readonly", "local"].contains (String.ofList s)
  | none => false

/-- Goes over what a status asks for at the end of a command: a failure that nobody asked about ends
the shell, if that is what it is to do. -/
def checkStatus : Act Unit := do
  let o ← Act.own
  if o.options.errexit ∧ ! o.isTested ∧ o.status ≠ 0 then throw .exited

/-- Runs an action whose failure is asked about. -/
def tested (a : Act Unit) : Act Unit := do
  let before := (← Act.own).isTested
  Act.modifyOwn ({ · with isTested := true })
  let r ← Act.attempt a
  Act.modifyOwn ({ · with isTested := before })
  match r with
  | .ok () => return ()
  | .error l => throw l

/-- Runs an action and then another one, however the first was left. -/
def finally_ (a : Act Unit) (after : Act Unit) : Act Unit := do
  let r ← Act.attempt a
  after
  match r with
  | .ok () => return ()
  | .error l => throw l

def inNameOf (caller : String) (a : Act Unit) : Act Unit := do
  let before := (← Act.own).caller
  Act.modifyOwn ({ · with caller })
  finally_ a (Act.modifyOwn ({ · with caller := before }))

/-- Whether a stage that did not end wrote more than its pipe holds. Then it never ends by itself, but
goes on as long as it is read. -/
def overflows (output : Option Nat) : Act Bool := do
  match output with
  | none => return false
  | some n =>
    match (← Act.shared).channels[n]? with
    | some (.pipe pieces _) =>
      let last := pieces.headD []
      if last ≠ [] ∧ pipeSize < pieces.flatten.length then
        Act.setChannel n (.pipe pieces last)
        return true
      else return false
    | _ => return false

def restore (vs : List (List Char × Option Variable)) : Act Unit :=
  vs.forM fun v => Act.putVariable v.1 v.2

def withVariables (vs : List (List Char × Bytes)) (a : Act Unit) : Act Unit := do
  let bindings := (← Act.own).bindings
  for (name, value) in vs do
    Act.setVariable name value
    Act.putVariable name (some { ← Act.variableOf name with isExported := true })
  finally_ a (restore (vs.map fun v => (v.1, bindings.lookup v.1)))

def runTool (time : Nat) (t : Tool) (arguments : List Bytes) : Act Unit := do
  Act.pass time
  Act.setStatus (← t arguments)

/-- Tells that a command is not there, or is no program. -/
def refuseCommand (name reason : String) (status : Nat) : Act Unit := do
  Act.warn s!"{name}: {reason}"
  Act.setStatus status

def loopCount (arguments : List Bytes) : Act Nat := do
  match arguments with
  | [] => return 1
  | a :: _ => Builtin.count a

/-- Leaves loops, if any are being run. -/
def leaveLoops (leave : Nat → Leave) (arguments : List Bytes) : Act Unit := do
  let n ← loopCount arguments
  let loops := (← Act.own).loops
  Act.setStatus 0
  if 0 < loops ∧ 0 < n then throw (leave (min n loops))

def wait (arguments : List Bytes) : Act Unit := do
  match (← Act.shared).background with
  | some (ending, status) =>
    Act.pass (ending - (← Act.shared).clock)
    Act.setStatus (if arguments = [] then 0 else status)
  | none => Act.setStatus (if arguments = [] then 0 else 127)

inductive Kind where
  | keyword
  | function
  | builtin
  | program (path : String)
  | unknown

/-- Whether the programs of the system are looked for. -/
def findsPrograms : Act Bool := do
  match ← Act.value? "PATH".toList with
  | some p =>
    return (Text.segments ':' p.toStringLossy.toList).any fun d => d = "/bin".toList ∨ d = "/usr/bin".toList
  | none => return false

def kindOf (name : String) : Act Kind := do
  if Parser.reserved.contains name then return .keyword
  else if ((← Act.own).functions.lookup name.toList).isSome then return .function
  else if Catalogue.isBuiltin name then return .builtin
  else if Catalogue.isProgram name ∧ (← findsPrograms) then return .program s!"/usr/bin/{name}"
  else
    match Catalogue.programAt? name with
    | some _ => return .program name
    | none => return .unknown

/-- Tells what names are, shortly or in words. -/
def describe (inWords : Bool) (names : List Bytes) : Act Unit := do
  let mut status := 0
  for a in names do
    let name := a.toStringLossy
    let (short, long) : Option String × String := match ← kindOf name with
      | .keyword => (some name, "is a shell keyword")
      | .function => (some name, "is a shell function")
      | .builtin =>
        (some name, if Catalogue.isSpecial name then "is a special shell builtin" else "is a shell builtin")
      | .program path => (some path, s!"is {path}")
      | .unknown => (none, "")
    match short with
    | some s => Act.print (if inWords then s!"{name} {long}\n" else s!"{s}\n")
    | none =>
      if inWords then Act.print s!"{name}: not found\n"
      status := 127
  Act.setStatus status

def scriptAt (path : String) : Act (Option Bytes) := do
  let s ← get
  return (s.shared.files.bytesAt s.own.directory path).toOption

/-- The state in which a shell starts that another one calls: it knows the exported variables. -/
def freshOwn (o : Own) : Own :=
  { o with
    bindings := o.bindings.filter fun v => v.2.isExported
    functions := [], name := Bytes.ofString "sh", parameters := [], status := 0
    options := ⟨false, false, false, false⟩, traps := [], line := 1, caller := "", substituted := 0
    locals := [], depth := o.depth + 1, loops := 0, isTested := false }

/-- What a shell is called with: options, a text or a script, its name and parameters. -/
structure Start where
  options : List Bytes
  text : Option Bytes
  operands : List Bytes

def start : List Bytes → Start
  | [45, 99] :: text :: rest => ⟨[], some text, rest⟩
  | [45, 45] :: rest => ⟨[], none, rest⟩
  | (45 :: o) :: rest =>
    if o.contains 99 then ⟨[45 :: o.filter (· ≠ 99)], rest.head?, rest.drop 1⟩
    else
      let s := start rest
      { s with options := (45 :: o) :: s.options }
  | rest => ⟨[], none, rest⟩

/-- The arguments of the program that passes variables on, cut into those and the command. -/
def splitSettings : List Bytes → List (List Char × Bytes) × List Bytes
  | a :: rest =>
    match Builtin.splitAssignment a with
    | (name, some value) =>
      let (more, command) := splitSettings rest
      ((name, value) :: more, command)
    | _ => ([], a :: rest)
  | [] => ([], [])

mutual

def runText : (fuel : Nat) → List Char → Act Unit
  | 0, _ => throw .timedOut
  | fuel + 1, text => do
    let o ← Act.own
    if depthLimit ≤ o.depth then throw (.killed "SEGV")
    Act.modifyOwn fun o => { o with depth := o.depth + 1 }
    finally_ (runLines fuel (tokens text)) (Act.modifyOwn ({ · with depth := o.depth }))

def runLines : (fuel : Nat) → Parser.Ahead → Act Unit
  | 0, _ => throw .timedOut
  | fuel + 1, ls => do
    match ls with
    | [] | ⟨.finish none, _⟩ :: _ => return ()
    | ls =>
      match Parser.readLine ls with
      | .error e =>
        Act.modifyOwn ({ · with line := e.line })
        Act.fail s!"Syntax error: {e.reason}"
      | .ok (c, rest) =>
        run fuel c
        runLines fuel rest

def substitute : (fuel : Nat) → List Char → Act Bytes
  | 0, _ => throw .timedOut
  | fuel + 1, text => do
    let before := (← Act.own).status
    let pipe ← Act.newChannel (.pipe [] [])
    shell fuel do
      Act.join 1 (some pipe)
      runText fuel text
    let status := (← Act.own).status
    Act.modifyOwn ({ · with status := before, substituted := status })
    match (← Act.shared).channels[pipe]? with
    | some (.pipe pieces endless) =>
      Act.setChannel pipe .void
      if endless = [] then return (pieces.reverse.flatten).filter (· ≠ 0) else Act.forever
    | _ => return []

/-- Runs an action in a subshell, and what the subshell is to do at its end. -/
def shell : (fuel : Nat) → Act Unit → Act Unit
  | 0, _ => throw .timedOut
  | fuel + 1, a => Act.inSubshell (ending fuel a)

def ending : (fuel : Nat) → Act Unit → Act Unit
  | 0, _ => throw .timedOut
  | fuel + 1, a => do
    let r ← Act.attempt a
    match r, (← Act.own).traps.lookup Signal.exit with
    | .error (.killed signal), _ => throw (.killed signal)
    | .error .timedOut, _ => throw .timedOut
    | _, none => return ()
    | _, some action =>
      let status := (← Act.own).status
      Act.modifyOwn fun o => { o with traps := o.traps.filter fun t => t.1 ≠ Signal.exit }
      runText fuel action.toStringLossy.toList
      Act.setStatus status

/-- Does what redirections say. Tells whether all of it worked. -/
def redirect : (fuel : Nat) → List Redirect → Act Bool
  | 0, _ => throw .timedOut
  | _, [] => return true
  | fuel + 1, r :: rs => do
    let target ← match r.kind with
      | .here body => Fields.documentText (substitute fuel) body
      | _ => Fields.valueOfWord (substitute fuel) r.target
    if ← redirectTo r.descriptor r.kind target then redirect fuel rs else return false

def redirected : (fuel : Nat) → List Redirect → Act Unit → Act Unit
  | 0, _, _ => throw .timedOut
  | fuel + 1, rs, a => do
    let before := (← Act.own).descriptors
    let r ← Act.attempt (redirect fuel rs)
    let back := Act.modifyOwn ({ · with descriptors := before })
    match r with
    | .ok true => finally_ a back
    | .ok false =>
      back
      Act.setStatus 2
    | .error l =>
      back
      throw l

def run : (fuel : Nat) → Command → Act Unit
  | 0, _ => throw .timedOut
  | fuel + 1, c => do
    match c with
    | .nothing => return ()
    | .simple line assignments words redirects =>
      Act.modifyOwn ({ · with line, substituted := 0 })
      runSimple fuel assignments words redirects
      checkStatus
    | .pipeline negated stages =>
      let clock := (← Act.shared).clock
      if negated then
        tested (runStages fuel clock clock none stages)
        Act.modifyOwn fun o => { o with status := if o.status = 0 then 1 else 0 }
      else
        runStages fuel clock clock none stages
        checkStatus
    | .both a b =>
      tested (run fuel a)
      if (← Act.own).status = 0 then run fuel b
    | .either a b =>
      tested (run fuel a)
      if (← Act.own).status ≠ 0 then run fuel b
    | .sequence a b =>
      run fuel a
      run fuel b
    | .background a =>
      let clock := (← Act.shared).clock
      let input ← Act.newChannel .void
      let r ← Act.attempt (shell fuel do
        Act.join 0 (some input)
        run fuel a)
      let h ← Act.shared
      let status := (← Act.own).status
      match r with
      | .error (.killed signal) => throw (.killed signal)
      | _ => Act.modifyShared ({ · with clock, background := some (h.clock, status) })
      if ! keepsOutputs a then
        Act.modifyShared ({ · with background := some (min h.clock (h.deadline - 1), status) })
      Act.setStatus 0
    | .subshell body redirects =>
      redirected fuel redirects (shell fuel (run fuel body))
      checkStatus
    | .group body redirects => redirected fuel redirects (run fuel body)
    | .choice condition body otherwise redirects =>
      redirected fuel redirects do
        tested (run fuel condition)
        if (← Act.own).status = 0 then run fuel body
        else
          Act.setStatus 0
          run fuel otherwise
    | .loop isUntil condition body redirects =>
      redirected fuel redirects do
        Act.modifyOwn fun o => { o with loops := o.loops + 1 }
        finally_ (runLoop fuel isUntil condition body 0)
          (Act.modifyOwn fun o => { o with loops := o.loops - 1 })
    | .forEach name words body redirects =>
      let values ← match words with
        | some ws => Fields.ofWords (substitute fuel) ws
        | none => pure (← Act.own).parameters
      redirected fuel redirects do
        Act.modifyOwn fun o => { o with loops := o.loops + 1, status := 0 }
        finally_ (runEach fuel name values body) (Act.modifyOwn fun o => { o with loops := o.loops - 1 })
    | .select subject arms redirects =>
      let value ← Fields.valueOfWord (substitute fuel) subject
      redirected fuel redirects do
        Act.setStatus 0
        runArms fuel value arms
    | .define name body =>
      Act.modifyOwn fun o =>
        { o with functions := (name, body) :: o.functions.filter (fun f => f.1 ≠ name), status := 0 }

/-- Runs the stages of a pipeline that started at some moment and took until another one so far. -/
def runStages : (fuel : Nat) → (start latest : Nat) → (input : Option Nat) → List Command → Act Unit
  | 0, _, _, _, _ => throw .timedOut
  | _, _, _, _, [] => return ()
  | fuel + 1, start, latest, input, c :: cs => do
    let output ← if cs = [] then pure none else some <$> Act.newChannel (.pipe [] [])
    Act.modifyShared ({ · with clock := start })
    let r ← Act.attempt (shell fuel do
      input.forM fun n => Act.join 0 (some n)
      output.forM fun n => Act.join 1 (some n)
      run fuel c)
    match r with
    | .ok () => pure ()
    | .error l =>
      if l = .timedOut ∧ (← overflows output) then Act.modifyShared ({ · with clock := start })
      else throw l
    let latest := max latest (← Act.shared).clock
    Act.modifyShared ({ · with clock := latest })
    input.forM fun n => Act.setChannel n .void
    runStages fuel start latest output cs

/-- Runs a loop as long as its condition says, and keeps the status of the last round. -/
def runLoop : (fuel : Nat) → (isUntil : Bool) → (condition body : Command) → (last : Nat) → Act Unit
  | 0, _, _, _, _ => throw .timedOut
  | fuel + 1, isUntil, condition, body, last => do
    let round : Act Bool := do
      tested (run fuel condition)
      if ((← Act.own).status = 0) = isUntil then return false
      else
        run fuel body
        return true
    match ← Act.attempt round with
    | .ok true => runLoop fuel isUntil condition body (← Act.own).status
    | .ok false => Act.setStatus last
    | .error (.breakLoop n) => if 1 < n then throw (.breakLoop (n - 1)) else return ()
    | .error (.continueLoop n) =>
      if 1 < n then throw (.continueLoop (n - 1))
      else runLoop fuel isUntil condition body (← Act.own).status
    | .error l => throw l

def runEach : (fuel : Nat) → List Char → List Bytes → Command → Act Unit
  | 0, _, _, _ => throw .timedOut
  | _, _, [], _ => return ()
  | fuel + 1, name, v :: vs, body => do
    Act.setVariable name v
    match ← Act.attempt (run fuel body) with
    | .ok () => runEach fuel name vs body
    | .error (.breakLoop n) => if 1 < n then throw (.breakLoop (n - 1)) else return ()
    | .error (.continueLoop n) =>
      if 1 < n then throw (.continueLoop (n - 1)) else runEach fuel name vs body
    | .error l => throw l

def runArms : (fuel : Nat) → Bytes → List (List Word × Command) → Act Unit
  | 0, _, _ => throw .timedOut
  | _, _, [] => return ()
  | fuel + 1, value, (patterns, body) :: arms => do
    if ← matchesAny fuel value patterns then run fuel body else runArms fuel value arms

/-- Whether one of some patterns stands for a value. -/
def matchesAny : (fuel : Nat) → Bytes → List Word → Act Bool
  | 0, _, _ => throw .timedOut
  | _, _, [] => return false
  | fuel + 1, value, w :: ws => do
    let p ← Fields.patternOfWord (substitute fuel) w
    if Pattern.accepts (Pattern.parts p) value then return true else matchesAny fuel value ws

def assigned : (fuel : Nat) → List (List Char × Word) → Act (List (List Char × Bytes))
  | 0, _ => throw .timedOut
  | _, [] => return []
  | fuel + 1, (name, w) :: as => do
    let v ← Fields.valueOfWord (substitute fuel) w
    return (name, v) :: (← assigned fuel as)

def assign : (fuel : Nat) → List (List Char × Word) → Act (List Bytes)
  | 0, _ => throw .timedOut
  | _, [] => return []
  | fuel + 1, (name, w) :: as => do
    let v ← Fields.valueOfWord (substitute fuel) w
    Act.setVariable name v
    return (Text.Utf8.encode name ++ 61 :: v) :: (← assign fuel as)

/-- The fields of the words of a command. Assignments behind a command that marks variables are not
cut. -/
def argumentsOf : (fuel : Nat) → (marking : Bool) → List Word → Act (List Bytes)
  | 0, _, _ => throw .timedOut
  | _, _, [] => return []
  | fuel + 1, marking, w :: ws => do
    let fields ← match if marking then Parser.assignment? w else none with
      | some (name, value) => do
        let v ← Fields.valueOfWord (substitute fuel) value
        pure [Text.Utf8.encode name ++ 61 :: v]
      | none => Fields.ofWord (substitute fuel) w
    return fields ++ (← argumentsOf fuel marking ws)

def runSimple : (fuel : Nat) → List (List Char × Word) → List Word → List Redirect → Act Unit
  | 0, _, _, _ => throw .timedOut
  | fuel + 1, assignments, words, redirects => do
    let fields ← argumentsOf fuel (isMarking words.head?) words
    let traces := (← Act.own).options.xtrace
    let trace (ws : List Bytes) : Act Unit :=
      if traces then discard (Act.write 2 (Bytes.ofString "+ " ++ spaced ws ++ [10])) else return ()
    match fields with
    | [] =>
      Act.pass builtinTime
      redirected fuel redirects do
        let shown ← assign fuel assignments
        if shown ≠ [] then trace shown
        Act.setStatus (← Act.own).substituted
    | name :: arguments =>
      let values ← assigned fuel assignments
      trace (values.map (fun v => Text.Utf8.encode v.1 ++ 61 :: v.2) ++ fields)
      let text := name.toStringLossy
      if text = "exec" then
        if ← redirect fuel redirects then
          for (n, v) in values do Act.setVariable n v
          if arguments ≠ [] then
            inNameOf "exec" (call fuel false arguments)
            throw .exited
          else Act.setStatus 0
        else Act.exit 2
      else if Catalogue.isSpecial text then
        let before := (← Act.own).descriptors
        if ← redirect fuel redirects then
          for (n, v) in values do Act.setVariable n v
          finally_ (call fuel true fields) (Act.modifyOwn ({ · with descriptors := before }))
        else Act.exit 2
      else
        redirected fuel redirects (withVariables values (call fuel true fields))

/-- Runs a command with its arguments: a function if there is one, a command of the shell, or a
program. -/
def call : (fuel : Nat) → (functions : Bool) → List Bytes → Act Unit
  | 0, _, _ => throw .timedOut
  | _, _, [] => return ()
  | fuel + 1, functions, name :: arguments => do
    let text := name.toStringLossy
    let o ← Act.own
    let function? := if functions then o.functions.lookup text.toList else none
    match Catalogue.specials.lookup text, function?, Catalogue.builtins.lookup text with
    | some t, _, _ => inNameOf text (runTool builtinTime t arguments)
    | none, some body, _ =>
      if Catalogue.isSpecial text then runner fuel text arguments
      else
        Act.pass builtinTime
        callFunction fuel body arguments
    | none, none, some t =>
      -- An error in a command of the shell that is not special does not end the shell.
      match ← Act.attempt (inNameOf text (runTool builtinTime t arguments)) with
      | .error .exited | .ok () => return ()
      | .error l => throw l
    | none, none, none =>
      if Catalogue.runners.contains text then
        Act.pass builtinTime
        runner fuel text arguments
      else callProgram fuel text arguments

def callFunction : (fuel : Nat) → Command → List Bytes → Act Unit
  | 0, _, _ => throw .timedOut
  | fuel + 1, body, arguments => do
    let o ← Act.own
    if functionLimit ≤ o.locals.length then
      Act.fail s!"Maximum function recursion depth ({functionLimit}) reached"
    Act.modifyOwn fun o =>
      { o with parameters := arguments, depth := o.depth + 1, locals := [] :: o.locals, loops := 0,
               status := 0 }
    let r ← Act.attempt (run fuel body)
    restore ((← Act.own).locals.headD [])
    Act.modifyOwn
      ({ · with parameters := o.parameters, depth := o.depth, locals := o.locals, loops := o.loops })
    match r with
    | .ok () | .error .returned => return ()
    | .error l => throw l

def callProgram : (fuel : Nat) → String → List Bytes → Act Unit
  | 0, _, _ => throw .timedOut
  | fuel + 1, name, arguments => do
    let program? ←
      if name.contains '/' then pure (Catalogue.programAt? name)
      else if Catalogue.isProgram name ∧ (← findsPrograms) then pure (some name)
      else pure none
    match program? with
    | some p =>
      match Catalogue.programs.lookup p with
      | some t => runTool programTime t arguments
      | none =>
        Act.pass programTime
        caller fuel p arguments
    | none =>
      let s ← get
      if name.contains '/' ∧ s.shared.files.existsAt s.own.directory name then
        refuseCommand name "Permission denied" 126
      else
        match if name.contains '/' then s.shared.files.find s.own.directory name else .error .notFound with
        | .error .notDirectory => refuseCommand name "Not a directory" 126
        | _ => refuseCommand name "not found" 127

def caller : (fuel : Nat) → String → List Bytes → Act Unit
  | 0, _, _ => throw .timedOut
  | fuel + 1, program, arguments => do
    match program with
    | "which" => runTool 0 (Catalogue.which Catalogue.isProgram) arguments
    | "nohup" => call fuel false arguments
    | "env" =>
      let arguments := if arguments.head? = some [45, 105] then arguments.drop 1 else arguments
      let (settings, command) := splitSettings arguments
      let own ← Act.own
      finally_ (do
        for (n, v) in settings do Act.putVariable n (some ⟨some v, true, false⟩)
        if command = [] then
          for (n, v) in (← Act.own).bindings.reverse do
            if v.isExported then
              discard (Act.write 1 (Text.Utf8.encode n ++ 61 :: (v.value.getD []) ++ [10]))
          Act.setStatus 0
        else
          let name := (command.headD []).toStringLossy
          if (← kindOf name) matches .program _ then callProgram fuel name (command.drop 1)
          else
            Act.complain s!"env: '{name}': No such file or directory\n"
            Act.setStatus 127)
        (Act.modifyOwn fun o => { o with bindings := own.bindings })
    | "timeout" =>
      match arguments with
      | span :: name :: rest =>
        match Catalogue.span? span with
        | none =>
          Act.setStatus (← Tool.refuse "timeout" s!"invalid time interval '{span.toStringLossy}'" 125)
        | some t =>
          let h ← Act.shared
          let limit := h.clock + t
          Act.modifyShared fun h => { h with deadline := if t = 0 then h.deadline else min h.deadline limit }
          let r ← Act.attempt (callProgram fuel name.toStringLossy rest)
          Act.modifyShared ({ · with deadline := h.deadline })
          match r with
          | .error .timedOut =>
            if limit < h.deadline then
              Act.modifyShared ({ · with clock := limit })
              Act.setStatus 124
            else throw .timedOut
          | .error l => throw l
          | .ok () => return ()
      | _ => Act.setStatus (← Tool.refuse "timeout" "missing operand" 125)
    | "xargs" =>
      let (os, command) := match arguments with
        | [45, 110] :: n :: rest => ((Tool.number? n).getD 0, rest)
        | rest => (0, rest)
      let command := if command = [] then [Bytes.ofString "echo"] else command
      match ← Act.readAll 0 with
      | .error _ => Act.setStatus 1
      | .ok source =>
        let items := (Text.segments ' ' ((← Tool.whole source).toStringLossy.toList.map fun c =>
          if c = '\n' ∨ c = '\t' then ' ' else c)).filter (· ≠ [])
        let items := items.map Text.Utf8.encode
        runBatches fuel (if os = 0 then items.length + 1 else os) command items
    | _ =>
      let s := start arguments
      let o ← Act.own
      let script ← match s.text, s.operands with
        | some t, _ => pure (some t)
        | none, path :: _ => scriptAt path.toStringLossy
        | none, [] =>
          match ← Act.readAll 0 with
          | .ok source => some <$> Tool.whole source
          | .error _ => pure none
      match script with
      | none =>
        let path := ((s.operands.headD []).toStringLossy)
        Act.complain s!"{program}: 0: cannot open {path}: No such file\n"
        Act.setStatus 2
      | some text =>
        let r ← Act.attempt (Act.inSubshell do
          Act.modifyOwn freshOwn
          Act.modifyOwn fun x =>
            { x with name := s.operands.headD (Bytes.ofString program), parameters := s.operands.drop 1 }
          discard (Builtin.setOptions s.options.length s.options)
          ending fuel (runText fuel text.toStringLossy.toList))
        Act.modifyOwn fun x => { o with status := x.status }
        match r with
        | .error (.killed signal) =>
          if let some told := Signal.message? signal then Act.complain (told ++ "\n")
          Act.setStatus (128 + Signal.number signal)
        | .error l => throw l
        | .ok () => return ()

def runBatches : (fuel : Nat) → (size : Nat) → (command arguments : List Bytes) → Act Unit
  | 0, _, _, _ => throw .timedOut
  | fuel + 1, size, command, arguments => do
    callProgram fuel (command.headD []).toStringLossy (command.drop 1 ++ arguments.take size)
    let status := (← Act.own).status
    if arguments.drop size ≠ [] ∧ 0 < size then runBatches fuel size command (arguments.drop size)
    if status ≠ 0 then Act.setStatus 123

def runner : (fuel : Nat) → String → List Bytes → Act Unit
  | 0, _, _ => throw .timedOut
  | fuel + 1, name, arguments => do
    match name with
    | "eval" =>
      Act.setStatus 0
      inNameOf "eval" (runText fuel (spaced arguments).toStringLossy.toList)
    | "exit" =>
      match arguments with
      | [] => throw .exited
      | a :: _ => inNameOf "exit" do Act.exit (← Builtin.count a)
    | "return" =>
      match arguments with
      | [] => throw .returned
      | a :: _ =>
        inNameOf "return" do Act.setStatus (← Builtin.count a)
        throw .returned
    | "break" => inNameOf "break" (leaveLoops .breakLoop arguments)
    | "continue" => inNameOf "continue" (leaveLoops .continueLoop arguments)
    | "exec" =>
      inNameOf "exec" (call fuel false arguments)
      throw .exited
    | "command" =>
      match arguments with
      | [45, 118] :: names => describe false (names.take 1)
      | [45, 86] :: names => describe true (names.take 1)
      | [45, 112] :: command | command => call fuel false command
    | "type" => describe true arguments
    | "wait" => wait arguments
    | "kill" => inNameOf "kill" (kill fuel arguments)
    | "trap" =>
      match arguments with
      | [] =>
        for (condition, action) in (← Act.own).traps.reverse do
          Act.print s!"trap -- '{action.toStringLossy}' {condition}\n"
        Act.setStatus 0
      | [condition] => trap fuel none [condition]
      | action :: conditions =>
        trap fuel (if action = [45] then none else some action) conditions
    | _ =>
      match arguments with
      | [] => Act.setStatus 0
      | path :: _ =>
        inNameOf "." do
          let text := path.toStringLossy
          let script? ← if text.contains '/' then scriptAt text else pure none
          match script? with
          | none =>
            if text.contains '/' then Act.fail s!"cannot open {text}: No such file"
            else Act.fail s!"{text}: not found"
          | some script =>
            Act.modifyOwn ({ · with status := 0 })
            match ← Act.attempt (inNameOf text (runText fuel script.toStringLossy.toList)) with
            | .ok () | .error .returned => return ()
            | .error l => throw l

def trap : (fuel : Nat) → (action : Option Bytes) → (conditions : List Bytes) → Act Unit
  | 0, _, _ => throw .timedOut
  | _, _, [] => Act.setStatus 0
  | fuel + 1, action, c :: cs => do
    match Signal.condition? c.toStringLossy with
    | none =>
      Act.complain s!"trap: {c.toStringLossy}: bad trap\n"
      Act.setStatus 1
    | some name =>
      Act.modifyOwn fun o =>
        let others := o.traps.filter fun t => t.1 ≠ name
        { o with traps := (action.map (name, ·)).toList ++ others }
      trap fuel action cs

def kill : (fuel : Nat) → List Bytes → Act Unit
  | 0, _ => throw .timedOut
  | fuel + 1, arguments => do
    let (signal, targets) := match arguments with
      | [45, 115] :: name :: rest => (name, rest)
      | (45 :: name) :: rest => if name = [45] then (Bytes.ofString "TERM", rest) else (name, rest)
      | rest => (Bytes.ofString "TERM", rest)
    let signal := signal.toStringLossy
    match if signal = "0" then some "" else Signal.condition? signal with
    | none => Act.setStatus (← Builtin.trouble s!"Illegal option -{(signal.take 1).toString}")
    | some name =>
      match targets with
      | [] =>
        Act.warn "Usage: kill [-s sigspec | -signum | -sigspec] [pid | job]... or"
        Act.complain "kill -l [exitstatus]\n"
        Act.setStatus 2
      | target :: _ =>
        match target.toStringLossy.toNat? with
        | none => Act.setStatus (← Builtin.trouble s!"Illegal number: {target.toStringLossy}")
        | some n =>
          Act.setStatus 0
          if n = Act.processNumber + 1 then
            let clock := (← Act.shared).clock
            Act.modifyShared fun h =>
              { h with background := h.background.map fun b => (min clock b.1, 143) }
          else if n ≠ Act.processNumber ∧ n ≠ 0 then
            Act.warn "No such process\n"
            Act.setStatus 1
          else if name ≠ "" then deliver fuel name

def deliver : (fuel : Nat) → (name : String) → Act Unit
  | 0, _ => throw .timedOut
  | fuel + 1, name => do
    match (← Act.own).traps.lookup name with
    | some action =>
      if name = "KILL" then throw (.killed name)
      else
        let status := (← Act.own).status
        inNameOf "" (runText fuel action.toStringLossy.toList)
        Act.setStatus status
    | none =>
      match Signal.effect name with
      | .ignored => return ()
      | .stops => Act.forever
      | .kills => throw (.killed name)

end

end QualityGate.Shell.Evaluation
