import QualityGate.Arguments
import QualityGate.Config.Load
import QualityGate.Hook
import QualityGate.Root
import QualityGate.Session

/-! # The program

A command line is run against its surroundings: the bytes on standard input, the way to the root, the
way to the configuration, and the runner for a root. An edit is looked at before anything is loaded:
where no check is there for its kind nothing is, and where loading fails a path that the defaults skip
is left alone. The completion hook does not look at standard input. -/

namespace QualityGate

/-- What the program finds around it. -/
structure Surroundings (σ : Type) where
  stdin : Bytes
  /-- What is said about a command line that asks for no hook. -/
  usage : List String → String
  root : Option String → Except RootError String
  config : (root : String) → Option String → Except ConfigError Config
  runner : (root : String) → Runner σ
  content : σ → String → Option Bytes

/-- How a run of the program ended, the calls that it made, and the state after it. -/
structure Run (σ : Type) where
  ending : Ending
  calls : List Call
  state : σ
  deriving Repr

inductive LoadError where
  | root (e : RootError)
  | config (e : ConfigError)
  deriving DecidableEq, Repr

def LoadError.message : LoadError → String
  | root e => e.message
  | config e => e.fullMessage

namespace Surroundings

variable {σ : Type}

def session (x : Surroundings σ) (i : Invocation) : Except LoadError (Session σ) :=
  match x.root i.root with
  | .error e => .error (.root e)
  | .ok root =>
    match x.config root i.config with
    | .error e => .error (.config e)
    | .ok c => .ok ⟨root, c, x.runner root, ! i.noFormat, x.content⟩

def stop (e : Ending) (s : σ) : Run σ := ⟨e, [], s⟩

/-- The end of the run that a mode has for a path. -/
def finish (i : Invocation) : Mode → (path : String) → Option Verdict → Ending
  | .fast, path, v => Hook.endFast i.color path v
  | .full, path, v => Hook.endFull i.color path v

def runEdit (x : Surroundings σ) (i : Invocation) (mode : Mode) (s : σ) : Run σ :=
  let event := Event.ofBytes x.stdin
  match event.filePath with
  | none => stop .silent s
  | some path =>
    if mode.handles (FileKind.ofPath path) then
      match x.session i with
      | .error e =>
        if Config.default.skips path then stop .silent s else stop (.failed e.message) s
      | .ok session =>
        match session.edit mode event s with
        | some t => ⟨finish i mode path (some t.verdict), t.calls, t.state⟩
        | none => stop (finish i mode path none) s
    else
      stop .silent s

def runComplete (x : Surroundings σ) (i : Invocation) (s : σ) : Run σ :=
  match x.session i with
  | .error e => stop (.failed e.message) s
  | .ok session =>
    let t := session.complete s
    ⟨Hook.endComplete i.color t.verdict, t.calls, t.state⟩

def runHook (x : Surroundings σ) (i : Invocation) (s : σ) : Run σ :=
  match i.hook with
  | .fast => x.runEdit i .fast s
  | .full => x.runEdit i .full s
  | .complete => x.runComplete i s

def run (x : Surroundings σ) (args : List String) (s : σ) : Run σ :=
  match Arguments.read args with
  | .ok i => x.runHook i s
  | .error e => stop (Hook.endUsage (x.usage args) e) s

end Surroundings

end QualityGate
