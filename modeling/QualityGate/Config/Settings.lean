import QualityGate.Config
import QualityGate.Yaml.Shape

/-! # Settings

What a configuration file may say: paths to skip, the name of the fast lint tool, and patches for
commands by name. Whatever it leaves out stays as it is by default. -/

namespace QualityGate

structure Patch where
  run : Option String
  timeoutSecs : Option Nat
  deriving DecidableEq, Repr

def Patch.apply (p : Patch) (c : Command) : Command :=
  ⟨p.run.getD c.run, p.timeoutSecs.getD c.timeoutSecs⟩

/-- What a configuration file says. Patches stand in the order of the file; of two for one name the
later counts. -/
structure Settings where
  skipPaths : Option (List String)
  fastLintTool : Option String
  commands : List (String × Patch)
  deriving DecidableEq, Repr

namespace Settings

def blank : Settings := ⟨none, none, []⟩

def patch? (s : Settings) (name : String) : Option Patch :=
  s.commands.reverse.lookup name

/-! ### Reading -/

open Yaml Yaml.Shape

/-- The changes that a node asks for. -/
def readPatch (d : Document) : Place → Node.Bound → Shaped Patch :=
  record "CommandPatch" ["run", "timeout_secs"] ⟨none, none⟩
    (fun
      | "run" => some fun p place n => do
        .ok { p with run := ← optional (text d) d place n }
      | "timeout_secs" => some fun p place n => do
        .ok { p with timeoutSecs := ← optional (natural d) d place n }
      | _ => none)
    d

def readRoot (d : Document) : Place → Node.Bound → Shaped Settings :=
  record "ConfigFile" ["skip_paths", "fast_lint_tool", "commands"] blank
    (fun
      | "skip_paths" => some fun s place n => do
        .ok { s with skipPaths := ← optional (list (text d) d) d place n }
      | "fast_lint_tool" => some fun s place n => do
        .ok { s with fastLintTool := ← optional (text d) d place n }
      | "commands" => some fun s place n => do
        .ok { s with commands := ← table (readPatch d) d place n }
      | _ => none)
    d

/-- Why a text holds no settings: it cannot be read, or has the wrong shape. -/
inductive Flaw where
  | unreadable (fault : Yaml.Fault)
  | misshapen (fault : Yaml.ShapeFault)
  deriving DecidableEq, Repr

def Flaw.message : Flaw → String
  | unreadable f => f.message
  | misshapen f => f.message

def ofText (s : String) : Except Flaw Settings :=
  match Document.read s.toList with
  | .error f => .error (.unreadable f)
  | .ok d =>
    match d.root with
    | none => .ok blank
    | some root => (readRoot d .root root).mapError .misshapen

end Settings

end QualityGate
