import QualityGate.Pipeline
import QualityGate.Runner

/-! # Execution

Steps are executed one after the other. A step makes at most two calls, and whether it makes them
depends on its gate and its action alone, never on an outcome. -/

namespace QualityGate

/-- What a run did: its calls and its findings in order, and the state of the runner after it. -/
structure Trace (σ : Type) where
  calls : List Call
  findings : List Finding
  state : σ
  deriving DecidableEq, Repr

namespace Trace

variable {σ : Type}

def idle (s : σ) : Trace σ := ⟨[], [], s⟩

/-- One run, then another from the state that it leaves. -/
def andThen (t : Trace σ) (next : σ → Trace σ) : Trace σ :=
  let u := next t.state
  ⟨t.calls ++ u.calls, t.findings ++ u.findings, u.state⟩

@[simp]
theorem calls_andThen (t : Trace σ) (next : σ → Trace σ) :
    (t.andThen next).calls = t.calls ++ (next t.state).calls := rfl

@[simp]
theorem findings_andThen (t : Trace σ) (next : σ → Trace σ) :
    (t.andThen next).findings = t.findings ++ (next t.state).findings := rfl

@[simp]
theorem state_andThen (t : Trace σ) (next : σ → Trace σ) :
    (t.andThen next).state = (next t.state).state := rfl

@[simp]
theorem idle_andThen (s : σ) (next : σ → Trace σ) : (idle s).andThen next = next s := rfl

theorem andThen_assoc (t : Trace σ) (f g : σ → Trace σ) :
    (t.andThen f).andThen g = t.andThen fun s => (f s).andThen g := by
  simp [andThen]

def verdict (t : Trace σ) : Verdict := ⟨t.findings⟩

end Trace

/-- How steps are executed: by which runner, whether those that format are, and for which file. -/
structure Execution (σ : Type) where
  runner : Runner σ
  formatting : Bool
  file : Option String

namespace Execution

variable {σ : Type}

/-- One call, with the findings that its outcome gives rise to. -/
def call (e : Execution σ) (c : Call) (findings : Outcome → List Finding) (s : σ) : Trace σ :=
  let (o, s) := e.runner s c
  ⟨[c], findings o, s⟩

def format (e : Execution σ) (c : Command) (note : Option String) (s : σ) : Trace σ :=
  e.call (c.call e.file)
    (fun o => if o.succeeded then note.toList.map (Finding.info .format) else []) s

/-- Runs a check. If it has a lookup, that is run before it, for no file. -/
def check (e : Execution σ) (c : Command) (k : Check) (s : σ) : Trace σ :=
  match k.lookup? with
  | none => e.call (c.call e.file) (fun o => k.findings none o) s
  | some lookup =>
    let (listed, s) := e.runner s (lookup.call none)
    (Trace.mk [lookup.call none] [] s).andThen
      (e.call (c.call e.file) (fun o => k.findings (modifiedNames listed) o))

def step (e : Execution σ) (p : Step) (s : σ) : Trace σ :=
  if p.gate.allows e.file then
    match p.action with
    | .format note => if e.formatting then e.format p.command note s else .idle s
    | .check k => e.check p.command k s
  else
    .idle s

def run (e : Execution σ) : List Step → σ → Trace σ
  | [], s => .idle s
  | p :: ps, s => (e.step p s).andThen (e.run ps)

end Execution

end QualityGate
