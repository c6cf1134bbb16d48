import QualityGate.Check.Json
import QualityGate.Event
import QualityGate.Execution

/-! # Sessions

A session knows its repository: the root, the configuration, the runner, and how to read a file. It
answers an edit with a run, or with none where the edit is out of scope: the event names no file, the
configuration skips the path, or no check is there for its kind. The end of a session is answered with
a run of its own, whatever was edited. -/

namespace QualityGate

/-- The gate at work in one repository. -/
structure Session (σ : Type) where
  root : String
  config : Config
  runner : Runner σ
  formatting : Bool
  /-- The content of the file at a path, if it can be read. -/
  content : σ → String → Option Bytes

def Config.editedPath? (c : Config) (e : Event) : Option String :=
  e.filePath.filter (! c.skips ·)

namespace Session

variable {σ : Type}

/-- How the session executes steps for a file, or for none. -/
def execution (x : Session σ) (file : Option String) : Execution σ :=
  ⟨x.runner, x.formatting, file⟩

/-- The run that checks a JSON file itself. It makes no call. -/
def checkJson (x : Session σ) (path : String) (s : σ) : Trace σ :=
  let path := Path.join x.root path
  ⟨[], Json.fileFindings path (x.content s path), s⟩

/-- The answer to an edit of a path that is not skipped. -/
def checkPath (x : Session σ) (mode : Mode) (path : String) (s : σ) : Option (Trace σ) :=
  match mode, FileKind.ofPath path with
  | .fast, .json => some (x.checkJson path s)
  | mode, kind =>
    match x.config.editPipeline mode kind with
    | [] => none
    | steps => some ((x.execution (some path)).run steps s)

def edit (x : Session σ) (mode : Mode) (e : Event) (s : σ) : Option (Trace σ) :=
  (x.config.editedPath? e).bind fun path => x.checkPath mode path s

def complete (x : Session σ) (s : σ) : Trace σ :=
  (x.execution none).run x.config.completionPipeline s

end Session

end QualityGate
