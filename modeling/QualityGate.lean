import QualityGate.Config.Load
import QualityGate.Hook
import QualityGate.Replay
import QualityGate.Session
import QualityGate.Program
import QualityGate.Shell.Arithmetic
import QualityGate.Shell.Builtin
import QualityGate.Shell.Catalogue
import QualityGate.Shell.Evaluation
import QualityGate.Shell.Run
import QualityGate.Start
import QualityGate.Proofs.Shell.Lockstep
import QualityGate.Proofs.Text.Template
import QualityGate.Proofs.Shell.Calm
import QualityGate.Proofs.Shell.Template
import QualityGate.Proofs.Shell.Rendering
import QualityGate.Proofs.Check.Narrowing
import QualityGate.Proofs.Completion
import QualityGate.Proofs.Hook
import QualityGate.Proofs.Execution
import QualityGate.Proofs.Dispatch
import QualityGate.Proofs.Check.Yield
import QualityGate.Proofs.Verdict
import QualityGate.Proofs.ExitCode
import QualityGate.Proofs.Text.Utf8
import QualityGate.Proofs.Json.Strings
import QualityGate.Proofs.Json.Numbers
import QualityGate.Proofs.Json.Series
import QualityGate.Proofs.Json.Reading
import QualityGate.Proofs.Json.Meaning
import QualityGate.Proofs.Json.Unique
import QualityGate.Proofs.Check.Json
import QualityGate.Proofs.Event
import QualityGate.Proofs.Config.Layering
import QualityGate.Proofs.Scope
import QualityGate.Proofs.Spelling
import QualityGate.Proofs.Shell.Enclosed
import QualityGate.Proofs.Config.Loading
import QualityGate.Proofs.Failure
import QualityGate.Proofs.Usable
import QualityGate.Proofs.OneLine
import QualityGate.Proofs.Report
import QualityGate.Proofs.Answers
import QualityGate.Proofs.Timeout
import QualityGate.Proofs.Formatting
import QualityGate.Proofs.LineEnding
import QualityGate.Proofs.Check.Counts
import QualityGate.Proofs.Narrowing
import QualityGate.Proofs.Check.Seam
import QualityGate.Proofs.Check.Excerpt
import QualityGate.Proofs.Check.Reread
import QualityGate.Proofs.Arguments
import QualityGate.Proofs.Color
import QualityGate.Proofs.Text.Lossy
import QualityGate.Proofs.Text.Places
import QualityGate.Proofs.Shell.Streams
import QualityGate.Proofs.FileName
