import QualityGate.Runner
import QualityGate.Shell.Evaluation

/-! # Running command lines

A command line is run by a new shell in a directory, without input, with both outputs taken apart. It
succeeded if the shell ended by itself with status zero. A line that is not done when its time is up
timed out, and what it printed is lost; what it did to files is not. -/

namespace QualityGate.Shell

def stepLimit : Nat := 4000000

def firstVariables (directory : List String) : List (List Char × Variable) :=
  [("PWD", FileTree.absolutePath directory), ("HOME", "/root"),
   ("PATH", "/usr/local/sbin:/usr/local/bin:/usr/sbin:/usr/bin:/sbin:/bin")].map fun (name, value) =>
    (name.toList, ⟨some (Bytes.ofString value), true, false⟩)

/-- The state in which a shell starts: the input is empty, and the outputs go to the two channels of
the run. -/
def firstState (files : FileTree) (directory : List String) (microseconds : Nat) : State where
  own :=
    { directory, bindings := firstVariables directory, functions := []
      name := Bytes.ofString "sh", parameters := [], status := 0
      descriptors := [(0, 2), (1, 0), (2, 1)], options := ⟨false, false, false, false⟩
      traps := [], line := 1, caller := "", substituted := 0, locals := [], depth := 0, loops := 0
      isTested := false }
  shared :=
    { files, channels := #[.pipe [] [], .pipe [] [], .void], clock := 0, deadline := microseconds
      background := none }

/-- What went to a channel. -/
def written (h : Shared) (channel : Nat) : Bytes :=
  match h.channels[channel]? with
  | some (.pipe pieces _) => pieces.reverse.flatten
  | _ => []

/-- The outcome of a shell that was left in some way. Commands in the background that keep its outputs
open are waited for. -/
def outcomeOf (left : Except Leave Unit) (s : State) : Outcome :=
  let lasting := (s.shared.background.map Prod.fst).getD 0
  if s.shared.deadline ≤ lasting then .timedOut
  else
    match left with
    | .error .timedOut => .timedOut
    | .error (.killed _) => .ofStreams false (written s.shared 0) (written s.shared 1)
    | _ => .ofStreams (s.own.status = 0) (written s.shared 0) (written s.shared 1)

/-- Runs a text from a state on. -/
def runFrom (s : State) (text : String) : Outcome × FileTree :=
  let (left, s) := (Evaluation.ending stepLimit (Evaluation.runText stepLimit text.toList)).run s
  (outcomeOf left s, s.shared.files)

/-- Runs a command line in the directory at a path, and tells what the files are after it. -/
def run (files : FileTree) (root line : String) (milliseconds : Nat) : Outcome × FileTree :=
  if '\x00' ∈ line.toList then (.failed "nul byte found in provided data", files)
  else
    match files.locate [] root with
    | .error e => (.failed e.message, files)
    | .ok ⟨_, none⟩ => (.failed FileError.notFound.message, files)
    | .ok ⟨_, some (.file _)⟩ => (.failed FileError.notDirectory.message, files)
    | .ok ⟨names, some (.directory _)⟩ => runFrom (firstState files names (1000 * milliseconds)) line

/-- The runner that runs lines in a directory. Its state is the files. -/
def runner (root : String) : Runner FileTree :=
  fun files c => run files root c.line (1000 * c.timeoutSecs)

end QualityGate.Shell
