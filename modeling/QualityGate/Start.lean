import QualityGate.Program
import QualityGate.Shell.Run

/-! # Starting the program

The program is started in a directory of a file tree and lies in a file of it. Paths on its command
line are seen from that directory, and its commands run on that tree. -/

namespace QualityGate

/-- How the program is started. -/
structure Start where
  files : FileTree
  /-- The directory that it is started in. -/
  directory : List String
  /-- The file that it lies in. -/
  program : List String
  stdin : Bytes
  /-- What is said about a command line that asks for no hook. -/
  usage : List String → String

namespace Start

def surroundings (x : Start) : Surroundings FileTree where
  stdin := x.stdin
  usage := x.usage
  root
    | some root => x.files.givenRoot x.directory root
    | none => x.files.rootAbove x.program
  config root explicit := Config.load x.files x.directory root explicit
  runner := Shell.runner
  content files path := (files.bytesAt [] path).toOption

/-- Runs a command line. The state after the run is the files. -/
def run (x : Start) (args : List String) : Run FileTree := x.surroundings.run args x.files

end Start

end QualityGate
