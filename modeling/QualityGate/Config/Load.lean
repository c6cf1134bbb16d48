import QualityGate.Config.Error

/-! # Loading a configuration

Settings are laid over the defaults. A name among their commands that is no role is an error, whatever
else they hold; after that every command must be usable. The settings come from a given file, or from
the first of two files in the repository's root, or there are none. -/

namespace QualityGate

/-! ### Layering -/

/-- Why a command cannot be run, if it cannot: a blank line, before a budget of no time. -/
def Command.flaw? (c : Command) : Option CommandFlaw :=
  if c.run.toList.all Text.isBlank then some .blank
  else if c.timeoutSecs = 0 then some .noTime
  else none

def leastName : List String → Option String
  | [] => none
  | n :: ns =>
    match leastName ns with
    | some m => some (if m < n then m else n)
    | none => some n

namespace Settings

def unknownNames (s : Settings) : List String :=
  (s.commands.map (·.1)).filter fun n => (Role.ofName? n).isNone

/-- The settings over a configuration, whose commands are not looked at. -/
def onto (s : Settings) (c : Config) : Config where
  skipPaths := s.skipPaths.getD c.skipPaths
  fastLintTool := s.fastLintTool.getD c.fastLintTool
  command r :=
    match s.patch? r.name with
    | some p => p.apply (c.command r)
    | none => c.command r

end Settings

namespace Config

/-- The first role whose command cannot be run, and why. -/
def flaw? (c : Config) : Option (Role × CommandFlaw) :=
  Role.all.findSome? fun r => ((c.command r).flaw?).map (r, ·)

/-- The defaults with settings laid over them. -/
def ofSettings (s : Settings) : Except ConfigError Config :=
  match leastName s.unknownNames with
  | some name => .error (.unknownCommand name)
  | none =>
    let c := s.onto default
    match c.flaw? with
    | some (role, flaw) => .error (.invalid role flaw)
    | none => .ok c

/-! ### Files -/

/-- The names under which a configuration is looked for, the hidden one last. -/
def fileNames : List String := ["editgate.yaml", ".editgate.yaml"]

def ofFile (files : FileTree) (base : List String) (path : String) : Except ConfigError Config :=
  match files.textAt base path with
  | .error e => .error (.unreadable path e)
  | .ok text =>
    match Settings.ofText text with
    | .error f => .error (.malformed path f)
    | .ok s => ofSettings s

/-- The configuration of a repository, from the given file or from one in its root. Paths are seen
from the directory at `base`. -/
def load (files : FileTree) (base : List String) (root : String) (explicit : Option String) :
    Except ConfigError Config :=
  match explicit with
  | some path => ofFile files base path
  | none =>
    match (fileNames.map (Path.join root)).find? (files.isFileAt base) with
    | some path => ofFile files base path
    | none => .ok default

end Config

end QualityGate
