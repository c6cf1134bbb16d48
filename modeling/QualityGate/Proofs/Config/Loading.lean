import QualityGate.Proofs.Config.Layering

/-! # Where a configuration comes from

`Config.Loads` says what comes of the search for a configuration: the defaults where there is no
file; else the file cannot be read, or holds no settings, or its settings are laid over the
defaults. `Config.loads_iff` says that there is nothing else.

Each of these ways that ends with a configuration goes past the check of its commands, or starts
from commands that need none. So every command of a configuration can be run
(`Config.flaw?_eq_none_of_load`). -/

namespace QualityGate

namespace Config

variable {files : FileTree} {base : List String} {root : String} {explicit : Option String}

/-- The file that a configuration is read from: the given one, or the first of those in the root. -/
def source? (files : FileTree) (base : List String) (root : String) :
    (explicit : Option String) → Option String
  | some path => some path
  | none => (fileNames.map (Path.join root)).find? (files.isFileAt base)

/-- What comes of the search for a configuration. -/
inductive Loads (files : FileTree) (base : List String) (root : String)
    (explicit : Option String) : Except ConfigError Config → Prop
  /-- There is no file. -/
  | absent (hsource : source? files base root explicit = none) :
      Loads files base root explicit (.ok .default)
  /-- The file cannot be read as text. -/
  | unreadable {path : String} {e : FileError}
      (hsource : source? files base root explicit = some path)
      (htext : files.textAt base path = .error e) :
      Loads files base root explicit (.error (.unreadable path e))
  /-- The text cannot be read, or has the wrong shape. -/
  | malformed {path text : String} {flaw : Settings.Flaw}
      (hsource : source? files base root explicit = some path)
      (htext : files.textAt base path = .ok text)
      (hsettings : Settings.ofText text = .error flaw) :
      Loads files base root explicit (.error (.malformed path flaw))
  /-- The text holds settings, which yield a configuration, or an unknown or an unusable command. -/
  | layered {path text : String} {s : Settings} {r : Except ConfigError Config}
      (hsource : source? files base root explicit = some path)
      (htext : files.textAt base path = .ok text) (hsettings : Settings.ofText text = .ok s)
      (hyields : s.Yields r) : Loads files base root explicit r

theorem load_eq : load files base root explicit =
    match source? files base root explicit with
    | some path => ofFile files base path
    | none => .ok default := by
  cases explicit with
  | none => rfl
  | some path => rfl

theorem loads_load : Loads files base root explicit (load files base root explicit) := by
  rw [load_eq]
  cases hsource : source? files base root explicit with
  | none => exact .absent hsource
  | some path =>
    dsimp only
    rw [ofFile]
    cases htext : files.textAt base path with
    | error e => exact .unreadable hsource htext
    | ok text =>
      dsimp only
      cases hsettings : Settings.ofText text with
      | error flaw => exact .malformed hsource htext hsettings
      | ok s => exact .layered hsource htext hsettings (yields_ofSettings s)

/-- **The search ends in one of the four ways.** -/
theorem loads_iff {r : Except ConfigError Config} :
    Loads files base root explicit r ↔ r = load files base root explicit := by
  constructor
  · intro h
    rw [load_eq]
    cases h with
    | absent hsource => rw [hsource]
    | unreadable hsource htext => simp only [hsource, ofFile, htext]
    | malformed hsource htext hsettings => simp only [hsource, ofFile, htext, hsettings]
    | layered hsource htext hsettings hyields =>
      simp only [hsource, ofFile, htext, hsettings]
      exact eq_ofSettings_of_yields hyields
  · rintro rfl
    exact loads_load

/-- **Every command of a configuration can be run.** -/
theorem flaw?_eq_none_of_load {c : Config} (h : load files base root explicit = .ok c) (r : Role) :
    (c.command r).flaw? = none := by
  have hloads : Loads files base root explicit (.ok c) := loads_iff.mpr h.symm
  cases hloads with
  | absent _ => exact r.flaw?_defaultCommand
  | layered _ _ _ hyields =>
    cases hyields with
    | config _ husable => exact Command.flaw?_eq_none_iff.mpr (husable r)

end Config

end QualityGate
