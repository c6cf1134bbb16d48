import Mathlib.Data.String.Basic
import QualityGate.Config.Load

/-! # Settings over the defaults

`Settings.Yields` says what comes of settings: the least name that is no role is refused; else the
first role whose command cannot be run is, with a blank line told before a budget of no time; else
each role has the line and the budget that are set for it, or its own.
`Config.yields_iff` says that this is all that comes of them.

The names are looked at as a set and each role looks at its own patch only. So nothing hangs on the
order in which the commands are listed (`Config.ofSettings_congr`), and since every role can be run
as it is by default, a role is only refused for a patch of its own
(`Config.patched_of_ofSettings`). -/

namespace QualityGate

/-! ### Names -/

theorem leastName_eq_none_iff {ns : List String} : leastName ns = none ↔ ns = [] := by
  cases ns with
  | nil => simp [leastName]
  | cons n ns =>
    rw [leastName]
    cases leastName ns <;> simp

theorem leastName_eq_some_iff {ns : List String} {n : String} :
    leastName ns = some n ↔ n ∈ ns ∧ ∀ m ∈ ns, n ≤ m := by
  induction ns generalizing n with
  | nil => simp [leastName]
  | cons k ns ih =>
    rw [leastName]
    cases hrest : leastName ns with
    | none =>
      rw [leastName_eq_none_iff.mp hrest]
      constructor
      · intro h
        obtain rfl := Option.some.inj h
        simp
      · rintro ⟨hn, -⟩
        rw [List.mem_singleton.mp hn]
    | some m =>
      obtain ⟨hm, hleast⟩ := ih.mp hrest
      simp only [Option.some.injEq, List.mem_cons, forall_eq_or_imp]
      constructor
      · rintro rfl
        by_cases hlt : m < k
        · rw [if_pos hlt]
          exact ⟨.inr hm, hlt.le, hleast⟩
        · rw [if_neg hlt]
          have hk : k ≤ m := not_lt.mp hlt
          exact ⟨.inl rfl, le_rfl, fun j hj => hk.trans (hleast j hj)⟩
      · rintro ⟨rfl | hn, hk, hrest⟩
        · rw [if_neg (not_lt.mpr (hrest m hm))]
        · have hnm : m = n := le_antisymm (hleast n hn) (hrest m hm)
          subst hnm
          split
          · rfl
          · rename_i hlt
            exact le_antisymm (not_lt.mp hlt) hk

namespace Role

theorem ofName?_eq_none_iff {n : String} : ofName? n = none ↔ ∀ r : Role, r.name ≠ n := by
  rw [ofName?, List.find?_eq_none]
  constructor
  · intro h r
    simpa using h r r.mem_all
  · intro h r _
    simpa using h r

/-- Every role can be played by its own command. -/
theorem flaw?_defaultCommand (r : Role) : r.defaultCommand.flaw? = none := by
  cases r <;> decide +kernel

end Role

/-! ### Commands that can be run -/

namespace Command

theorem flaw?_eq_blank_iff {c : Command} :
    c.flaw? = some .blank ↔ ∀ ch ∈ c.run.toList, Text.isBlank ch = true := by
  rw [flaw?, ← List.all_eq_true]
  split
  · simp_all
  · split <;> simp_all

theorem flaw?_eq_noTime_iff {c : Command} :
    c.flaw? = some .noTime ↔
      (∃ ch ∈ c.run.toList, Text.isBlank ch = false) ∧ c.timeoutSecs = 0 := by
  have hblank : (∃ ch ∈ c.run.toList, Text.isBlank ch = false) ↔
      ¬ c.run.toList.all Text.isBlank = true := by
    simp
  rw [hblank, flaw?]
  split
  · simp_all
  · split <;> simp_all

theorem flaw?_eq_none_iff {c : Command} :
    c.flaw? = none ↔ (∃ ch ∈ c.run.toList, Text.isBlank ch = false) ∧ 0 < c.timeoutSecs := by
  have hblank : (∃ ch ∈ c.run.toList, Text.isBlank ch = false) ↔
      ¬ c.run.toList.all Text.isBlank = true := by
    simp
  rw [hblank, flaw?]
  split
  · simp_all
  · split <;> simp_all [Nat.pos_iff_ne_zero]

end Command

theorem Config.flaw?_eq_some_iff {c : Config} {r : Role} {flaw : CommandFlaw} :
    c.flaw? = some (r, flaw) ↔ ∃ before after, Role.all = before ++ r :: after ∧
      (c.command r).flaw? = some flaw ∧ ∀ q ∈ before, (c.command q).flaw? = none := by
  rw [flaw?, List.findSome?_eq_some_iff]
  constructor
  · rintro ⟨before, q, after, hall, hq, hbefore⟩
    obtain ⟨f, hf, heq⟩ := Option.map_eq_some_iff.mp hq
    obtain ⟨rfl, rfl⟩ := Prod.mk.inj heq
    exact ⟨before, after, hall, hf, fun p hp => Option.map_eq_none_iff.mp (hbefore p hp)⟩
  · rintro ⟨before, after, hall, hr, hbefore⟩
    refine ⟨before, r, after, hall, ?_, fun p hp => ?_⟩
    · rw [hr]
      rfl
    · rw [hbefore p hp]
      rfl

theorem Config.flaw?_eq_none_iff {c : Config} :
    c.flaw? = none ↔ ∀ r : Role, (c.command r).flaw? = none := by
  rw [flaw?, List.findSome?_eq_none_iff]
  constructor
  · intro h r
    exact Option.map_eq_none_iff.mp (h r r.mem_all)
  · intro h r _
    exact Option.map_eq_none_iff.mpr (h r)

namespace Settings

/-! ### Patches -/

/-- Of the entries for one name the last one is its patch. -/
theorem patch?_eq_some_iff {s : Settings} {name : String} {p : Patch} :
    s.patch? name = some p ↔ ∃ before after, s.commands = before ++ (name, p) :: after ∧
      ∀ e ∈ after, e.1 ≠ name := by
  have hlookup : ∀ es : List (String × Patch), es.lookup name = some p ↔
      ∃ before after, es = before ++ (name, p) :: after ∧ ∀ e ∈ before, e.1 ≠ name := by
    intro es
    rw [List.lookup_eq_some_iff]
    refine exists_congr fun before => exists_congr fun after => and_congr_right fun _ => ?_
    refine forall_congr' fun e => forall_congr' fun _ => ?_
    rw [bne_iff_ne, ne_comm]
  rw [patch?, hlookup]
  constructor
  · rintro ⟨before, after, hrev, hno⟩
    refine ⟨after.reverse, before.reverse, ?_, fun e he => hno e (List.mem_reverse.mp he)⟩
    rw [← List.reverse_reverse s.commands, hrev]
    simp
  · rintro ⟨before, after, heq, hno⟩
    refine ⟨after.reverse, before.reverse, ?_, fun e he => hno e (List.mem_reverse.mp he)⟩
    rw [heq]
    simp

/-- A name is listed if it has a patch. -/
theorem mem_names_iff {s : Settings} {name : String} :
    name ∈ s.commands.map Prod.fst ↔ ∃ p, s.patch? name = some p := by
  rw [← Option.isSome_iff_exists, patch?, List.lookup_isSome_iff, List.mem_map]
  refine exists_congr fun e => ?_
  rw [List.mem_reverse, beq_iff_eq, eq_comm]

/-- Where no name is listed twice its entry is its patch. -/
theorem patch?_iff_mem {s : Settings} (h : (s.commands.map Prod.fst).Nodup) {name : String}
    {p : Patch} : s.patch? name = some p ↔ (name, p) ∈ s.commands := by
  rw [patch?_eq_some_iff]
  constructor
  · rintro ⟨before, after, heq, -⟩
    rw [heq]
    exact List.mem_append_right before List.mem_cons_self
  · intro hmem
    obtain ⟨before, after, heq⟩ := List.append_of_mem hmem
    refine ⟨before, after, heq, fun e he hname => ?_⟩
    rw [heq, List.map_append, List.map_cons, List.nodup_append] at h
    exact (List.nodup_cons.mp h.2.1).1 (List.mem_map.mpr ⟨e, he, hname⟩)

/-! ### What comes of settings -/

def run (s : Settings) (r : Role) : String :=
  ((s.patch? r.name).bind Patch.run).getD r.defaultCommand.run

def timeoutSecs (s : Settings) (r : Role) : Nat :=
  ((s.patch? r.name).bind Patch.timeoutSecs).getD r.defaultCommand.timeoutSecs

/-- A name is listed that is no role's. -/
def Unknown (s : Settings) (name : String) : Prop :=
  (∃ p, s.patch? name = some p) ∧ ∀ r : Role, r.name ≠ name

def Usable (s : Settings) (r : Role) : Prop :=
  (∃ c ∈ (s.run r).toList, Text.isBlank c = false) ∧ 0 < s.timeoutSecs r

/-- What comes of settings. -/
inductive Yields (s : Settings) : Except ConfigError Config → Prop
  /-- A name is no role's. The least one is told, whatever else is set. -/
  | unknown {name : String} (hname : s.Unknown name) (hleast : ∀ n, s.Unknown n → name ≤ n) :
      Yields s (.error (.unknownCommand name))
  /-- The first role that is not usable has a blank line. -/
  | blank {before after : List Role} {r : Role} (hknown : ∀ n, ¬ s.Unknown n)
      (hall : Role.all = before ++ r :: after) (hfirst : ∀ q ∈ before, s.Usable q)
      (hblank : ∀ c ∈ (s.run r).toList, Text.isBlank c = true) :
      Yields s (.error (.invalid r .blank))
  /-- The first role that is not usable has a line, but no time. -/
  | noTime {before after : List Role} {r : Role} (hknown : ∀ n, ¬ s.Unknown n)
      (hall : Role.all = before ++ r :: after) (hfirst : ∀ q ∈ before, s.Usable q)
      (hline : ∃ c ∈ (s.run r).toList, Text.isBlank c = false) (htime : s.timeoutSecs r = 0) :
      Yields s (.error (.invalid r .noTime))
  /-- Every role is usable. -/
  | config (hknown : ∀ n, ¬ s.Unknown n) (husable : ∀ r, s.Usable r) :
      Yields s (.ok ⟨s.skipPaths.getD Config.default.skipPaths,
        s.fastLintTool.getD Config.default.fastLintTool, fun r => ⟨s.run r, s.timeoutSecs r⟩⟩)

theorem onto_default (s : Settings) :
    s.onto .default = ⟨s.skipPaths.getD Config.default.skipPaths,
      s.fastLintTool.getD Config.default.fastLintTool, fun r => ⟨s.run r, s.timeoutSecs r⟩⟩ := by
  have hcommand : (s.onto .default).command = fun r => ⟨s.run r, s.timeoutSecs r⟩ := by
    funext r
    rw [run, timeoutSecs]
    unfold onto
    dsimp only
    cases s.patch? r.name <;> rfl
  rw [← hcommand]
  rfl

theorem usable_iff {s : Settings} {r : Role} :
    s.Usable r ↔ ((s.onto .default).command r).flaw? = none := by
  rw [onto_default, Command.flaw?_eq_none_iff]
  rfl

/-- The first role that is not usable is the one that is found. -/
theorem flaw?_onto {s : Settings} {before after : List Role} {r : Role} {flaw : CommandFlaw}
    (hall : Role.all = before ++ r :: after) (hfirst : ∀ q ∈ before, s.Usable q)
    (hr : Command.flaw? ⟨s.run r, s.timeoutSecs r⟩ = some flaw) :
    (s.onto .default).flaw? = some (r, flaw) := by
  refine Config.flaw?_eq_some_iff.mpr ⟨before, after, hall, ?_, fun q hq => ?_⟩
  · rw [onto_default]
    exact hr
  · exact usable_iff.mp (hfirst q hq)

theorem mem_unknownNames_iff {s : Settings} {name : String} :
    name ∈ s.unknownNames ↔ s.Unknown name := by
  rw [unknownNames, List.mem_filter, mem_names_iff, Option.isNone_iff_eq_none,
    Role.ofName?_eq_none_iff, Unknown]

end Settings

namespace Config

theorem ofSettings_of_unknown {s : Settings} {name : String}
    (h : leastName s.unknownNames = some name) :
    ofSettings s = .error (.unknownCommand name) := by
  rw [ofSettings, h]

theorem ofSettings_of_flaw {s : Settings} {r : Role} {flaw : CommandFlaw}
    (h : leastName s.unknownNames = none) (hflaw : (s.onto default).flaw? = some (r, flaw)) :
    ofSettings s = .error (.invalid r flaw) := by
  simp only [ofSettings, h, hflaw]

theorem ofSettings_of_no_flaw {s : Settings} (h : leastName s.unknownNames = none)
    (hflaw : (s.onto default).flaw? = none) : ofSettings s = .ok (s.onto default) := by
  simp only [ofSettings, h, hflaw]

theorem leastName_unknownNames_iff {s : Settings} {name : String} :
    leastName s.unknownNames = some name ↔ s.Unknown name ∧ ∀ n, s.Unknown n → name ≤ n := by
  rw [leastName_eq_some_iff, Settings.mem_unknownNames_iff]
  refine and_congr_right fun _ => forall_congr' fun n => ?_
  rw [Settings.mem_unknownNames_iff]

theorem leastName_unknownNames_eq_none_iff {s : Settings} :
    leastName s.unknownNames = none ↔ ∀ n, ¬ s.Unknown n := by
  rw [leastName_eq_none_iff, List.eq_nil_iff_forall_not_mem]
  exact forall_congr' fun n => not_congr Settings.mem_unknownNames_iff

/-- Settings always lead somewhere. -/
theorem yields_ofSettings (s : Settings) : s.Yields (ofSettings s) := by
  cases hname : leastName s.unknownNames with
  | some name =>
    rw [ofSettings_of_unknown hname]
    obtain ⟨h, hleast⟩ := leastName_unknownNames_iff.mp hname
    exact .unknown h hleast
  | none =>
    have hknown := leastName_unknownNames_eq_none_iff.mp hname
    cases hflaw : (s.onto default).flaw? with
    | none =>
      rw [ofSettings_of_no_flaw hname hflaw]
      have husable : ∀ r, s.Usable r := fun r =>
        Settings.usable_iff.mpr (flaw?_eq_none_iff.mp hflaw r)
      rw [s.onto_default]
      exact .config hknown husable
    | some found =>
      obtain ⟨r, flaw⟩ := found
      rw [ofSettings_of_flaw hname hflaw]
      obtain ⟨before, after, hall, hr, hbefore⟩ := flaw?_eq_some_iff.mp hflaw
      have hfirst : ∀ q ∈ before, s.Usable q := fun q hq =>
        Settings.usable_iff.mpr (hbefore q hq)
      rw [s.onto_default] at hr
      cases flaw with
      | blank => exact .blank hknown hall hfirst (Command.flaw?_eq_blank_iff.mp hr)
      | noTime =>
        obtain ⟨hline, htime⟩ := Command.flaw?_eq_noTime_iff.mp hr
        exact .noTime hknown hall hfirst hline htime

/-- They lead to one thing only. -/
theorem eq_ofSettings_of_yields {s : Settings} {e : Except ConfigError Config}
    (h : s.Yields e) : e = ofSettings s := by
  cases h with
  | unknown hname hleast =>
    rw [ofSettings_of_unknown (leastName_unknownNames_iff.mpr ⟨hname, hleast⟩)]
  | blank hknown hall hfirst hblank =>
    have hflaw := Settings.flaw?_onto hall hfirst (Command.flaw?_eq_blank_iff.mpr hblank)
    rw [ofSettings_of_flaw (leastName_unknownNames_eq_none_iff.mpr hknown) hflaw]
  | noTime hknown hall hfirst hline htime =>
    have hflaw := Settings.flaw?_onto hall hfirst (Command.flaw?_eq_noTime_iff.mpr ⟨hline, htime⟩)
    rw [ofSettings_of_flaw (leastName_unknownNames_eq_none_iff.mpr hknown) hflaw]
  | config hknown husable =>
    have hflaw : (s.onto default).flaw? = none :=
      flaw?_eq_none_iff.mpr fun r => Settings.usable_iff.mp (husable r)
    rw [ofSettings_of_no_flaw (leastName_unknownNames_eq_none_iff.mpr hknown) hflaw, s.onto_default]

theorem yields_iff {s : Settings} {e : Except ConfigError Config} :
    s.Yields e ↔ e = ofSettings s := by
  constructor
  · exact eq_ofSettings_of_yields
  · rintro rfl
    exact yields_ofSettings s

/-! ### What it hangs on -/

/-- Settings that patch the same lead to the same. -/
theorem ofSettings_congr {s t : Settings} (hskip : t.skipPaths = s.skipPaths)
    (htool : t.fastLintTool = s.fastLintTool) (hpatch : ∀ name, t.patch? name = s.patch? name) :
    ofSettings t = ofSettings s := by
  have hunknown : t.Unknown = s.Unknown := by
    funext name
    rw [Settings.Unknown, Settings.Unknown, hpatch]
  have hrun : t.run = s.run := by
    funext r
    rw [Settings.run, Settings.run, hpatch]
  have htime : t.timeoutSecs = s.timeoutSecs := by
    funext r
    rw [Settings.timeoutSecs, Settings.timeoutSecs, hpatch]
  have husable : t.Usable = s.Usable := by
    funext r
    rw [Settings.Usable, Settings.Usable, hrun, htime]
  rw [← yields_iff]
  have h := yields_ofSettings t
  generalize ofSettings t = e at h ⊢
  cases h with
  | unknown hname hleast =>
    rw [hunknown] at hname hleast
    exact .unknown hname hleast
  | blank hknown hall hfirst hblank =>
    rw [hunknown] at hknown
    rw [husable] at hfirst
    rw [hrun] at hblank
    exact .blank hknown hall hfirst hblank
  | noTime hknown hall hfirst hline htime' =>
    rw [hunknown] at hknown
    rw [husable] at hfirst
    rw [hrun] at hline
    rw [htime] at htime'
    exact .noTime hknown hall hfirst hline htime'
  | config hknown husable' =>
    rw [hunknown] at hknown
    rw [husable] at husable'
    rw [hskip, htool, hrun, htime]
    exact .config hknown husable'

/-- The order in which commands are listed does not matter. -/
theorem ofSettings_perm {s : Settings} {commands : List (String × Patch)}
    (hperm : commands.Perm s.commands) (hdistinct : (s.commands.map Prod.fst).Nodup) :
    ofSettings { s with commands := commands } = ofSettings s := by
  refine ofSettings_congr rfl rfl fun name => ?_
  have hdistinct' : (commands.map Prod.fst).Nodup :=
    (hperm.map Prod.fst).nodup_iff.mpr hdistinct
  ext p
  rw [Settings.patch?_iff_mem hdistinct', Settings.patch?_iff_mem hdistinct]
  exact hperm.mem_iff

/-- Only what a role's own patch sets can be wrong with its command. -/
theorem patched_of_ofSettings {s : Settings} {r : Role} {flaw : CommandFlaw}
    (h : ofSettings s = .error (.invalid r flaw)) :
    ∃ p, s.patch? r.name = some p ∧ (flaw = .blank → p.run = some (s.run r)) ∧
      (flaw = .noTime → p.timeoutSecs = some 0) := by
  obtain ⟨hline, htime⟩ := Command.flaw?_eq_none_iff.mp r.flaw?_defaultCommand
  have hyields := yields_iff.mpr h.symm
  cases hyields with
  | blank _ _ _ hblank =>
    -- the role's own line is not blank, so the blank one is the patch's
    cases hpatch : (s.patch? r.name).bind Patch.run with
    | none =>
      rw [Settings.run, hpatch, Option.getD_none] at hblank
      obtain ⟨c, hc, hno⟩ := hline
      rw [hblank c hc] at hno
      exact absurd hno Bool.noConfusion
    | some line =>
      obtain ⟨p, hp, hrun⟩ := Option.bind_eq_some_iff.mp hpatch
      refine ⟨p, hp, fun _ => ?_, fun hflaw => absurd hflaw CommandFlaw.noConfusion⟩
      rw [Settings.run, hpatch, Option.getD_some, hrun]
  | noTime _ _ _ _ hzero =>
    cases hpatch : (s.patch? r.name).bind Patch.timeoutSecs with
    | none =>
      rw [Settings.timeoutSecs, hpatch, Option.getD_none] at hzero
      rw [hzero] at htime
      exact absurd htime (Nat.lt_irrefl 0)
    | some secs =>
      obtain ⟨p, hp, hsecs⟩ := Option.bind_eq_some_iff.mp hpatch
      refine ⟨p, hp, fun hflaw => absurd hflaw CommandFlaw.noConfusion, fun _ => ?_⟩
      rw [Settings.timeoutSecs, hpatch, Option.getD_some] at hzero
      rw [hsecs, hzero]

/-- **Settings are layered exactly.** What comes of them is one of four things; a role that is
refused has a patch that is to blame; a name's patch is the last entry for it; and nothing hangs on
more than the patches, so not on the order of the entries. -/
theorem ofSettings_exact (s : Settings) :
    (∀ e, s.Yields e ↔ e = ofSettings s) ∧
    (∀ r flaw, ofSettings s = .error (.invalid r flaw) →
      ∃ p, s.patch? r.name = some p ∧ (flaw = .blank → p.run = some (s.run r)) ∧
        (flaw = .noTime → p.timeoutSecs = some 0)) ∧
    (∀ name p, s.patch? name = some p ↔ ∃ before after,
      s.commands = before ++ (name, p) :: after ∧ ∀ e ∈ after, e.1 ≠ name) ∧
    (∀ t : Settings, t.skipPaths = s.skipPaths → t.fastLintTool = s.fastLintTool →
      (∀ name, t.patch? name = s.patch? name) → ofSettings t = ofSettings s) ∧
    ∀ commands, commands.Perm s.commands → (s.commands.map Prod.fst).Nodup →
      ofSettings { s with commands := commands } = ofSettings s := by
  refine ⟨fun _ => yields_iff, fun _ _ => patched_of_ofSettings,
    fun _ _ => Settings.patch?_eq_some_iff, fun _ => ofSettings_congr, fun _ => ofSettings_perm⟩

/-- A blank line is told before a budget of no time, and the lint before the tests of another
language, which are listed first. -/
theorem ofSettings_exact_lint :
    ofSettings ⟨none, none, [("cairo_test", ⟨none, some 0⟩), ("lint", ⟨some " ", some 0⟩)]⟩ =
      .error (.invalid .lint .blank) := by
  let s : Settings := ⟨none, none, [("lint", ⟨some " ", some 0⟩), ("cairo_test", ⟨none, some 0⟩)]⟩
  have hflaw : (s.onto default).flaw? = some (.lint, .blank) := by decide +kernel
  have hlint : ofSettings s = .error (.invalid .lint .blank) :=
    ofSettings_of_flaw (by decide) hflaw
  have hperm := (ofSettings_exact s).2.2.2.2 s.commands.reverse (List.reverse_perm _) (by decide)
  exact hperm.trans hlint

end Config

end QualityGate
