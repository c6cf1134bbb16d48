import QualityGate.Proofs.Check.Narrowing
import QualityGate.Session

/-! # The end of a session

At the end of a session the runner is asked four times: for the lint, for the modified files, for
the type check and for the duplicates. `Session.complete_findings` says which findings come of the
answers. Type errors are narrowed to the modified files by looking for the names of these anywhere
in a line. That lets in lines that are about other files, and it misses a modified file whose name
is not listed as the type checker prints it. -/

namespace QualityGate

/-- A runner with one answer for the lookup of the modified files and one for all else. -/
def Runner.ofLookup (listed other : Outcome) : Runner Unit :=
  .ofAnswers fun line =>
    if line = (Config.default.command .modifiedFiles).run then listed else other

/-! ### The type check of the completion pipeline -/

theorem Check.findings_typeCheck (lookup : Option Command) (modified : Option (List String))
    (o : Outcome) :
    (Check.typeCheck lookup false).findings modified o = Types.errors modified o := by
  rw [findings, if_neg (fun h => Bool.false_ne_true h.2)]

namespace Execution

variable {σ : Type}

/-- The answer to the lookup of the modified files. -/
def listed (e : Execution σ) (c : Config) (s : σ) : Outcome × σ :=
  e.runner s ((c.command .modifiedFiles).call none)

/-- The answer to the type check that follows. -/
def checked (e : Execution σ) (c : Config) (s : σ) : Outcome × σ :=
  e.runner (e.listed c s).2 ((c.command .typeCheck).call e.file)

theorem typeCheck_findings (e : Execution σ) {c : Config} {p : Step}
    (hp : p ∈ c.completionPipeline) (hlabel : p.label = "type check") (s : σ) :
    (e.step p s).findings = Types.errors (modifiedNames (e.listed c s).1) (e.checked c s).1 := by
  rw [Config.completionPipeline, List.mem_cons, List.mem_cons, List.mem_singleton] at hp
  rcases hp with rfl | rfl | rfl
  · exact absurd hlabel (show "lint" ≠ "type check" by decide)
  · exact Check.findings_typeCheck (some (c.command .modifiedFiles)) _ _
  · exact absurd hlabel (show "duplicates" ≠ "type check" by decide)

/-- **A narrowed type check blocks on files that are not listed only where a listed name misleads
it.** Where every diagnostic is about such a file, nothing is found exactly if no listed name gets
into any of them: into a part of its path, or behind its path. In general nothing is found exactly if
no listed name stands in a diagnostic line, and a diagnostic of a listed file has the file's name in
it. -/
theorem narrowed_typeCheck (e : Execution σ) {c : Config} {p : Step}
    (hp : p ∈ c.completionPipeline) (hlabel : p.label = "type check") (s : σ)
    (hl : (e.listed c s).1.succeeded = true) (hnames : ∃ n, (e.listed c s).1.Lists n)
    (hc : (e.checked c s).1.succeeded = false) :
    ((∀ l ∈ Types.diagnosticLines (e.checked c s).1, ∃ path, Types.IsDiagnostic path l ∧
        ¬ (e.listed c s).1.Lists (Path.displayName (String.ofList path))) →
      ((e.step p s).findings = [] ↔
        ∀ l ∈ Types.diagnosticLines (e.checked c s).1, ∀ n, (e.listed c s).1.Lists n →
          ¬ Types.Misleads n l)) ∧
    (∀ (n : String) path l, Types.IsDiagnostic path l → '/' ∉ n.toList → '(' ∉ n.toList →
      n ≠ Path.displayName (String.ofList path) →
      (Types.Misleads n l ↔ (∃ part ∈ Text.segments '/' path, n.toList <:+: part) ∨
        n.toList <:+: l.drop (path.length + 1))) ∧
    ((e.step p s).findings = [] ↔
      ∀ l ∈ Types.diagnosticLines (e.checked c s).1, ∀ n, (e.listed c s).1.Lists n →
        ¬ n.toList <:+: l) ∧
    ∀ l ∈ Types.diagnosticLines (e.checked c s).1, ∀ path, Types.IsDiagnostic path l →
      (e.listed c s).1.Lists (Path.displayName (String.ofList path)) →
      (e.step p s).findings ≠ [] := by
  rw [e.typeCheck_findings hp hlabel]
  have hiff := Types.errors_eq_nil_iff hl hc
  have hnone : Types.errors (modifiedNames (e.listed c s).1) (e.checked c s).1 = [] ↔
      ∀ l ∈ Types.diagnosticLines (e.checked c s).1, ∀ n, (e.listed c s).1.Lists n →
        ¬ n.toList <:+: l := by
    refine hiff.trans ⟨fun h l hmem n hn hin => h l ⟨hmem, .inr ⟨n, hn, hin⟩⟩, ?_⟩
    rintro h l ⟨hmem, hno | ⟨n, hn, hin⟩⟩
    · exact hnames.elim hno
    · exact h l hmem n hn hin
  refine ⟨fun huntouched => hnone.trans ⟨fun h l hmem n hn hmis => h l hmem n hn hmis.1, ?_⟩,
    fun n path l hd hslash hbracket hne => ?_, hnone, fun l hmem path hd hn hnil => ?_⟩
  · intro h l hmem n hn hin
    obtain ⟨path, hd, hother⟩ := huntouched l hmem
    exact h l hmem n hn ⟨hin, path, hd, fun heq => hother (heq ▸ hn)⟩
  · rw [← hd.infix_iff hslash hbracket]
    exact ⟨fun hmis => hmis.1, fun hin => ⟨hin, path, hd, hne⟩⟩
  · have hlines : l ∈ (e.checked c s).1.lines := (List.mem_filter.mp hmem).1
    exact hiff.mp hnil l (Types.counts_of_lists hd hlines hn)

/-- An error in a file that is not modified is left out. -/
theorem narrowed_typeCheck_untouched :
    ((Execution.mk (.ofLookup ⟨true, "page.tsx\n"⟩ ⟨false, "useX.ts(3,1): error TS2304"⟩)
        true none).step
      (Config.default.checkStep "type check" .typeCheck
        (.typeCheck (some (Config.default.command .modifiedFiles)) false)) ()).findings = [] := by
  let listed : Outcome := ⟨true, "page.tsx\n"⟩
  let checked : Outcome := ⟨false, "useX.ts(3,1): error TS2304"⟩
  let e : Execution Unit := ⟨.ofLookup listed checked, true, none⟩
  have hlines : listed.lines = ["page.tsx".toList] := by decide
  have hdiag : Types.diagnosticLines checked = ["useX.ts(3,1): error TS2304".toList] := by decide
  have hlists : listed.Lists "page.tsx" :=
    ⟨"page.tsx".toList, by rw [hlines]; exact List.mem_cons_self, by decide, by decide⟩
  have hname : ∀ n, listed.Lists n → n = "page.tsx" := by
    rintro n ⟨k, hk, -, rfl⟩
    rw [hlines, List.mem_singleton] at hk
    rw [hk]
    decide
  refine ((narrowed_typeCheck e (c := .default) (by decide) rfl () rfl ⟨_, hlists⟩ rfl).1 ?_).mpr ?_
  · intro l hl
    replace hl : l ∈ [_] := hdiag ▸ hl
    refine ⟨"useX.ts".toList, ⟨['3'], ['1'], "2304".toList, ?_⟩, fun hn => ?_⟩
    · rw [List.mem_singleton.mp hl]
      decide
    · exact absurd (hname _ hn) (by decide)
  · rintro l hl n hn ⟨hin, -⟩
    replace hl : l ∈ [_] := hdiag ▸ hl
    rw [List.mem_singleton.mp hl, hname n hn, ← Text.occursIn_iff] at hin
    exact absurd hin (by decide)

/-- The name of a modified file ends the name of another, so an error in the other one is found. -/
theorem narrowed_typeCheck_other_file :
    ¬ ∀ listed checked : Outcome, listed.succeeded = true → (∃ n, listed.Lists n) →
      checked.succeeded = false →
      (∀ l ∈ Types.diagnosticLines checked, ∃ path, Types.IsDiagnostic path l ∧
        ¬ listed.Lists (Path.displayName (String.ofList path))) →
      ∀ p ∈ Config.default.completionPipeline, p.label = "type check" →
        ((Execution.mk (.ofLookup listed checked) true none).step p ()).findings = [] := by
  intro h
  let listed : Outcome := ⟨true, "Header.tsx\n"⟩
  let checked : Outcome := ⟨false, "OldHeader.tsx(1,1): error TS2304"⟩
  have hlines : listed.lines = ["Header.tsx".toList] := by decide
  have hdiag : Types.diagnosticLines checked = ["OldHeader.tsx(1,1): error TS2304".toList] := by
    decide
  have hlists : listed.Lists "Header.tsx" :=
    ⟨"Header.tsx".toList, by rw [hlines]; exact List.mem_cons_self, by decide, by decide⟩
  have hother : ∀ l ∈ Types.diagnosticLines checked, ∃ path, Types.IsDiagnostic path l ∧
      ¬ listed.Lists (Path.displayName (String.ofList path)) := by
    intro l hl
    rw [hdiag, List.mem_singleton] at hl
    refine ⟨"OldHeader.tsx".toList, ⟨['1'], ['1'], "2304".toList, by rw [hl]; decide⟩, ?_⟩
    rintro ⟨k, hk, -, hname⟩
    rw [hlines, List.mem_singleton] at hk
    rw [hk] at hname
    exact absurd hname (by decide)
  have hfound := h listed checked rfl ⟨_, hlists⟩ rfl hother
    (Config.default.checkStep "type check" .typeCheck
      (.typeCheck (some (Config.default.command .modifiedFiles)) false)) (by decide) rfl
  exact absurd hfound (by decide)

end Execution

/-! ### The whole pipeline -/

namespace Session

variable {σ : Type}

/-- The answers at the end of a session. -/
structure Answers where
  lint : Outcome
  listed : Outcome
  checked : Outcome
  clones : Outcome

/-- What the runner answers at the end of a session. -/
def answers (x : Session σ) (s : σ) : Answers :=
  let lint := x.runner s ((x.config.command .lint).call none)
  let listed := x.runner lint.2 ((x.config.command .modifiedFiles).call none)
  let checked := x.runner listed.2 ((x.config.command .typeCheck).call none)
  let clones := x.runner checked.2 ((x.config.command .duplicates).call none)
  ⟨lint.1, listed.1, checked.1, clones.1⟩

theorem complete_findings (x : Session σ) (s : σ) :
    (x.complete s).findings =
      Lint.summary (x.answers s).lint ++
        (Types.errors (modifiedNames (x.answers s).listed) (x.answers s).checked ++
          Duplicates.exactClones (x.answers s).clones) := by
  have htypes := Check.findings_typeCheck (some (x.config.command .modifiedFiles))
    (modifiedNames (x.answers s).listed) (x.answers s).checked
  rw [← htypes, ← List.append_nil (Duplicates.exactClones _)]
  rfl

/-- The verdict has an error of the type check, whose count is that of the lines that count, and the
line is one of these. -/
def ReportsLine (x : Session σ) (s : σ) (l : List Char) : Prop :=
  let lines := Types.counted (modifiedNames (x.answers s).listed) (x.answers s).checked
  l ∈ lines ∧ ∃ f ∈ (x.complete s).verdict.findings, ∃ noun : String,
    f.category = .types ∧ f.severity = .error ∧ f.message = s!"TypeScript: {lines.length} {noun}"

theorem reportsLine_iff (x : Session σ) {s : σ} (hl : (x.answers s).listed.succeeded = true)
    (hc : (x.answers s).checked.succeeded = false) (l : List Char) :
    x.ReportsLine s l ↔ Types.Counts (x.answers s).listed (x.answers s).checked l := by
  have hcount := Types.mem_counted hl (x.answers s).checked l
  refine ⟨fun h => hcount.mp h.1, fun h => ⟨hcount.mpr h, ?_⟩⟩
  have hmem := hcount.mpr h
  obtain ⟨noun, length, hreport⟩ := Types.errors_eq hc (modifiedNames (x.answers s).listed)
  rw [Trace.verdict, x.complete_findings, hreport]
  cases hlines : Types.counted (modifiedNames (x.answers s).listed) (x.answers s).checked with
  | nil =>
    rw [hlines] at hmem
    exact absurd hmem List.not_mem_nil
  | cons k ks =>
    refine ⟨_, List.mem_append_right _ (List.mem_append_left _ (List.mem_singleton.mpr rfl)), noun,
      rfl, rfl, rfl⟩

end Session

/-! ### Paths as they are listed -/

/-- A byte that is not listed as it is: a control character, a double quote, a backslash, or a byte
that is not ASCII. -/
def isEscaped (b : UInt8) : Bool := b < 0x20 || b == 0x22 || b == 0x5C || 0x7F ≤ b

/-- A byte between double quotes, where an escaped one is a letter or three octal digits behind a
backslash. -/
def escapeByte (b : UInt8) : List Char :=
  let digit (n : Nat) : Char := Char.ofNat ('0'.toNat + n % 8)
  if b = 0x07 then ['\\', 'a']
  else if b = 0x08 then ['\\', 'b']
  else if b = 0x09 then ['\\', 't']
  else if b = 0x0A then ['\\', 'n']
  else if b = 0x0B then ['\\', 'v']
  else if b = 0x0C then ['\\', 'f']
  else if b = 0x0D then ['\\', 'r']
  else if b = 0x22 then ['\\', '"']
  else if b = 0x5C then ['\\', '\\']
  else if isEscaped b then
    ['\\', digit (b.toNat / 64), digit (b.toNat / 8), digit b.toNat]
  else [Char.ofNat b.toNat]

/-- The line that lists a path: the path itself, or its bytes between double quotes if one of them
has to be escaped. -/
def listing (path : List Char) : List Char :=
  let bytes := Text.Utf8.encode path
  if bytes.any isEscaped then '"' :: (bytes.flatMap escapeByte ++ ['"']) else path

/-- A listed path with escapes stands between double quotes. -/
theorem listing_cases (path : List Char) :
    listing path = path ∨ ∃ s, listing path = '"' :: (s ++ ['"']) := by
  rw [listing]
  split
  · exact .inr ⟨_, rfl⟩
  · exact .inl rfl

theorem trim_quoted (s : List Char) : Text.trim ('"' :: (s ++ ['"'])) = '"' :: (s ++ ['"']) := by
  refine Text.trim_of_not_blank ?_ ?_
  · intro c hc
    rw [← Option.some.inj hc]
    decide
  · intro c hc
    rw [← List.cons_append, List.getLast?_concat] at hc
    rw [← Option.some.inj hc]
    decide

namespace Session

variable {σ : Type}

/-- **A diagnostic of a modified file is reported exactly where a listed name occurs in it, or no
name is listed at all.** A path that is listed as it is always has its name in the line. One that is
listed between double quotes never has, unless the line has a double quote or another file's name in
it. -/
theorem counts_modified (x : Session σ) (s : σ) {path l : List Char}
    (hl : (x.answers s).listed.succeeded = true)
    (hpath : listing path ∈ (x.answers s).listed.lines)
    (hc : (x.answers s).checked.succeeded = false) (hmem : l ∈ (x.answers s).checked.lines)
    (hd : Types.IsDiagnostic path l) :
    (x.ReportsLine s l ↔ (∀ n, ¬ (x.answers s).listed.Lists n) ∨
      ∃ n, (x.answers s).listed.Lists n ∧ n.toList <:+: l) ∧
    (listing path = path → Text.trim path ≠ [] → x.ReportsLine s l) ∧
    (listing path ≠ path → '"' ∉ l →
      (∀ k ∈ (x.answers s).listed.lines, Text.trim k = [] ∨ k = listing path) →
      ¬ x.ReportsLine s l) := by
  have hiff := x.reportsLine_iff hl hc l
  have hdiag := hd.mem_diagnosticLines hmem
  rw [Types.Counts, and_iff_right hdiag] at hiff
  refine ⟨hiff, fun hq hne => ?_, fun hq hquote hall hreports => ?_⟩
  · have hname := Path.displayName_infix (String.ofList (Text.trim path))
    rw [String.toList_ofList] at hname
    rw [hq] at hpath
    refine hiff.mpr (.inr ⟨_, ⟨path, hpath, hne, rfl⟩, ?_⟩)
    exact (hname.trans (Text.trim_infix path)).trans hd.infix
  · obtain ⟨q, hlist⟩ := (listing_cases path).resolve_left hq
    have htrim := trim_quoted q
    rcases hiff.mp hreports with hno | ⟨n, ⟨k, hk, hne, rfl⟩, hin⟩
    · refine hno _ ⟨listing path, hpath, ?_, rfl⟩
      rw [hlist, htrim]
      exact List.cons_ne_nil _ _
    · have hkq : k = '"' :: (q ++ ['"']) := ((hall k hk).resolve_left hne).trans hlist
      rw [hkq, htrim, ← List.cons_append] at hin
      obtain ⟨name, hname⟩ := Path.displayName_concat (c := '"') (by decide) (by decide) ('"' :: q)
      rw [hname] at hin
      exact hquote (hin.subset List.mem_concat_self)

/-- A file whose name is not ASCII is listed between double quotes, and an error in it is missed. -/
theorem counts_modified_misses :
    ¬ (Session.mk "/repo" .default
        (.ofLookup ⟨true, "\"\\303\\251.ts\"\n"⟩ ⟨false, "é.ts(1,1): error TS2304"⟩)
        true (fun _ _ => none)).ReportsLine () "é.ts(1,1): error TS2304".toList := by
  let listed : Outcome := ⟨true, "\"\\303\\251.ts\"\n"⟩
  let checked : Outcome := ⟨false, "é.ts(1,1): error TS2304"⟩
  let x : Session Unit := ⟨"/repo", .default, .ofLookup listed checked, true, fun _ _ => none⟩
  have hl : (x.answers ()).listed = listed := by decide
  have hc : (x.answers ()).checked = checked := by decide
  have hlisting : listing "é.ts".toList = "\"\\303\\251.ts\"".toList := by decide
  have hlines : listed.lines = ["\"\\303\\251.ts\"".toList] := by decide
  have hmem : listing "é.ts".toList ∈ (x.answers ()).listed.lines := by
    rw [hl, hlines, hlisting]
    exact List.mem_cons_self
  have hd : Types.IsDiagnostic "é.ts".toList "é.ts(1,1): error TS2304".toList :=
    ⟨['1'], ['1'], "2304".toList, by decide⟩
  refine (counts_modified x () (by rw [hl]) hmem (by rw [hc]) (by rw [hc]; decide) hd).2.2
    (by rw [hlisting]; decide) (by decide) ?_
  intro k hk
  rw [hl, hlines, List.mem_singleton] at hk
  rw [hk, hlisting]
  exact .inr rfl

end Session

end QualityGate
