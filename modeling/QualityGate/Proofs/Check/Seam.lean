import QualityGate.Proofs.Check.Kept
import QualityGate.Proofs.Text.LowerCase
import QualityGate.Proofs.Text.Seam

/-! # Outputs laid end to end

The output of a command is what it printed on one stream and then on the other one. If the first
part ends its last line, then nothing is found across the seam: a word is mentioned as often as in
both parts together (`Outcome.mentionCount_append`), and the lines are those of the parts.

So the checks that count add their counts up, and the ones that look for lines find those of the
first part first (`Outcome.counts_append`). The words that are counted do not overlap themselves,
which makes each count the number of all positions of the word. -/

namespace QualityGate

open Text (EndsLine Folds InLine LowerCase Unbordered positions)
open QualityGate.Types (TellsKept firstKept? keptCount)

variable {a : String}

/-! ### Counts and lines of the two parts -/

namespace Outcome

variable {word : String}

theorem lines_append (ok : Bool) (ha : EndsLine a.toList) (b : String) :
    (mk ok (a ++ b)).lines = (mk ok a).lines ++ (mk ok b).lines := by
  simp only [lines, String.toList_append, Text.lines_append ha]

/-- A word is mentioned at all of its positions in the output in lower case. -/
theorem mentionCount_eq_positions {o : Outcome} {l : List Char} (hl : LowerCase o.output.toList l)
    (hfolds : Folds word.toList) (hword : Unbordered word.toList) (hne : word.toList ≠ []) :
    o.mentionCount word = positions word.toList l := by
  rw [mentionCount, Text.occurrences_eq_positions hword hne,
    Text.positions_lowerCase hl hfolds hne]

theorem mentionCount_append (ok : Bool) (hword : Unbordered word.toList) (hline : InLine word.toList)
    (hne : word.toList ≠ []) (ha : EndsLine a.toList) (b : String) :
    (mk ok (a ++ b)).mentionCount word =
      (mk ok a).mentionCount word + (mk ok b).mentionCount word := by
  simp only [mentionCount, Text.fold, String.toList_append, List.map_append]
  exact Text.occurrences_append hword hline hne ha.fold _

end Outcome

theorem Duplicates.cloneCount_append (ok : Bool) (ha : EndsLine a.toList) (b : String) :
    cloneCount ⟨ok, a ++ b⟩ = cloneCount ⟨ok, a⟩ + cloneCount ⟨ok, b⟩ := by
  simp only [cloneCount, String.toList_append]
  exact Text.occurrences_append (by decide) (by decide) (by decide) ha _

theorem Types.keptCount_append (names : Option (Finset String)) (ok : Bool)
    (ha : EndsLine a.toList) (b : String) :
    keptCount names ⟨ok, a ++ b⟩ = keptCount names ⟨ok, a⟩ + keptCount names ⟨ok, b⟩ := by
  simp only [keptCount, Outcome.lines_append ok ha, List.countP_append]

theorem Types.firstKept?_append (names : Option (Finset String)) (ok : Bool)
    (ha : EndsLine a.toList) (b : String) :
    firstKept? names ⟨ok, a ++ b⟩ =
      (firstKept? names ⟨ok, a⟩).or (firstKept? names ⟨ok, b⟩) := by
  simp only [firstKept?, Outcome.lines_append ok ha, List.find?_append]

/-! ### Findings of the two parts -/

theorem take_append_take {α : Type} (n : Nat) (l k : List α) :
    (l.take n ++ k.take n).take n = (l ++ k).take n := by
  rw [List.take_append, List.take_append, List.take_take, List.take_take, List.length_take,
    Nat.min_self]
  congr 2
  omega

theorem Lint.diagnostics_append (tool : String) (ok : Bool) (ha : EndsLine a.toList) (b : String) :
    diagnostics tool ⟨ok, a ++ b⟩ =
      (diagnostics tool ⟨ok, a⟩ ++ diagnostics tool ⟨ok, b⟩).take diagnosticLimit := by
  simp only [diagnostics, diagnosticLines, Outcome.lines_append ok ha, List.map_append,
    List.filter_append]
  rw [← List.map_append, ← List.map_take, take_append_take]

/-- The excerpt is of the first part, if a line is kept there. -/
theorem Types.detail_append (modified : Option (List String)) (ha : EndsLine a.toList) (b : String)
    (hkept : 0 < keptCount (modified.map List.toFinset) ⟨false, a⟩) :
    (errors modified ⟨false, a ++ b⟩).map Finding.detail =
      (errors modified ⟨false, a⟩).map Finding.detail := by
  obtain ⟨l, hl, hfirst⟩ := (tellsKept_errors rfl modified).tells hkept
  have hmore : 0 < keptCount (modified.map List.toFinset) ⟨false, a ++ b⟩ := by
    rw [keptCount_append _ _ ha]
    exact Nat.add_pos_left hkept _
  obtain ⟨k, hk, hboth⟩ := (tellsKept_errors rfl modified).tells hmore
  rw [firstKept?_append _ _ ha, hl, Option.some_or, Option.some.injEq] at hk
  rw [hfirst, hboth, hk]
  rfl

namespace Outcome

/-- Each count is the number of all positions of a word in the output, which is in lower case where
letter case does not matter. -/
structure CountsPositions (o : Outcome) : Prop where
  mentions : ∀ word ∈ ["error", "unused"], ∀ l, LowerCase o.output.toList l →
    o.mentionCount word = positions word.toList l
  clones : Duplicates.cloneCount o = positions "Clone found".toList o.output.toList

/-- The counts of the whole are those of the two parts together. -/
structure CountsAdd (whole first second : Outcome) : Prop where
  mentions : ∀ word ∈ ["error", "unused"],
    whole.mentionCount word = first.mentionCount word + second.mentionCount word
  clones : Duplicates.cloneCount whole = Duplicates.cloneCount first + Duplicates.cloneCount second
  kept : ∀ names, keptCount names whole = keptCount names first + keptCount names second

/-- What is found in the whole comes from the counts and the lines of the two parts. -/
structure FindsSum (whole first second : Outcome) : Prop where
  remaining : Lint.remaining whole =
    let n := first.mentionCount "error" + second.mentionCount "error"
    if 0 < n then [.error .lint s!"Lint: {n} error(s) remain"]
    else [.info .lint "Lint passed/fixed"]
  clones : ∀ (scope : String) (reportClean : Bool), Duplicates.clones scope reportClean whole =
    let n := Duplicates.cloneCount first + Duplicates.cloneCount second
    if 0 < n then [.warning .duplicates s!"{n} duplicate block(s) in {scope}"]
    else if reportClean then [.info .duplicates s!"No duplicates in {scope}"]
    else []
  unusedExports : Imports.unusedExports whole =
    let n := first.mentionCount "unused" + second.mentionCount "unused"
    if 5 < n then [.warning .unusedExports s!"~{n} unused exports detected"] else []
  diagnostics : ∀ tool : String,
    Lint.diagnostics tool whole =
      (Lint.diagnostics tool first ++ Lint.diagnostics tool second).take 3
  types : whole.succeeded = false → ∀ modified : Option (List String),
    TellsKept (modified.map List.toFinset) whole (Types.errors modified whole) ∧
    (0 < keptCount (modified.map List.toFinset) first →
      (Types.errors modified whole).map Finding.detail =
        (Types.errors modified first).map Finding.detail)

/-- What is needed of a word that is counted in any letter case. -/
theorem word_of_mem {word : String} (h : word ∈ ["error", "unused"]) :
    Folds word.toList ∧ Unbordered word.toList ∧ InLine word.toList ∧ word.toList ≠ [] := by
  revert word
  decide

theorem countsPositions (o : Outcome) : o.CountsPositions where
  mentions word hword l hl := by
    obtain ⟨hfolds, hunbordered, -, hne⟩ := word_of_mem hword
    exact mentionCount_eq_positions hl hfolds hunbordered hne
  clones := Text.occurrences_eq_positions (by decide) (by decide) _

theorem countsAdd (ok : Bool) (ha : EndsLine a.toList) (b : String) :
    CountsAdd ⟨ok, a ++ b⟩ ⟨ok, a⟩ ⟨ok, b⟩ where
  mentions word hword := by
    obtain ⟨-, hunbordered, hline, hne⟩ := word_of_mem hword
    exact mentionCount_append ok hunbordered hline hne ha b
  clones := Duplicates.cloneCount_append ok ha b
  kept names := Types.keptCount_append names ok ha b

/-- **The counts of two parts add up** where the first part ends its last line, and each count is
that of all positions. What is found in the whole is decided by the sums; the fast linter has its
first three diagnostics in both parts together, and the excerpt of a failed type check is that of
the first part if a line is kept there. -/
theorem counts_append (ok : Bool) {a : String} (ha : EndsLine a.toList) (b : String) :
    (∀ o : Outcome, o.CountsPositions) ∧ CountsAdd ⟨ok, a ++ b⟩ ⟨ok, a⟩ ⟨ok, b⟩ ∧
      FindsSum ⟨ok, a ++ b⟩ ⟨ok, a⟩ ⟨ok, b⟩ := by
  have hadd := countsAdd ok ha b
  refine ⟨countsPositions, hadd, ?_, ?_, ?_, ?_, ?_⟩
  · rw [Lint.remaining, hadd.mentions "error" (by decide)]
  · intro scope reportClean
    rw [Duplicates.clones, hadd.clones]
  · rw [Imports.unusedExports, hadd.mentions "unused" (by decide)]
    rfl
  · exact fun tool => Lint.diagnostics_append tool ok ha b
  · rintro rfl modified
    exact ⟨Types.tellsKept_errors rfl modified, Types.detail_append modified ha b⟩

theorem counts_append_unused :
    EndsLine "unused a\nUnused b\n".toList ∧
      Imports.unusedExports ⟨true, "unused a\nUnused b\n" ++ "unused unused unused UNUSED"⟩ =
        [.warning .unusedExports "~6 unused exports detected"] := by
  have ha : EndsLine "unused a\nUnused b\n".toList := by decide
  refine ⟨ha, (counts_append true ha "unused unused unused UNUSED").2.2.unusedExports.trans ?_⟩
  decide

end Outcome

end QualityGate
