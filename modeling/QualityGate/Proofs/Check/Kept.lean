import Mathlib.Data.Finset.Dedup
import Mathlib.Data.Finset.Lattice.Basic
import QualityGate.Proofs.Check.Narrowing

/-! # Lines that are kept

A failed type check keeps the lines with its mark in them. When the names of the modified files are
known, it only keeps those that have one of the names in them too (`Types.Keeps`). The findings tell
how many lines are kept, and the start of the first one (`Types.tellsKept_errors`).

So the names are a filter on the lines of an output. It does not matter in which order they are
known, or how often. More of them keep more lines (`Types.keptCount_mono`), but no more than are kept
without any names, and what two sets of names keep together is kept by one of them
(`Types.keptCount_union_le`). -/

namespace QualityGate.Types

variable {o : Outcome} {names : Option (Finset String)}

/-- The line has the mark in it, and one of the names if they are known. -/
def Keeps (names : Option (Finset String)) (l : List Char) : Prop :=
  marker.toList <:+: l ∧ ∀ S ∈ names, ∃ n ∈ S, n.toList <:+: l

instance (names : Option (Finset String)) : DecidablePred (Keeps names) := fun l =>
  decidable_of_iff
    (Text.occursIn marker.toList l = true ∧
      ∀ S ∈ names, ∃ n ∈ S, Text.occursIn n.toList l = true) <| by
    simp only [Keeps, Text.occursIn_iff]

def keptCount (names : Option (Finset String)) (o : Outcome) : Nat :=
  o.lines.countP fun l => Keeps names l

def firstKept? (names : Option (Finset String)) (o : Outcome) : Option (List Char) :=
  o.lines.find? fun l => Keeps names l

/-- What the findings call the lines that are kept. -/
def keptNoun (names : Option (Finset String)) : String :=
  names.elim "error(s)" fun _ => "error(s) in modified files"

/-- The findings are one error with the number of the lines that are kept, and an excerpt of the
first of them, which is shorter if the names are known; there are none if no line is kept. -/
structure TellsKept (names : Option (Finset String)) (o : Outcome) (fs : List Finding) : Prop where
  silent : keptCount names o = 0 → fs = []
  tells : 0 < keptCount names o → ∃ l, firstKept? names o = some l ∧
    fs = [⟨.types, .error, s!"TypeScript: {keptCount names o} {keptNoun names}",
      some (String.ofList (l.take (names.elim 120 fun _ => 100)))⟩]

/-! ### The report -/

theorem counted_eq_filter (modified : Option (List String)) (o : Outcome) :
    counted modified o = o.lines.filter fun l => Keeps (modified.map List.toFinset) l := by
  cases modified with
  | none =>
    refine List.filter_congr fun l _ => ?_
    rw [Bool.eq_iff_iff, decide_eq_true_eq]
    simp [Keeps, Text.occursIn_iff]
  | some names =>
    rw [counted, Option.elim_some, narrowed, diagnosticLines, List.filter_filter]
    refine List.filter_congr fun l _ => ?_
    rw [Bool.eq_iff_iff, decide_eq_true_eq]
    simp [Keeps, Text.occursIn_iff, and_comm]

theorem errors_of_succeeded (ho : o.succeeded = true) (modified : Option (List String)) :
    errors modified o = [] := by
  cases modified <;> exact if_pos ho

theorem errors_of_failed (ho : o.succeeded = false) (modified : Option (List String)) :
    errors modified o =
      report (keptNoun (modified.map List.toFinset)) (modified.elim 120 fun _ => 100)
        (counted modified o) := by
  have hfailed : ¬ o.succeeded = true := by
    rw [ho]
    exact Bool.false_ne_true
  cases modified <;> exact if_neg hfailed

theorem report_of_pos {noun : String} {length : Nat} {ls : List (List Char)} (h : 0 < ls.length) :
    ∃ l, ls.head? = some l ∧ report noun length ls =
      [⟨.types, .error, s!"TypeScript: {ls.length} {noun}", some (String.ofList (l.take length))⟩] := by
  obtain ⟨l, ls, rfl⟩ := List.exists_cons_of_length_pos h
  exact ⟨l, rfl, rfl⟩

/-- **A failed type check tells the lines that are kept.** -/
theorem tellsKept_errors (ho : o.succeeded = false) (modified : Option (List String)) :
    TellsKept (modified.map List.toFinset) o (errors modified o) := by
  have hfilter := counted_eq_filter modified o
  have hcount : keptCount (modified.map List.toFinset) o = (counted modified o).length := by
    rw [hfilter]
    exact List.countP_eq_length_filter
  have hfirst : firstKept? (modified.map List.toFinset) o = (counted modified o).head? := by
    rw [hfilter]
    exact List.head?_filter.symm
  rw [errors_of_failed ho modified]
  constructor
  · rw [hcount]
    intro hzero
    rw [List.eq_nil_of_length_eq_zero hzero]
    rfl
  · rw [hcount, hfirst, Option.elim_map]
    exact report_of_pos

/-- What is told depends on the set of the names only. -/
theorem errors_congr {names others : List String} (h : ∀ n, n ∈ names ↔ n ∈ others)
    (o : Outcome) : errors (some names) o = errors (some others) o := by
  have hany : narrowed names o = narrowed others o := by
    refine List.filter_congr fun l _ => ?_
    rw [Bool.eq_iff_iff, List.any_eq_true, List.any_eq_true]
    exact exists_congr fun n => and_congr_left fun _ => h n
  simp only [errors, hany]

/-! ### More names and fewer -/

theorem Keeps.mono {S T : Finset String} (h : S ⊆ T) {l : List Char} (hl : Keeps (some S) l) :
    Keeps (some T) l := by
  obtain ⟨hmark, hname⟩ := hl
  obtain ⟨n, hn, hin⟩ := hname S rfl
  refine ⟨hmark, fun U hU => ⟨n, ?_, hin⟩⟩
  rw [← Option.some.inj hU]
  exact h hn

theorem Keeps.of_union {S T : Finset String} {l : List Char} (hl : Keeps (some (S ∪ T)) l) :
    Keeps (some S) l ∨ Keeps (some T) l := by
  obtain ⟨hmark, hname⟩ := hl
  obtain ⟨n, hn, hin⟩ := hname (S ∪ T) rfl
  have hkeeps : ∀ U : Finset String, n ∈ U → Keeps (some U) l := fun U hU =>
    ⟨hmark, fun V hV => ⟨n, Option.some.inj hV ▸ hU, hin⟩⟩
  exact (Finset.mem_union.mp hn).imp (hkeeps S) (hkeeps T)

theorem keptCount_le (S : Finset String) (o : Outcome) :
    keptCount (some S) o ≤ keptCount none o := by
  refine List.countP_mono_left fun l _ hl => ?_
  rw [decide_eq_true_eq] at hl ⊢
  exact ⟨hl.1, fun _ h => absurd h (Option.not_mem_none _)⟩

theorem keptCount_mono {S T : Finset String} (h : S ⊆ T) (o : Outcome) :
    keptCount (some S) o ≤ keptCount (some T) o := by
  refine List.countP_mono_left fun l _ hl => ?_
  rw [decide_eq_true_eq] at hl ⊢
  exact hl.mono h

theorem keptCount_union_le (S T : Finset String) (o : Outcome) :
    keptCount (some (S ∪ T)) o ≤ keptCount (some S) o + keptCount (some T) o := by
  rw [keptCount, keptCount, keptCount]
  induction o.lines with
  | nil => exact Nat.le_refl 0
  | cons l ls ih =>
    rw [List.countP_cons, List.countP_cons, List.countP_cons]
    -- a line that both sets keep is counted twice on the right
    by_cases hl : Keeps (some (S ∪ T)) l
    · rcases hl.of_union with hS | hT
      · simp only [hl, hS, decide_true, if_true]
        omega
      · simp only [hl, hT, decide_true, if_true]
        omega
    · simp only [hl, decide_false, Bool.false_eq_true, if_false]
      omega

end QualityGate.Types
