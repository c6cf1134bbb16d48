import QualityGate.Check
import QualityGate.Proofs.Path

/-! # Narrowing

A lookup lists names (`Outcome.Lists`), and a failed type check counts the diagnostic lines that
have one of them anywhere, or all of them when no name is listed (`Types.Counts`). `Types.errors_eq`
says that the report is one error with the number of these lines, or nothing if there are none. A
line that reports an error at a place of a listed file counts (`Types.counts_of_lists`), but so does
one about another file into which a listed name gets by accident (`Types.Misleads`): inside a part of
the path, or in the message. -/

namespace QualityGate

/-- A lookup lists the name that is shown for a path, for each of its lines that is not blank. -/
def Outcome.Lists (o : Outcome) (name : String) : Prop :=
  ∃ l ∈ o.lines, Text.trim l ≠ [] ∧ name = Path.displayName (String.ofList (Text.trim l))

/-- The paths that a lookup prints. -/
theorem mem_listedPaths {o : Outcome} {p : List Char} :
    p ∈ (o.lines.map Text.trim).filter (· ≠ []) ↔
      ∃ l ∈ o.lines, Text.trim l ≠ [] ∧ p = Text.trim l := by
  rw [List.mem_filter, List.mem_map, decide_eq_true_eq]
  constructor
  · rintro ⟨⟨l, hl, rfl⟩, hne⟩
    exact ⟨l, hl, hne, rfl⟩
  · rintro ⟨l, hl, hne, rfl⟩
    exact ⟨⟨l, hl, rfl⟩, hne⟩

theorem mem_of_modifiedNames {o : Outcome} {names : List String}
    (h : modifiedNames o = some names) (n : String) : n ∈ names ↔ o.Lists n := by
  rw [modifiedNames] at h
  split at h
  · split at h
    · exact absurd h.symm (Option.some_ne_none names)
    · rw [← Option.some.inj h, List.mem_eraseDups, List.mem_map]
      constructor
      · rintro ⟨p, hp, rfl⟩
        obtain ⟨l, hl, hne, rfl⟩ := mem_listedPaths.mp hp
        exact ⟨l, hl, hne, rfl⟩
      · rintro ⟨l, hl, hne, rfl⟩
        exact ⟨Text.trim l, mem_listedPaths.mpr ⟨l, hl, hne, rfl⟩, rfl⟩
  · exact absurd h.symm (Option.some_ne_none names)

theorem modifiedNames_eq_none_iff {o : Outcome} (ho : o.succeeded = true) :
    modifiedNames o = none ↔ ∀ n, ¬ o.Lists n := by
  rw [modifiedNames, if_pos ho]
  constructor
  · rintro h n ⟨l, hl, hne, -⟩
    split at h
    · rename_i hnil
      have hmem := mem_listedPaths.mpr ⟨l, hl, hne, rfl⟩
      rw [hnil] at hmem
      exact absurd hmem List.not_mem_nil
    · exact absurd h (Option.some_ne_none _)
  · intro h
    have hnil : (o.lines.map Text.trim).filter (· ≠ []) = [] := by
      refine List.eq_nil_iff_forall_not_mem.mpr fun p hp => ?_
      obtain ⟨l, hl, hne, -⟩ := mem_listedPaths.mp hp
      exact h _ ⟨l, hl, hne, rfl⟩
    rw [hnil]

namespace Types

/-- The lines that a failed type check counts. -/
def counted (modified : Option (List String)) (o : Outcome) : List (List Char) :=
  modified.elim (diagnosticLines o) (narrowed · o)

/-- A line of a failed type check that counts when the lookup succeeded: a diagnostic line that has
a listed name in it, if any name is listed. -/
def Counts (listed checked : Outcome) (l : List Char) : Prop :=
  l ∈ diagnosticLines checked ∧
    ((∀ n, ¬ listed.Lists n) ∨ ∃ n, listed.Lists n ∧ n.toList <:+: l)

theorem mem_counted {listed : Outcome} (hl : listed.succeeded = true) (checked : Outcome)
    (l : List Char) : l ∈ counted (modifiedNames listed) checked ↔ Counts listed checked l := by
  rw [Counts, ← modifiedNames_eq_none_iff hl]
  cases hm : modifiedNames listed with
  | none => simp [counted]
  | some names =>
    have hnames := mem_of_modifiedNames hm
    rw [counted, Option.elim_some, narrowed, List.mem_filter, List.any_eq_true]
    simp only [hnames, Text.occursIn_iff, reduceCtorEq, false_or]

/-- The report on the lines that count. -/
theorem errors_eq {o : Outcome} (ho : o.succeeded = false) (modified : Option (List String)) :
    ∃ noun length, errors modified o = report noun length (counted modified o) := by
  have hno : ¬ o.succeeded = true := by
    rw [ho]
    exact Bool.false_ne_true
  cases modified with
  | none => exact ⟨_, _, if_neg hno⟩
  | some names => exact ⟨_, _, if_neg hno⟩

theorem report_eq_nil_iff {noun : String} {length : Nat} {ls : List (List Char)} :
    report noun length ls = [] ↔ ls = [] := by
  cases ls with
  | nil => exact ⟨fun _ => rfl, fun _ => rfl⟩
  | cons l ls => exact iff_of_false (List.cons_ne_nil _ _) (List.cons_ne_nil _ _)

theorem errors_eq_nil_iff {listed checked : Outcome} (hl : listed.succeeded = true)
    (hc : checked.succeeded = false) :
    errors (modifiedNames listed) checked = [] ↔ ∀ l, ¬ Counts listed checked l := by
  obtain ⟨noun, length, h⟩ := errors_eq hc (modifiedNames listed)
  rw [h, report_eq_nil_iff, List.eq_nil_iff_forall_not_mem]
  exact forall_congr' fun l => not_congr (mem_counted hl checked l)

/-! ### Diagnostics with a place -/

/-- A line that reports an error at a place of a file: the path, the line and the column between
brackets, and the mark. -/
def IsDiagnostic (path l : List Char) : Prop :=
  ∃ line column rest : List Char,
    line ≠ [] ∧ line.all Char.isDigit ∧ column ≠ [] ∧ column.all Char.isDigit ∧
    l = path ++ '(' :: line ++ ',' :: column ++ "): ".toList ++ marker.toList ++ rest

theorem IsDiagnostic.mem_diagnosticLines {path l : List Char} {o : Outcome}
    (h : IsDiagnostic path l) (hl : l ∈ o.lines) : l ∈ diagnosticLines o := by
  obtain ⟨line, column, rest, -, -, -, -, rfl⟩ := h
  rw [diagnosticLines, List.mem_filter, Text.occursIn_iff]
  exact ⟨hl, List.infix_append _ _ _⟩

theorem IsDiagnostic.infix {path l : List Char} (h : IsDiagnostic path l) : path <:+: l := by
  obtain ⟨line, column, rest, -, -, -, -, rfl⟩ := h
  simp only [List.append_assoc]
  exact (List.prefix_append path _).isInfix

/-- **An error at a place of a listed file counts.** -/
theorem counts_of_lists {listed checked : Outcome} {path l : List Char} (h : IsDiagnostic path l)
    (hl : l ∈ checked.lines) (hn : listed.Lists (Path.displayName (String.ofList path))) :
    Counts listed checked l := by
  have hname := Path.displayName_infix (String.ofList path)
  rw [String.toList_ofList] at hname
  exact ⟨h.mem_diagnosticLines hl, .inr ⟨_, hn, hname.trans h.infix⟩⟩

/-- A name without slashes or brackets stands in a diagnostic inside a part of the path, or behind
it. -/
theorem IsDiagnostic.infix_iff {path l w : List Char} (h : IsDiagnostic path l) (hslash : '/' ∉ w)
    (hbracket : '(' ∉ w) :
    w <:+: l ↔ (∃ part ∈ Text.segments '/' path, w <:+: part) ∨ w <:+: l.drop (path.length + 1) := by
  obtain ⟨line, column, rest, -, -, -, -, rfl⟩ := h
  simp only [List.append_assoc, List.cons_append]
  rw [Text.infix_append_cons_iff hbracket, Text.infix_iff_exists_segment hslash,
    List.drop_append, List.drop_of_length_le (Nat.le_succ _), Nat.add_sub_cancel_left]
  rfl

/-- The name stands in a diagnostic of a file with another name. -/
def Misleads (n : String) (l : List Char) : Prop :=
  n.toList <:+: l ∧ ∃ path, IsDiagnostic path l ∧ n ≠ Path.displayName (String.ofList path)

end Types

end QualityGate
