import Mathlib.Algebra.GroupWithZero.Nat
import Mathlib.Data.List.Infix
import QualityGate.Proofs.Text.LineEnding
import QualityGate.Proofs.Text.Position

/-! # Words in lines

A word without line ends in it reaches over no end of a line. So it stands as often in a text as in
its lines together (`Text.positions_eq_sum`), and it occurs in the text if it occurs in one of them.

A text that is empty or ends with a line feed has all its lines ended. What is laid behind it begins
a new line, so the lines of the two follow each other (`Text.lines_append`) and no word stands
across the seam (`Text.positions_append`). -/

namespace QualityGate.Text

variable {w s a b : List Char}

/-! ### The first line -/

/-- A word does not reach across a character that it lacks. -/
theorem isPrefixOf_append_cons {sep : Char} (hw : sep ∉ w) (a b : List Char) :
    w.isPrefixOf (a ++ sep :: b) = w.isPrefixOf a := by
  induction w generalizing a with
  | nil => rfl
  | cons c w ih =>
    rw [List.mem_cons, not_or] at hw
    cases a with
    | nil =>
      have hne : (c == sep) = false := beq_false_of_ne fun h => hw.1 h.symm
      rw [List.nil_append, List.isPrefixOf_cons_cons, hne]
      rfl
    | cons d a =>
      rw [List.cons_append, List.isPrefixOf_cons_cons, List.isPrefixOf_cons_cons, ih hw.2]

/-- A character that ends no line stands in the first one. -/
theorem lines_cons_of_lines {c : Char} (hfeed : ¬ c = '\n')
    (hreturn : ∀ t, c = '\r' → s = '\n' :: t → False) {l : List Char} {ls : List (List Char)}
    (h : lines s = l :: ls) : lines (c :: s) = (c :: l) :: ls := by
  rw [lines.eq_4 c s hfeed hreturn, h]

theorem lines_eq_nil_iff : lines s = [] ↔ s = [] := by
  fun_cases lines s <;> simp_all

/-- The first line goes as far as the text, or up to a character that ends lines. -/
theorem eq_append_of_lines {l : List Char} {ls : List (List Char)} (h : lines s = l :: ls) :
    s = l ∨ ∃ sep rest, s = l ++ sep :: rest ∧ (sep = '\n' ∨ sep = '\r') := by
  fun_induction lines s generalizing l ls with
  | case1 => exact absurd h (List.cons_ne_nil l ls).symm
  | case2 s ih =>
    rw [← (List.cons.inj h).1]
    exact .inr ⟨_, s, rfl, .inl rfl⟩
  | case3 s ih =>
    -- of the two characters that end the line, the first one is where it stops
    rw [← (List.cons.inj h).1]
    exact .inr ⟨_, '\n' :: s, rfl, .inr rfl⟩
  | case4 c s hfeed hreturn hs ih =>
    rw [← (List.cons.inj h).1, lines_eq_nil_iff.mp hs]
    exact .inl rfl
  | case5 c s hfeed hreturn k ks hs ih =>
    rw [← (List.cons.inj h).1]
    rcases ih hs with rfl | ⟨sep, rest, rfl, hsep⟩
    · exact .inl rfl
    · exact .inr ⟨sep, rest, rfl, hsep⟩

theorem InLine.isPrefixOf_cons (hw : InLine w) {l : List Char} {ls : List (List Char)}
    (h : lines s = l :: ls) (c : Char) : w.isPrefixOf (c :: s) = w.isPrefixOf (c :: l) := by
  rcases eq_append_of_lines h with rfl | ⟨sep, rest, rfl, hsep⟩
  · rfl
  · have hlacks : sep ∉ w := by
      rcases hsep with rfl | rfl
      · exact hw.1
      · exact hw.2
    exact isPrefixOf_append_cons hlacks (c :: l) rest

/-! ### All lines -/

theorem notMem_of_mem_lines {s l : List Char} (h : l ∈ lines s) : '\n' ∉ l := by
  fun_induction lines s generalizing l with
  | case1 => exact absurd h List.not_mem_nil
  | case2 s ih | case3 s ih =>
    rcases List.mem_cons.mp h with rfl | h
    · exact List.not_mem_nil
    · exact ih h
  | case4 c s hc _ _ _ =>
    rw [List.mem_singleton.mp h, List.mem_singleton]
    exact fun heq => hc heq.symm
  | case5 c s hc _ k ks hk ih =>
    rw [hk] at ih
    rcases List.mem_cons.mp h with rfl | h
    · rw [List.mem_cons, not_or]
      exact ⟨fun heq => hc heq.symm, ih List.mem_cons_self⟩
    · exact ih (List.mem_cons_of_mem k h)

/-- **A word stands in a text as often as in its lines.** -/
theorem positions_eq_sum (hw : InLine w) (hne : w ≠ []) (s : List Char) :
    positions w s = ((lines s).map (positions w)).sum := by
  -- no word begins where a line ends, and elsewhere it begins in the text if it does in the line
  have hend := isPrefixOf_lineEnd hw hne
  fun_induction lines s with
  | case1 => exact positions_nil hne
  | case2 s ih =>
    rw [positions_cons, (hend s []).1, ih, List.map_cons, List.sum_cons, positions_nil hne]
    simp
  | case3 s ih =>
    rw [positions_cons, (hend [] _).2, positions_cons, (hend s []).1, ih, List.map_cons,
      List.sum_cons, positions_nil hne]
    simp
  | case4 c s hfeed hreturn hs ih =>
    rw [lines_eq_nil_iff.mp hs]
    simp
  | case5 c s hfeed hreturn l ls hs ih =>
    rw [positions_cons, hw.isPrefixOf_cons hs, ih, hs, List.map_cons, List.sum_cons, List.map_cons,
      List.sum_cons, positions_cons]
    omega

theorem occursIn_iff_lines (hw : InLine w) (hne : w ≠ []) :
    occursIn w s = true ↔ ∃ l ∈ lines s, occursIn w l = true := by
  rw [occursIn_iff_positions, positions_eq_sum hw hne, List.sum_pos_iff_exists_pos_nat]
  simp only [List.mem_map, exists_exists_and_eq_and, occursIn_iff_positions]

/-- Folding does not change where lines end. -/
theorem lines_fold (s : List Char) : lines (fold s) = (lines s).map fold := by
  have hlower {c : Char} (hfeed : ¬ c = '\n') : ¬ c.toLower = '\n' := fun h =>
    hfeed ((toLower_eq_iff (by decide)).mp h)
  fun_induction lines s with
  | case1 => rfl
  | case2 s ih => exact congrArg ([] :: ·) ih
  | case3 s ih => exact congrArg ([] :: ·) ih
  | case4 c s hfeed hreturn hs ih =>
    rw [lines_eq_nil_iff.mp hs]
    exact lines.eq_4 c.toLower [] (hlower hfeed) fun _ _ h => List.cons_ne_nil _ _ h.symm
  | case5 c s hfeed hreturn l ls hs ih =>
    have hlines : lines (fold s) = fold l :: ls.map fold := by rw [ih, hs, List.map_cons]
    refine lines_cons_of_lines (hlower hfeed) (fun t hc ht => ?_) hlines
    obtain ⟨d, u, rfl, hd, -⟩ := List.map_eq_cons_iff.mp ht
    rw [(toLower_eq_iff (by decide)).mp hd] at hreturn
    exact hreturn u ((toLower_eq_iff (by decide)).mp hc) rfl

/-! ### Texts laid end to end -/

/-- The text is empty, or its last character is a line feed. -/
def EndsLine (s : List Char) : Prop := ∀ c ∈ s.getLast?, c = '\n'

instance : DecidablePred EndsLine := fun s =>
  decidable_of_iff (s.getLast?.all (· == '\n') = true) <| by
    simp [EndsLine, Option.all_eq_true]

theorem EndsLine.of_cons {c : Char} (h : EndsLine (c :: s)) : EndsLine s :=
  fun _ hd => h _ (List.mem_getLast?_cons hd)

theorem lines_append (ha : EndsLine a) (b : List Char) : lines (a ++ b) = lines a ++ lines b := by
  fun_induction lines a with
  | case1 => rfl
  | case2 a ih => exact congrArg ([] :: ·) (ih ha.of_cons)
  | case3 a ih => exact congrArg ([] :: ·) (ih ha.of_cons.of_cons)
  | case4 c a hfeed hreturn hnil ih =>
    -- the last line of the first text is ended
    rw [lines_eq_nil_iff.mp hnil] at ha
    exact absurd (ha c rfl) hfeed
  | case5 c a hfeed hreturn l ls hs ih =>
    have hlines : lines (a ++ b) = l :: (ls ++ lines b) := by
      rw [ih ha.of_cons, hs, List.cons_append]
    refine lines_cons_of_lines hfeed (fun t hc ht => ?_) hlines
    -- a carriage return has its line feed in the first text, or none
    cases a with
    | nil => exact absurd hs (List.cons_ne_nil l ls).symm
    | cons d a =>
      obtain ⟨rfl, -⟩ := List.cons.inj ht
      exact hreturn a hc rfl

theorem positions_append (hw : InLine w) (hne : w ≠ []) (ha : EndsLine a) (b : List Char) :
    positions w (a ++ b) = positions w a + positions w b := by
  simp only [positions_eq_sum hw hne, lines_append ha, List.map_append, List.sum_append]

theorem occurrences_append (hunbordered : Unbordered w) (hw : InLine w) (hne : w ≠ [])
    (ha : EndsLine a) (b : List Char) :
    occurrences w (a ++ b) = occurrences w a + occurrences w b := by
  simp only [occurrences_eq_positions hunbordered hne, positions_append hw hne ha]

theorem EndsLine.fold (ha : EndsLine a) : EndsLine (fold a) := by
  intro c hc
  rw [Text.fold, List.getLast?_map] at hc
  obtain ⟨d, hd, rfl⟩ := Option.map_eq_some_iff.mp hc
  rw [ha d hd]
  rfl

end QualityGate.Text
