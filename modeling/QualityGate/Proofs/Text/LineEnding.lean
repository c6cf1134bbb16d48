import QualityGate.Text.Count
import QualityGate.Text.Line
import QualityGate.Text.Search

/-! # Line endings

A text may end its lines with a line feed, or with a carriage return and a line feed (`Text.crlf`).
Its lines are the same (`Text.lines_crlf`), and a word without line ends in it is found as often
(`Text.occurrences_crlf`), since no occurrence reaches over the end of a line. A count may reach
over it, as in a text that has the digits in one line and the noun in the next; but the blanks in
between may be any, so the count is the same too (`Text.countOf_crlf`). -/

namespace QualityGate.Text

/-- The text with a carriage return in front of each line feed. -/
def crlf : List Char → List Char
  | [] => []
  | c :: s => if c = '\n' then '\r' :: '\n' :: crlf s else c :: crlf s

theorem crlf_lineFeed (s : List Char) : crlf ('\n' :: s) = '\r' :: '\n' :: crlf s := rfl

theorem crlf_cons {c : Char} (hc : c ≠ '\n') (s : List Char) : crlf (c :: s) = c :: crlf s :=
  if_neg hc

/-! ### Lines -/

theorem lines_cons {c : Char} (hfeed : c ≠ '\n') (hreturn : c ≠ '\r') (s : List Char) :
    lines (c :: s) =
      match lines s with
      | [] => [[c]]
      | l :: ls => (c :: l) :: ls :=
  lines.eq_4 c s hfeed fun _ h => absurd h hreturn

theorem lines_crlf {s : List Char} (h : '\r' ∉ s) : lines (crlf s) = lines s := by
  induction s with
  | nil => rfl
  | cons c s ih =>
    rw [List.mem_cons, not_or] at h
    by_cases hfeed : c = '\n'
    · subst hfeed
      rw [crlf_lineFeed, lines, lines, ih h.2]
    · have hreturn : c ≠ '\r' := fun heq => h.1 heq.symm
      rw [crlf_cons hfeed, lines_cons hfeed hreturn, lines_cons hfeed hreturn, ih h.2]

/-! ### Words -/

/-- A word that reaches over no end of a line. -/
def InLine (w : List Char) : Prop := '\n' ∉ w ∧ '\r' ∉ w

instance (w : List Char) : Decidable (InLine w) := inferInstanceAs (Decidable (_ ∧ _))

variable {w : List Char}

theorem InLine.of_cons {c : Char} (h : InLine (c :: w)) : InLine w :=
  ⟨fun hmem => h.1 (List.mem_cons_of_mem c hmem), fun hmem => h.2 (List.mem_cons_of_mem c hmem)⟩

/-- The word does not begin with an end of a line. -/
theorem InLine.beq_eq_false {c : Char} (h : InLine (c :: w)) :
    (c == '\n') = false ∧ (c == '\r') = false :=
  ⟨beq_false_of_ne fun heq => h.1 (heq ▸ List.mem_cons_self),
    beq_false_of_ne fun heq => h.2 (heq ▸ List.mem_cons_self)⟩

theorem isPrefixOf_crlf (hw : InLine w) (s : List Char) :
    w.isPrefixOf (crlf s) = w.isPrefixOf s := by
  induction w generalizing s with
  | nil => rfl
  | cons a w ih =>
    cases s with
    | nil => rfl
    | cons c s =>
      by_cases hfeed : c = '\n'
      · subst hfeed
        rw [crlf_lineFeed, List.isPrefixOf_cons_cons, List.isPrefixOf_cons_cons,
          hw.beq_eq_false.1, hw.beq_eq_false.2]
        rfl
      · rw [crlf_cons hfeed, List.isPrefixOf_cons_cons, List.isPrefixOf_cons_cons, ih hw.of_cons]

/-- Nothing but the empty word is found at the end of a line. -/
theorem isPrefixOf_lineEnd (hw : InLine w) (hne : w ≠ []) (s t : List Char) :
    w.isPrefixOf ('\n' :: s) = false ∧ w.isPrefixOf ('\r' :: t) = false := by
  obtain ⟨a, w, rfl⟩ := List.exists_cons_of_ne_nil hne
  rw [List.isPrefixOf_cons_cons, List.isPrefixOf_cons_cons, hw.beq_eq_false.1,
    hw.beq_eq_false.2]
  exact ⟨rfl, rfl⟩

theorem occursIn_crlf (hw : InLine w) (hne : w ≠ []) (s : List Char) :
    occursIn w (crlf s) = occursIn w s := by
  induction s with
  | nil => rfl
  | cons c s ih =>
    by_cases hfeed : c = '\n'
    · subst hfeed
      have hend := isPrefixOf_lineEnd hw hne
      rw [crlf_lineFeed, occursIn, occursIn, occursIn, (hend [] _).2, (hend _ []).1, (hend _ []).1,
        ih]
      rfl
    · have hprefix := isPrefixOf_crlf hw (c :: s)
      rw [crlf_cons hfeed] at hprefix ⊢
      rw [occursIn, occursIn, hprefix, ih]

/-- The rest of an occurrence has no line end in it, and neither has what is skipped for it. -/
theorem occurrencesFrom_crlf (hw : InLine w) (hne : w ≠ []) {k : Nat} {s : List Char}
    (hskip : '\n' ∉ s.take k) : occurrencesFrom w k (crlf s) = occurrencesFrom w k s := by
  induction s generalizing k with
  | nil => rfl
  | cons c s ih =>
    cases k with
    | zero =>
      by_cases hfeed : c = '\n'
      · subst hfeed
        have hend := isPrefixOf_lineEnd hw hne
        have hfound : occurrencesFrom w 0 (crlf ('\n' :: s)) = occurrencesFrom w 0 (crlf s) := by
          rw [crlf_lineFeed, occurrencesFrom, (hend [] _).2, if_neg Bool.false_ne_true,
            occurrencesFrom, (hend _ []).1, if_neg Bool.false_ne_true]
        rw [hfound, occurrencesFrom, (hend _ []).1, if_neg Bool.false_ne_true]
        exact ih (by simp)
      · have hprefix := isPrefixOf_crlf hw (c :: s)
        rw [crlf_cons hfeed] at hprefix ⊢
        rw [occurrencesFrom, occurrencesFrom, hprefix]
        by_cases hfound : w.isPrefixOf (c :: s) = true
        · rw [if_pos hfound, if_pos hfound]
          -- what is skipped is the rest of the word
          have hrest : '\n' ∉ s.take (w.length - 1) := by
            obtain ⟨t, ht⟩ := List.isPrefixOf_iff_prefix.mp hfound
            obtain ⟨a, v, rfl⟩ := List.exists_cons_of_ne_nil hne
            rw [List.cons_append, List.cons.injEq] at ht
            rw [← ht.2, List.length_cons, Nat.add_sub_cancel, List.take_left]
            exact hw.of_cons.1
          rw [ih hrest]
        · rw [if_neg hfound, if_neg hfound]
          exact ih (by simp)
    | succ k =>
      rw [List.take_succ_cons, List.mem_cons, not_or] at hskip
      rw [crlf_cons fun h => hskip.1 h.symm, occurrencesFrom, occurrencesFrom, ih hskip.2]

theorem occurrences_crlf (hw : InLine w) (hne : w ≠ []) (s : List Char) :
    occurrences w (crlf s) = occurrences w s :=
  occurrencesFrom_crlf hw hne (by simp)

/-- No letter becomes a character below the letters in lower case, nor does that change. -/
theorem toLower_eq_iff {c d : Char} (hd : d.toNat < 65) : c.toLower = d ↔ c = d := by
  have hkeeps : ∀ {e : Char}, ¬ (e.val ≥ 'A'.val ∧ e.val ≤ 'Z'.val) → e.toLower = e :=
    fun h => dif_neg h
  constructor
  · intro h
    by_cases hupper : c.val ≥ 'A'.val ∧ c.val ≤ 'Z'.val
    · have hlower : c.toLower = ⟨c.val + 32, _⟩ := dif_pos hupper
      have hvalue : c.val + 32 = d.val := congrArg Char.val (hlower.symm.trans h)
      have hlow : 65 ≤ c.val.toNat := hupper.1
      have hhigh : c.val.toNat ≤ 90 := hupper.2
      have hsum : (c.val.toNat + 32) % 4294967296 = d.toNat :=
        (UInt32.toNat_add c.val 32).symm.trans (congrArg UInt32.toNat hvalue)
      omega
    · exact (hkeeps hupper).symm.trans h
  · rintro rfl
    exact hkeeps fun h => Nat.not_lt_of_le (show 65 ≤ c.toNat from h.1) hd

theorem fold_crlf (s : List Char) : fold (crlf s) = crlf (fold s) := by
  induction s with
  | nil => rfl
  | cons c s ih =>
    by_cases hfeed : c = '\n'
    · subst hfeed
      rw [crlf_lineFeed]
      exact congrArg ('\r' :: '\n' :: ·) ih
    · have hlower : c.toLower ≠ '\n' := fun h => hfeed ((toLower_eq_iff (by decide)).mp h)
      rw [crlf_cons hfeed]
      exact (congrArg (c.toLower :: ·) ih).trans (crlf_cons hlower (fold s)).symm

/-! ### Counts -/

theorem takeWhile_crlf {p : Char → Bool} (hfeed : p '\n' = false) (hreturn : p '\r' = false)
    (s : List Char) : (crlf s).takeWhile p = s.takeWhile p := by
  induction s with
  | nil => rfl
  | cons c s ih =>
    by_cases hc : c = '\n'
    · subst hc
      rw [crlf_lineFeed, List.takeWhile_cons_of_neg (by simp [hreturn]),
        List.takeWhile_cons_of_neg (by simp [hfeed])]
    · rw [crlf_cons hc, List.takeWhile_cons, List.takeWhile_cons, ih]

/-- A class that has both characters of a line's end or none is dropped alike. -/
theorem dropWhile_crlf {p : Char → Bool} (hend : p '\r' = p '\n') (s : List Char) :
    (crlf s).dropWhile p = crlf (s.dropWhile p) := by
  induction s with
  | nil => rfl
  | cons c s ih =>
    by_cases hc : c = '\n'
    · subst hc
      rw [crlf_lineFeed, List.dropWhile_cons, List.dropWhile_cons, List.dropWhile_cons, hend, ih]
      split <;> rfl
    · rw [crlf_cons hc, List.dropWhile_cons, List.dropWhile_cons, ih]
      split
      · rfl
      · rw [crlf_cons hc]

theorem any_isBlank_head?_crlf (s : List Char) :
    (crlf s).head?.any isBlank = s.head?.any isBlank := by
  cases s with
  | nil => rfl
  | cons c s =>
    by_cases hc : c = '\n'
    · subst hc
      rfl
    · rw [crlf_cons hc]
      rfl

theorem countAt?_crlf (hw : InLine w) (s : List Char) : countAt? w (crlf s) = countAt? w s := by
  have hdigit : isDecimalDigit '\n' = false ∧ isDecimalDigit '\r' = false := by decide
  rw [countAt?, countAt?, takeWhile_crlf hdigit.1 hdigit.2,
    dropWhile_crlf (hdigit.2.trans hdigit.1.symm), any_isBlank_head?_crlf,
    dropWhile_crlf (by decide : isBlank '\r' = isBlank '\n'), isPrefixOf_crlf hw]

/-- No count begins at a character that is no digit. -/
theorem countAt?_cons_of_not_digit {c : Char} (hc : isDecimalDigit c = false) (s : List Char) :
    countAt? w (c :: s) = none := by
  rw [countAt?, List.takeWhile_cons_of_neg (by simp [hc])]
  exact if_neg fun h => h.1 rfl

theorem leftmostCount?_crlf (hw : InLine w) (s : List Char) :
    leftmostCount? w (crlf s) = leftmostCount? w s := by
  induction s with
  | nil => rfl
  | cons c s ih =>
    by_cases hc : c = '\n'
    · subst hc
      rw [crlf_lineFeed, leftmostCount?, countAt?_cons_of_not_digit (by decide), leftmostCount?,
        countAt?_cons_of_not_digit (by decide), leftmostCount?,
        countAt?_cons_of_not_digit (by decide), ih]
    · have hat := countAt?_crlf hw (c :: s)
      rw [crlf_cons hc] at hat ⊢
      rw [leftmostCount?, leftmostCount?, hat, ih]

theorem countOf_crlf (hw : InLine w) (s : List Char) : countOf w (crlf s) = countOf w s := by
  rw [countOf, countOf, leftmostCount?_crlf hw]

end QualityGate.Text
