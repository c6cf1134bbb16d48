import Mathlib.Data.List.Infix
import Mathlib.Data.List.TakeDrop
import QualityGate.Text.Search

/-! # Positions of a word

A text is searched for a word from left to right, and the search goes on behind each occurrence. So
an occurrence that overlaps the one before it is not counted (`Text.occurrences`). There is no such
occurrence if no end of the word is a beginning of it (`Text.Unbordered`), and then every position
at which the word stands is counted (`Text.occurrences_eq_positions`). -/

namespace QualityGate.Text

/-- The number of positions in a text at which the word begins, that is, of the tails of the text
that begin with the word. -/
def positions (w s : List Char) : Nat := s.tails.countP fun t => w.isPrefixOf t

variable {w : List Char}

theorem positions_nil (hne : w ≠ []) : positions w [] = 0 := by
  obtain ⟨a, w, rfl⟩ := List.exists_cons_of_ne_nil hne
  rfl

theorem positions_cons (w : List Char) (c : Char) (s : List Char) :
    positions w (c :: s) = positions w s + if w.isPrefixOf (c :: s) then 1 else 0 :=
  List.countP_cons

/-- A word occurs where it has a position. -/
theorem occursIn_iff_positions (w s : List Char) : occursIn w s = true ↔ 0 < positions w s := by
  induction s with
  | nil => cases w <;> simp [occursIn, positions]
  | cons c s ih =>
    rw [occursIn, Bool.or_eq_true, ih, positions_cons]
    by_cases h : w.isPrefixOf (c :: s) = true
    · rw [if_pos h]
      exact iff_of_true (.inl h) (Nat.succ_pos _)
    · rw [if_neg h]
      exact or_iff_right h

/-- What is to be skipped can be dropped. -/
theorem occurrencesFrom_eq_drop (w : List Char) (k : Nat) (s : List Char) :
    occurrencesFrom w k s = occurrences w (s.drop k) := by
  induction s generalizing k with
  | nil => cases k <;> rfl
  | cons c s ih =>
    cases k with
    | zero => rfl
    | succ k => exact ih k

theorem occurrences_cons (w : List Char) (c : Char) (s : List Char) :
    occurrences w (c :: s) =
      if w.isPrefixOf (c :: s) then occurrences w (s.drop (w.length - 1)) + 1
      else occurrences w s := by
  rw [occurrences, occurrencesFrom, occurrencesFrom_eq_drop, occurrencesFrom_eq_drop,
    List.drop_zero]

/-! ### Words that do not overlap themselves -/

/-- No end of the word, but all of it, is a beginning of the word. -/
def Unbordered (w : List Char) : Prop :=
  ∀ i < w.length, 0 < i → (w.drop i).isPrefixOf w = false

instance : DecidablePred Unbordered := fun w =>
  inferInstanceAs (Decidable (∀ i < w.length, 0 < i → (w.drop i).isPrefixOf w = false))

/-- Where the word stands, it does not begin again before its end. -/
theorem Unbordered.isPrefixOf_drop (hw : Unbordered w) {t : List Char} (ht : w <+: t) {i : Nat}
    (hpos : 0 < i) (hi : i < w.length) : w.isPrefixOf (t.drop i) = false := by
  rw [Bool.eq_false_iff]
  intro h
  have hend : w.drop i <+: t.drop i := ht.drop i
  have hborder : w.drop i <+: w :=
    List.prefix_of_prefix_length_le hend (List.isPrefixOf_iff_prefix.mp h)
      (by rw [List.length_drop]; exact Nat.sub_le _ _)
  exact Bool.false_ne_true
    ((hw i hi hpos).symm.trans (List.isPrefixOf_iff_prefix.mpr hborder))

/-- So there is no position in what is skipped behind an occurrence. -/
theorem Unbordered.positions_drop (hw : Unbordered w) {c : Char} {s : List Char}
    (h : w <+: c :: s) {k : Nat} (hk : k + 1 ≤ w.length) :
    positions w (s.drop k) = positions w s := by
  induction k with
  | zero => rw [List.drop_zero]
  | succ k ih =>
    rw [← ih (Nat.le_of_succ_le hk)]
    cases hs : s.drop k with
    | nil => rw [← List.tail_drop, hs, List.tail_nil]
    | cons d t =>
      have hnone : w.isPrefixOf (s.drop k) = false :=
        hw.isPrefixOf_drop h (Nat.succ_pos k) hk
      rw [← List.tail_drop, hs, List.tail_cons, positions_cons, ← hs, hnone]
      rfl

/-- **Every position of a word that does not overlap itself is counted.** -/
theorem occurrences_eq_positions (hw : Unbordered w) (hne : w ≠ []) (s : List Char) :
    occurrences w s = positions w s := by
  -- the search goes on behind the word, so the induction is on the length of the text
  induction hlen : s.length using Nat.strongRecOn generalizing s with
  | ind n ih =>
    cases s with
    | nil => exact (positions_nil hne).symm
    | cons c s =>
      rw [List.length_cons] at hlen
      rw [occurrences_cons, positions_cons]
      by_cases h : w.isPrefixOf (c :: s) = true
      · have hskip : w.length - 1 + 1 ≤ w.length := by
          have hpos := List.length_pos_iff.mpr hne
          omega
        have hshort : (s.drop (w.length - 1)).length < n := by
          rw [List.length_drop]
          omega
        rw [if_pos h, if_pos h, ih _ hshort _ rfl,
          hw.positions_drop (List.isPrefixOf_iff_prefix.mp h) hskip]
      · rw [if_neg h, if_neg h, ih s.length (by omega) s rfl, Nat.add_zero]

end QualityGate.Text
