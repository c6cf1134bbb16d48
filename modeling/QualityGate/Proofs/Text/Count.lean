import Mathlib.Data.List.DropRight
import QualityGate.Proofs.Text.Pattern
import QualityGate.Text.Count

/-! # Counted nouns

Where a text counts a noun: a whole run of decimal digits, blanks, and the noun (`Text.IsCount`).
The scan tries every place from the left, the places inside of a run as well, and what it finds is
the leftmost of all counts (`Text.leftmostCount?_eq_some_iff`). It is never the rest of a run, since
the run itself was tried before.

A search for digits, blanks and the noun takes the same digits first
(`Text.firstPiece?_countPattern_iff`). Its runs never give anything back: a digit is no blank, and
the noun does not begin with one. -/

namespace QualityGate.Text

/-! ### Classes -/

/-- A digit is no blank: no blank is among the ten characters of any script's digits. -/
theorem isBlank_eq_false_of_isDecimalDigit {c : Char} (h : isDecimalDigit c = true) :
    isBlank c = false := by
  have hapart : ∀ z ∈ digitZeros, ∀ i < 10, isBlank (Char.ofNat (z + i)) = false := by
    decide +kernel
  obtain ⟨z, hz, hrange⟩ := List.any_eq_true.mp h
  rw [Bool.and_eq_true, decide_eq_true_eq, decide_eq_true_eq] at hrange
  have hc := hapart z hz (c.toNat - z) (by omega)
  rwa [Nat.add_sub_cancel' hrange.1, Char.ofNat_toNat] at hc

theorem takeWhile_eq_nil_iff_head {p : Char → Bool} {s : List Char} :
    s.takeWhile p = [] ↔ ¬ s.head?.any p = true := by
  cases s with
  | nil => simp
  | cons c s => by_cases hc : p c = true <;> simp [hc]

/-- The word begins with a character that is no blank. -/
def Begins (w : List Char) : Prop := ∃ a t, w = a :: t ∧ isBlank a = false

/-! ### What stands behind a count -/

/-- Blanks are ahead, and the noun behind them. -/
def NounAhead (noun after : List Char) : Prop :=
  ∃ gap rest, gap ≠ [] ∧ (∀ c ∈ gap, isBlank c = true) ∧ after = gap ++ (noun ++ rest)

variable {noun s before digits after : List Char}

theorem NounAhead.exists_cons (h : NounAhead noun after) :
    ∃ c t, after = c :: t ∧ isBlank c = true := by
  obtain ⟨gap, rest, hgap, hblank, rfl⟩ := h
  obtain ⟨c, gap, rfl⟩ := List.exists_cons_of_ne_nil hgap
  exact ⟨c, gap ++ (noun ++ rest), rfl, hblank c List.mem_cons_self⟩

theorem nounAhead_iff (hnoun : Begins noun) :
    NounAhead noun after ↔
      after.head?.any isBlank = true ∧ noun.isPrefixOf (after.dropWhile isBlank) = true := by
  constructor
  · intro h
    obtain ⟨c, t, heq, hc⟩ := h.exists_cons
    refine ⟨by rw [heq]; exact hc, ?_⟩
    obtain ⟨gap, rest, -, hblank, rfl⟩ := h
    obtain ⟨a, w, rfl, ha⟩ := hnoun
    rw [List.dropWhile_append_of_pos hblank, List.cons_append,
      List.dropWhile_cons_of_neg (by simp [ha])]
    exact List.isPrefixOf_iff_prefix.mpr (List.prefix_append _ rest)
  · rintro ⟨hhead, hnoun⟩
    obtain ⟨rest, hrest⟩ := List.isPrefixOf_iff_prefix.mp hnoun
    refine ⟨after.takeWhile isBlank, rest, fun hnil => ?_, ?_, ?_⟩
    · exact takeWhile_eq_nil_iff_head.mp hnil hhead
    · exact fun _ hc => List.mem_takeWhile_imp hc
    · rw [hrest, List.takeWhile_append_dropWhile]

/-! ### Counts at one place -/

theorem countAt?_eq_some_iff (hnoun : Begins noun) :
    countAt? noun s = some digits ↔
      digits ≠ [] ∧ (∀ c ∈ digits, isDecimalDigit c = true) ∧
        ∃ after, s = digits ++ after ∧ NounAhead noun after := by
  rw [countAt?]
  constructor
  · intro h
    split at h
    · rename_i hcount
      obtain rfl := Option.some.inj h
      refine ⟨hcount.1, fun _ hc => List.mem_takeWhile_imp hc, _,
        List.takeWhile_append_dropWhile.symm, (nounAhead_iff hnoun).mpr hcount.2⟩
    · exact absurd h (by simp)
  · rintro ⟨hne, hdigits, after, rfl, hahead⟩
    obtain ⟨c, t, rfl, hc⟩ := hahead.exists_cons
    have hstop : ¬ isDecimalDigit c = true := fun hdigit => by
      rw [isBlank_eq_false_of_isDecimalDigit hdigit] at hc
      exact Bool.false_ne_true hc
    rw [List.takeWhile_append_of_pos hdigits, List.dropWhile_append_of_pos hdigits,
      List.takeWhile_cons_of_neg hstop, List.dropWhile_cons_of_neg hstop, List.append_nil]
    exact if_pos ⟨hne, (nounAhead_iff hnoun).mp hahead⟩

/-! ### Counts in a text -/

/-- The text counts the noun: behind `before` stand digits, as many as there are, then blanks, and
then the noun. -/
structure IsCount (noun s before digits after : List Char) : Prop where
  text : s = before ++ (digits ++ after)
  ne_nil : digits ≠ []
  isDecimalDigit : ∀ c ∈ digits, isDecimalDigit c = true
  /-- The run does not begin further left. -/
  whole : ∀ c ∈ before.getLast?, Text.isDecimalDigit c = false
  ahead : NounAhead noun after

/-- The leftmost of the counts in a text. -/
structure IsLeftmostCount (noun s before digits after : List Char) : Prop
    extends IsCount noun s before digits after where
  leftmost : ∀ b d a, IsCount noun s b d a → before.length ≤ b.length

theorem countAt?_nil : countAt? noun [] = none := rfl

/-- The scan stops at the first place where it finds a count. -/
theorem leftmostCount?_eq_some_iff_first :
    leftmostCount? noun s = some digits ↔
      ∃ before t, s = before ++ t ∧ countAt? noun t = some digits ∧
        ∀ b u, s = b ++ u → b.length < before.length → countAt? noun u = none := by
  induction s with
  | nil =>
    constructor
    · exact fun h => absurd h (by simp [leftmostCount?])
    · rintro ⟨before, t, heq, hcount, -⟩
      rw [(List.append_eq_nil_iff.mp heq.symm).2, countAt?_nil] at hcount
      exact absurd hcount (by simp)
  | cons c s ih =>
    rw [leftmostCount?]
    cases hhere : countAt? noun (c :: s) with
    | some found =>
      constructor
      · rintro ⟨⟩
        exact ⟨[], _, rfl, hhere, fun b u _ hlt => absurd hlt (Nat.not_lt_zero _)⟩
      · rintro ⟨before, t, heq, hcount, hfirst⟩
        cases before with
        | nil => rw [← hhere, heq, List.nil_append, hcount]
        | cons b before =>
          have hnone := hfirst [] (c :: s) rfl (Nat.succ_pos _)
          rw [hhere] at hnone
          exact absurd hnone (by simp)
    | none =>
      refine ih.trans ?_
      constructor
      · rintro ⟨before, t, rfl, hcount, hfirst⟩
        refine ⟨c :: before, t, rfl, hcount, fun b u heq hlt => ?_⟩
        cases b with
        | nil => rw [← hhere, heq, List.nil_append]
        | cons b bs =>
          exact hfirst bs u (List.cons.inj heq).2 (Nat.lt_of_succ_lt_succ hlt)
      · rintro ⟨before, t, heq, hcount, hfirst⟩
        cases before with
        | nil =>
          rw [← List.nil_append t, ← heq, hhere] at hcount
          exact absurd hcount (by simp)
        | cons b before =>
          obtain ⟨rfl, rfl⟩ := List.cons.inj heq
          exact ⟨before, t, rfl, hcount, fun bs u hbs hlt =>
            hfirst (c :: bs) u (congrArg (c :: ·) hbs) (Nat.succ_lt_succ hlt)⟩

theorem IsCount.countAt? (hnoun : Begins noun) (h : IsCount noun s before digits after) :
    Text.countAt? noun (digits ++ after) = some digits :=
  (countAt?_eq_some_iff hnoun).mpr ⟨h.ne_nil, h.isDecimalDigit, after, rfl, h.ahead⟩

/-- What is found at a place is a count, or the rest of one that begins further left. -/
theorem isCount_of_countAt? (hnoun : Begins noun) {b t : List Char} (hs : s = b ++ t)
    (h : countAt? noun t = some digits) :
    IsCount noun s (b.rdropWhile Text.isDecimalDigit)
      (b.rtakeWhile Text.isDecimalDigit ++ digits) (t.drop digits.length) := by
  obtain ⟨hne, hdigits, after, rfl, hahead⟩ := (countAt?_eq_some_iff hnoun).mp h
  rw [List.drop_left]
  refine ⟨?_, by simp [hne], ?_, ?_, hahead⟩
  · rw [List.append_assoc, ← List.append_assoc (List.rdropWhile _ b),
      List.rdropWhile_append_rtakeWhile, hs]
  · intro c hc
    rcases List.mem_append.mp hc with hc | hc
    · exact List.mem_rtakeWhile_imp hc
    · exact hdigits c hc
  · intro c hc
    obtain ⟨hnil, hlast⟩ := List.mem_getLast?_eq_getLast hc
    rw [hlast]
    exact Bool.eq_false_iff.mpr (List.rdropWhile_last_not _ b hnil)

/-- **The scan finds the leftmost count,** and never the rest of a run. -/
theorem leftmostCount?_eq_some_iff (hnoun : Begins noun) :
    leftmostCount? noun s = some digits ↔
      ∃ before after, IsLeftmostCount noun s before digits after := by
  rw [leftmostCount?_eq_some_iff_first]
  constructor
  · rintro ⟨before, t, hs, hcount, hfirst⟩
    obtain ⟨hne, hdigits, after, rfl, hahead⟩ := (countAt?_eq_some_iff hnoun).mp hcount
    refine ⟨before, after, ⟨hs, hne, hdigits, fun c hc => ?_, hahead⟩, fun b d a h => ?_⟩
    · -- a digit in front would be the first of a count
      obtain ⟨b, rfl⟩ := List.getLast?_eq_some_iff.mp hc
      rw [Bool.eq_false_iff]
      intro hdigit
      have hnone := hfirst b (c :: (digits ++ after)) (hs.trans (List.append_cons b c _).symm)
        (by simp)
      have hlonger : countAt? noun (c :: (digits ++ after)) = some (c :: digits) :=
        (countAt?_eq_some_iff hnoun).mpr
          ⟨by simp, List.forall_mem_cons.mpr ⟨hdigit, hdigits⟩, after, rfl, hahead⟩
      rw [hlonger] at hnone
      exact absurd hnone (by simp)
    · by_contra hlt
      have hnone := hfirst b (d ++ a) h.text (Nat.lt_of_not_le hlt)
      rw [h.countAt? hnoun] at hnone
      exact absurd hnone (by simp)
  · rintro ⟨before, after, h⟩
    refine ⟨before, digits ++ after, h.text, h.countAt? hnoun, fun b u hs hlt => ?_⟩
    by_contra hsome
    obtain ⟨d, hd⟩ := Option.ne_none_iff_exists'.mp hsome
    have hle := h.leftmost _ _ _ (isCount_of_countAt? hnoun hs hd)
    have hprefix := (List.rdropWhile_prefix Text.isDecimalDigit b).length_le
    omega

/-! ### The number of a count -/

/-- The digits write the number `n` in ASCII, and it is positive and fits 64 bits. -/
structure Writes (digits : List Char) (n : Nat) : Prop where
  ascii : ∀ c ∈ digits, c.isDigit = true
  value : Nat.ofDigitChars 10 digits 0 = n
  positive : 1 ≤ n
  fits : n < Nat.pow 2 64

instance (digits : List Char) (n : Nat) : Decidable (Writes digits n) :=
  decidable_of_iff (digits.all Char.isDigit = true ∧ Nat.ofDigitChars 10 digits 0 = n ∧
    1 ≤ n ∧ n < Nat.pow 2 64) <| by
    rw [List.all_eq_true]
    exact ⟨fun h => ⟨h.1, h.2.1, h.2.2.1, h.2.2.2⟩,
      fun h => ⟨h.ascii, h.value, h.positive, h.fits⟩⟩

/-- The leftmost count of the noun writes the number `n`. -/
def CountsTo (noun s : List Char) (n : Nat) : Prop :=
  ∃ before digits after, IsLeftmostCount noun s before digits after ∧ Writes digits n

theorem wordValue?_eq_some_iff {n : Nat} :
    wordValue? digits = some n ↔
      digits ≠ [] ∧ (∀ c ∈ digits, c.isDigit = true) ∧ Nat.ofDigitChars 10 digits 0 = n ∧
        n < Nat.pow 2 64 := by
  have hvalue : digits.foldl (fun n c => 10 * n + (c.toNat - 48)) 0 =
      Nat.ofDigitChars 10 digits 0 := rfl
  simp only [wordValue?, List.all_eq_true, hvalue]
  by_cases hdigits : digits ≠ [] ∧ ∀ c ∈ digits, c.isDigit = true
  · rw [if_pos hdigits]
    by_cases hfits : Nat.ofDigitChars 10 digits 0 < Nat.pow 2 64
    · rw [if_pos hfits, Option.some.injEq]
      exact ⟨fun h => ⟨hdigits.1, hdigits.2, h, h ▸ hfits⟩, fun h => h.2.2.1⟩
    · rw [if_neg hfits]
      exact ⟨fun h => absurd h (by simp), fun h => absurd (h.2.2.1 ▸ h.2.2.2) hfits⟩
  · rw [if_neg hdigits]
    exact ⟨fun h => absurd h (by simp), fun h => absurd ⟨h.1, h.2.1⟩ hdigits⟩

/-- The scan gives the number of the leftmost count, or zero. -/
theorem countsTo_iff (hnoun : Begins noun) {n : Nat} :
    CountsTo noun s n ↔ n ≠ 0 ∧ countOf noun s = n := by
  rw [countOf]
  constructor
  · rintro ⟨before, digits, after, hcount, hn⟩
    have hvalue : wordValue? digits = some n :=
      wordValue?_eq_some_iff.mpr ⟨hcount.ne_nil, hn.ascii, hn.value, hn.fits⟩
    rw [(leftmostCount?_eq_some_iff hnoun).mpr ⟨before, after, hcount⟩, Option.bind_some, hvalue]
    exact ⟨Nat.ne_of_gt hn.positive, rfl⟩
  · rintro ⟨hn, h⟩
    cases hvalue : (leftmostCount? noun s).bind wordValue? with
    | none =>
      rw [hvalue] at h
      exact absurd h.symm hn
    | some m =>
      rw [hvalue, Option.getD_some] at h
      obtain ⟨digits, hdigits, hm⟩ := Option.bind_eq_some_iff.mp hvalue
      obtain ⟨before, after, hcount⟩ := (leftmostCount?_eq_some_iff hnoun).mp hdigits
      obtain ⟨-, hascii, hvalue, hfits⟩ := wordValue?_eq_some_iff.mp hm
      exact ⟨before, digits, after, hcount, hascii, hvalue.trans h, by omega, h ▸ hfits⟩

/-! ### Counts as matches of a pattern -/

/-- Digits, blanks, the noun, and what may follow the noun. -/
def countPattern (noun : List Char) (tail : List Part) : List Part :=
  .run isDecimalDigit :: .run isBlank :: .word noun :: tail

variable {tail : List Part}

/-- At one place the pattern matches exactly what the scan finds: the run of digits never gives a
digit back, as none of the parts behind it begins with one. -/
theorem matchAt?_countPattern (hnoun : Begins noun)
    (htail : ∀ s, ∃ pieces, matchAt? tail s = some pieces) (s : List Char) :
    (matchAt? (countPattern noun tail) s).map List.head? = (countAt? noun s).map some := by
  have hword : ∀ c s, isBlank c = true → matchAt? (.word noun :: tail) (c :: s) = none := by
    intro c s hc
    obtain ⟨a, w, rfl, ha⟩ := hnoun
    have hne : (a == c) = false := beq_false_of_ne fun h => by
      rw [h, hc] at ha
      exact Bool.false_ne_true ha.symm
    rw [matchAt?_word, List.isPrefixOf_cons_cons, hne]
    rfl
  have hblanks : ∀ c s, isDecimalDigit c = true →
      matchAt? (.run isBlank :: .word noun :: tail) (c :: s) = none :=
    fun c s hc => matchAt?_run_of_not (isBlank_eq_false_of_isDecimalDigit hc) s
  rw [countPattern, matchAt?_run hblanks, matchAt?_run hword, matchAt?_word, countAt?]
  generalize s.takeWhile isDecimalDigit = digits
  generalize s.dropWhile isDecimalDigit = after
  by_cases hdigits : digits = []
  · rw [if_pos hdigits, if_neg fun h => h.1 hdigits]
    rfl
  rw [if_neg hdigits]
  have hgap := takeWhile_eq_nil_iff_head (p := isBlank) (s := after)
  by_cases hblank : after.head?.any isBlank = true
  · rw [if_neg fun h => hgap.mp h hblank]
    by_cases hprefix : noun.isPrefixOf (after.dropWhile isBlank) = true
    · obtain ⟨pieces, hpieces⟩ := htail ((after.dropWhile isBlank).drop noun.length)
      rw [if_pos hprefix, hpieces, if_pos ⟨hdigits, hblank, hprefix⟩]
      rfl
    · rw [if_neg hprefix, if_neg fun h => hprefix h.2.2]
      rfl
  · rw [if_pos (hgap.mpr hblank), if_neg fun h => hblank h.2.1]
    rfl

theorem search?_countPattern (hnoun : Begins noun)
    (htail : ∀ s, ∃ pieces, matchAt? tail s = some pieces) (s : List Char) :
    (search? (countPattern noun tail) s).map List.head? = (leftmostCount? noun s).map some := by
  induction s with
  | nil => exact matchAt?_countPattern hnoun htail []
  | cons c s ih =>
    rw [search?, Option.map_or, matchAt?_countPattern hnoun htail, ih, leftmostCount?]
    cases countAt? noun (c :: s) <;> rfl

/-- **A search for the pattern takes the digits of the leftmost count.** -/
theorem firstPiece?_countPattern_iff (hnoun : Begins noun)
    (htail : ∀ s, ∃ pieces, matchAt? tail s = some pieces) (s digits : List Char) :
    firstPiece? (countPattern noun tail) s = some digits ↔
      ∃ before after, IsLeftmostCount noun s before digits after := by
  have hpieces := search?_countPattern hnoun htail s
  rw [← leftmostCount?_eq_some_iff hnoun, firstPiece?]
  cases hsearch : search? (countPattern noun tail) s with
  | none =>
    rw [hsearch] at hpieces
    rw [Option.map_eq_none_iff.mp hpieces.symm]
    rfl
  | some pieces =>
    rw [hsearch] at hpieces
    obtain ⟨found, hfound, hhead⟩ := Option.map_eq_some_iff.mp hpieces.symm
    rw [hfound, Option.bind_some, ← hhead]

end QualityGate.Text
