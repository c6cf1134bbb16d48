import QualityGate.Proofs.Text.Position

/-! # Lower case

Words are searched in a text whose ASCII letters are folded. A text in lower case has other
characters changed too, and some of them become several characters (`Text.LowerCase`). Two that are
not ASCII even become an ASCII letter: the kelvin sign is a `k` in lower case, and the capital `İ`
is an `i` with a dot behind it. A word that has no `k` and does not end with `i` is found in the one
text exactly if it is in the other (`Text.occursIn_lowerCase`). -/

namespace QualityGate.Text

/-- What may become of a character in lower case. -/
inductive LowersTo : Char → List Char → Prop
  | ascii {c : Char} (hc : c.toNat < 0x80) : LowersTo c [c.toLower]
  | kelvin : LowersTo '\u212A' ['k']
  | dotted : LowersTo '\u0130' ['i', '\u0307']
  | other {c : Char} {p : List Char} (hc : 0x80 ≤ c.toNat) (hp : p ≠ [])
      (hother : ∀ d ∈ p, 0x80 ≤ d.toNat) : LowersTo c p

/-- The second text may be the first one in lower case. -/
inductive LowerCase : List Char → List Char → Prop
  | nil : LowerCase [] []
  | cons {c : Char} {p s l : List Char} (hc : LowersTo c p) (hs : LowerCase s l) :
      LowerCase (c :: s) (p ++ l)

/-- The word has no character that comes out of one that is not ASCII, but for an `i` inside. -/
structure Folds (w : List Char) : Prop where
  ascii : ∀ c ∈ w, c.toNat < 0x80
  kelvin : 'k' ∉ w
  dotted : w.getLast? ≠ some 'i'

variable {w s l : List Char}

instance : DecidablePred Folds := fun w =>
  decidable_of_iff
    (w.all (fun c => decide (c.toNat < 0x80)) = true ∧ 'k' ∉ w ∧ w.getLast? ≠ some 'i') <| by
    simp only [List.all_eq_true, decide_eq_true_eq]
    exact ⟨fun h => ⟨h.1, h.2.1, h.2.2⟩, fun h => ⟨h.ascii, h.kelvin, h.dotted⟩⟩

theorem Folds.of_cons {a : Char} (h : Folds (a :: w)) : Folds w where
  ascii := fun c hc => h.ascii c (List.mem_cons_of_mem a hc)
  kelvin := fun hk => h.kelvin (List.mem_cons_of_mem a hk)
  dotted := fun hlast => h.dotted (List.mem_getLast?_cons hlast)

theorem Folds.beq_eq_false {a c : Char} (h : Folds (a :: w)) (hc : 0x80 ≤ c.toNat) :
    (a == c) = false := by
  refine beq_false_of_ne fun heq => ?_
  have hlt := h.ascii a List.mem_cons_self
  rw [heq] at hlt
  omega

theorem toLower_of_not_ascii {c : Char} (hc : 0x80 ≤ c.toNat) : c.toLower = c := by
  refine dif_neg fun h => ?_
  have hle : c.toNat ≤ 90 := h.2
  omega

/-- Folding a text is one way to put it in lower case. -/
theorem lowerCase_fold (s : List Char) : LowerCase s (fold s) := by
  induction s with
  | nil => exact .nil
  | cons c s ih =>
    have hc : LowersTo c [c.toLower] := by
      by_cases hascii : c.toNat < 0x80
      · exact .ascii hascii
      · have hother : 0x80 ≤ c.toNat := Nat.le_of_not_lt hascii
        rw [toLower_of_not_ascii hother]
        exact .other hother (List.cons_ne_nil _ _) fun d hd => List.mem_singleton.mp hd ▸ hother
    exact .cons hc ih

/-- Nothing but the empty word begins with a character that is not ASCII. -/
theorem Folds.isPrefixOf_eq_false (h : Folds w) (hw : w ≠ []) {c : Char} (hc : 0x80 ≤ c.toNat)
    (s : List Char) : w.isPrefixOf (c :: s) = false := by
  obtain ⟨a, w, rfl⟩ := List.exists_cons_of_ne_nil hw
  rw [List.isPrefixOf_cons_cons, h.beq_eq_false hc]
  rfl

theorem isPrefixOf_lowerCase (hs : LowerCase s l) (h : Folds w) :
    w.isPrefixOf l = w.isPrefixOf (fold s) := by
  induction hs generalizing w with
  | nil => rfl
  | @cons c p s l hc hs ih =>
    cases w with
    | nil => simp
    | cons a w =>
      show _ = (a :: w).isPrefixOf (c.toLower :: fold s)
      cases hc with
      | ascii hc =>
        rw [List.singleton_append, List.isPrefixOf_cons_cons, List.isPrefixOf_cons_cons,
          ih h.of_cons]
      | kelvin =>
        have hk : (a == 'k') = false := beq_false_of_ne fun heq => by
          exact h.kelvin (heq ▸ List.mem_cons_self)
        rw [h.isPrefixOf_eq_false (List.cons_ne_nil a w) (by decide), List.singleton_append,
          List.isPrefixOf_cons_cons, hk]
        rfl
      | dotted =>
        rw [h.isPrefixOf_eq_false (List.cons_ne_nil a w) (by decide)]
        cases w with
        | nil =>
          have hi : (a == 'i') = false := beq_false_of_ne fun heq => h.dotted (heq ▸ rfl)
          rw [List.cons_append, List.isPrefixOf_cons_cons, hi]
          rfl
        | cons b w =>
          rw [List.cons_append, List.cons_append, List.isPrefixOf_cons_cons,
            List.isPrefixOf_cons_cons, h.of_cons.beq_eq_false (by decide), Bool.false_and,
            Bool.and_false]
      | other hc hp hother =>
        rw [toLower_of_not_ascii hc, h.isPrefixOf_eq_false (List.cons_ne_nil a w) hc]
        obtain ⟨d, p, rfl⟩ := List.exists_cons_of_ne_nil hp
        exact h.isPrefixOf_eq_false (List.cons_ne_nil a w) (hother d List.mem_cons_self) (p ++ l)

/-- What becomes of a character is one character, and others behind it that are not ASCII. -/
theorem LowersTo.exists_cons {c : Char} {p : List Char} (h : LowersTo c p) :
    ∃ d q, p = d :: q ∧ ∀ e ∈ q, 0x80 ≤ e.toNat := by
  cases h with
  | ascii => exact ⟨_, [], rfl, by simp⟩
  | kelvin => exact ⟨_, [], rfl, by simp⟩
  | dotted => exact ⟨_, ['\u0307'], rfl, List.forall_mem_singleton.mpr (by decide)⟩
  | other _ hp hother =>
    obtain ⟨d, q, rfl⟩ := List.exists_cons_of_ne_nil hp
    exact ⟨d, q, rfl, fun e he => hother e (List.mem_cons_of_mem d he)⟩

/-- No word begins in a stretch without ASCII characters. -/
theorem positions_append_of_not_ascii (h : Folds w) (hw : w ≠ []) {p : List Char}
    (hp : ∀ d ∈ p, 0x80 ≤ d.toNat) (l : List Char) : positions w (p ++ l) = positions w l := by
  induction p with
  | nil => rfl
  | cons d p ih =>
    rw [List.forall_mem_cons] at hp
    rw [List.cons_append, positions_cons, h.isPrefixOf_eq_false hw hp.1, ih hp.2]
    rfl

/-- **A word that folds stands as often in the text in lower case as in the folded text.** -/
theorem positions_lowerCase (hs : LowerCase s l) (h : Folds w) (hw : w ≠ []) :
    positions w l = positions w (fold s) := by
  induction hs with
  | nil => rfl
  | @cons c p s l hc hs ih =>
    have hprefix := isPrefixOf_lowerCase (.cons hc hs) h
    show _ = positions w (c.toLower :: fold s)
    -- the word begins at the first character of a piece, or behind the piece
    obtain ⟨d, q, rfl, hq⟩ := hc.exists_cons
    rw [List.cons_append] at hprefix ⊢
    rw [positions_cons, positions_cons, hprefix, positions_append_of_not_ascii h hw hq, ih]
    rfl

theorem occursIn_lowerCase (hs : LowerCase s l) (h : Folds w) (hw : w ≠ []) :
    occursIn w l = occursIn w (fold s) := by
  rw [Bool.eq_iff_iff, occursIn_iff_positions, occursIn_iff_positions,
    positions_lowerCase hs h hw]

end QualityGate.Text
