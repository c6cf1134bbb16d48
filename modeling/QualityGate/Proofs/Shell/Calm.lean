import QualityGate.Proofs.Shell.Quoting

/-! # Operators that are begun

The lexer begins an operator only outside quotes, and whatever is no operator character ends it. So
an operator that is begun means that the lexer is outside quotes (`Calm.step`), and behind any other
character none is begun (`Calm.operator_step`). -/

namespace QualityGate.Shell.Lexer

structure Quiet (x : Lexer) : Prop where
  place : x.place = .line
  operator : x.operator = []

/-- Reads a command line, and outside of bare text no operator is begun. -/
structure Calm (x : Lexer) : Prop where
  place : x.place = .line
  operator : x.mode ≠ .bare → x.operator = []

/-- Whether a character goes into the operator that is begun, or begins one. -/
abbrev operates (x : Lexer) (c : Char) : Prop :=
  isOperatorChar c = true ∨ (c = '-' ∧ x.operator = ['<', '<'])

variable {x : Lexer}

theorem Quiet.calm (hx : Quiet x) : Calm x := ⟨hx.place, fun _ => hx.operator⟩

theorem Calm.quiet (hx : Calm x) (hm : x.mode ≠ .bare) : Quiet x := ⟨hx.place, hx.operator hm⟩

theorem quiet_endOperator (hp : x.place = .line) : Quiet x.endOperator :=
  ⟨by rw [place_endOperator, hp], operator_endOperator x⟩

/-! ### The end of a word -/

/-- The end of a word makes a token and may announce a here-document, and that is all. -/
theorem endWord_fields (x : Lexer) : ∃ made announced documents,
    x.endWord =
      { x with word := none, made := made, announced := announced, documents := documents } := by
  obtain ⟨_, word, _, _, _, _, _, _⟩ := x
  cases word with
  | none => exact ⟨_, _, _, rfl⟩
  | some w =>
    rw [endWord]
    dsimp only
    split
    · exact ⟨_, _, _, rfl⟩
    · exact ⟨_, _, _, rfl⟩

theorem place_endWord (x : Lexer) : x.endWord.place = x.place := by
  obtain ⟨_, _, _, h⟩ := x.endWord_fields
  rw [h]

theorem mode_endWord (x : Lexer) : x.endWord.mode = x.mode := by
  obtain ⟨_, _, _, h⟩ := x.endWord_fields
  rw [h]

theorem word_endWord (x : Lexer) : x.endWord.word = none := by
  obtain ⟨_, _, _, h⟩ := x.endWord_fields
  rw [h]

theorem operator_endWord (x : Lexer) : x.endWord.operator = x.operator := by
  obtain ⟨_, _, _, h⟩ := x.endWord_fields
  rw [h]

/-! ### Moves that begin no operator -/

namespace Quiet

theorem goTo (hx : Quiet x) (k : Mode) : Quiet (x.goTo k) := ⟨hx.place, hx.operator⟩

theorem enter (hx : Quiet x) (k : Mode) : Quiet (x.enter k) := ⟨hx.place, hx.operator⟩

theorem add (hx : Quiet x) (g : Glyph) : Quiet (x.add g) := ⟨hx.place, hx.operator⟩

theorem make (hx : Quiet x) (t : Token) : Quiet (x.make t) := ⟨hx.place, hx.operator⟩

theorem atLine (hx : Quiet x) (i : Nat) : Quiet { x with line := i } := ⟨hx.place, hx.operator⟩

theorem endWord (hx : Quiet x) : Quiet x.endWord :=
  ⟨(place_endWord x).trans hx.place, (operator_endWord x).trans hx.operator⟩

theorem stepDouble (hx : Quiet x) (c : Char) : Quiet (x.stepDouble c) := by
  rw [Lexer.stepDouble]
  refine iteInduction (fun _ => hx.goTo _) fun _ => ?_
  refine iteInduction (fun _ => hx.goTo _) fun _ => ?_
  refine iteInduction (fun _ => hx.goTo _) fun _ => ?_
  exact iteInduction (fun _ => hx.goTo _) fun _ => (hx.add _).goTo _

theorem stepDoubleEscape (hx : Quiet x) (c : Char) : Quiet (x.stepDoubleEscape c) := by
  rw [Lexer.stepDoubleEscape]
  refine iteInduction (fun _ => hx.goTo _) fun _ => ?_
  exact iteInduction (fun _ => (hx.add _).goTo _) fun _ => ((hx.add _).add _).goTo _

theorem addExpansion (hx : Quiet x) (isQuoted : Bool) (e : Expansion) :
    Quiet (x.addExpansion isQuoted e) := (hx.add _).goTo _

theorem stepNest (hx : Quiet x) (n : Nest) (c : Char) : Quiet (x.stepNest n c) := by
  have hy : Quiet (if c = '\n' then { x with line := x.line + 1 } else x) :=
    iteInduction (fun _ => hx.atLine _) fun _ => hx
  rw [Lexer.stepNest]
  refine iteInduction (fun _ => hy.goTo _) fun _ => ?_
  refine iteInduction (fun _ => hy.goTo _) fun _ => ?_
  split
  · exact hy.goTo _
  · exact hy.addExpansion _ _

theorem endHereLine (hx : Quiet x) (line : List Char) : Quiet (x.endHereLine line) := by
  rw [Lexer.endHereLine]
  split
  · exact hx.goTo _
  · refine iteInduction (fun _ => ?_) fun _ => ?_
    · exact ⟨hx.place, hx.operator⟩
    · exact ⟨hx.place, hx.operator⟩

end Quiet

theorem quiet_stepNewline (hp : x.place = .line) : Quiet x.stepNewline := by
  have hy := ((quiet_endOperator hp).endWord.make .newline).atLine
  rw [stepNewline]
  exact iteInduction (fun _ => (hy _).goTo _) fun _ => (hy _).goTo _

/-! ### Bare text -/

theorem quiet_stepBare {c : Char} (hp : x.place = .line) (hc : ¬ x.operates c) :
    Quiet (x.stepBare c) := by
  have hy := quiet_endOperator hp
  rw [stepBare, if_neg fun h => absurd (hp.symm.trans h.1) Place.noConfusion, if_neg hc]
  refine iteInduction (fun _ => quiet_stepNewline hy.place) fun _ => ?_
  refine iteInduction (fun _ => hy.endWord.goTo _) fun _ => ?_
  refine iteInduction (fun _ => hy.enter _) fun _ => ?_
  refine iteInduction (fun _ => hy.enter _) fun _ => ?_
  refine iteInduction (fun _ => hy.goTo _) fun _ => ?_
  refine iteInduction (fun _ => hy.goTo _) fun _ => ?_
  refine iteInduction (fun _ => hy.enter _) fun _ => ?_
  exact iteInduction (fun _ => hy.goTo _) fun _ => (hy.add _).goTo _

/-- An operator character leaves the mode and the place as they are. -/
theorem stepOperator_mode_place (x : Lexer) (c : Char) :
    (x.stepOperator c).mode = x.mode ∧ (x.stepOperator c).place = x.place := by
  have hword : ∀ y : Lexer, (y.endWordBefore c).mode = y.mode ∧
      (y.endWordBefore c).place = y.place := by
    intro y
    rw [endWordBefore]
    split
    · split
      · exact ⟨rfl, rfl⟩
      · exact ⟨mode_endWord y, place_endWord y⟩
    · exact ⟨mode_endWord y, place_endWord y⟩
  rw [stepOperator]
  split
  · exact ⟨rfl, rfl⟩
  · exact ⟨(hword _).1.trans (mode_endOperator x), (hword _).2.trans (place_endOperator x)⟩

theorem stepBare_of_operates {c : Char} (hp : x.place = .line) (hc : x.operates c) :
    x.stepBare c = x.stepOperator c := by
  rw [stepBare, if_neg fun h => absurd (hp.symm.trans h.1) Place.noConfusion, if_pos hc]

theorem calm_stepBare (hp : x.place = .line) (hm : x.mode = .bare) (c : Char) :
    Calm (x.stepBare c) := by
  by_cases hc : x.operates c
  · rw [stepBare_of_operates hp hc]
    obtain ⟨hmode, hplace⟩ := stepOperator_mode_place x c
    exact ⟨hplace.trans hp, fun h => absurd (hmode.trans hm) h⟩
  · exact (quiet_stepBare hp hc).calm

/-! ### Any character -/

/-- In every mode but that of bare text a character either begins no operator, or ends the mode and
is read as bare text. -/
theorem Quiet.step_cases (hx : Quiet x) (hm : x.mode ≠ .bare) (c : Char) :
    Quiet (x.step c) ∨ ∃ y : Lexer, Quiet y ∧ y.mode = .bare ∧ x.step c = y.stepBare c := by
  rw [step]
  split
  · exact absurd ‹_› hm
  · exact .inl (iteInduction (fun _ => (hx.atLine _).goTo _) fun _ => (hx.add _).goTo _)
  · exact .inl (iteInduction (fun _ => hx.goTo _) fun _ => (hx.add (.quoted c)).atLine _)
  · exact .inl ((hx.atLine _).stepDouble c)
  · exact .inl (hx.stepDoubleEscape c)
  · exact .inl (iteInduction (fun _ => quiet_stepNewline hx.place) fun _ => hx)
  -- behind a dollar sign and behind a name the character may be read again, as bare text
  · rename_i isQuoted _
    rw [stepDollar]
    split
    · exact .inl (hx.enter _)
    split
    · exact .inl (hx.enter _)
    split
    · exact .inl (hx.enter _)
    split
    · exact .inl (hx.addExpansion _ _)
    cases isQuoted with
    | true => exact .inl (((hx.add _).goTo .double).stepDouble c)
    | false => exact .inr ⟨_, (hx.add _).goTo .bare, rfl, rfl⟩
  · rename_i isQuoted name _
    rw [stepName]
    split
    · exact .inl (hx.goTo _)
    cases isQuoted with
    | true => exact .inl (((hx.addExpansion _ _).goTo .double).stepDouble c)
    | false => exact .inr ⟨_, (hx.addExpansion _ _).goTo .bare, rfl, rfl⟩
  · exact .inl (hx.stepNest _ c)
  · exact .inl (iteInduction (fun _ => (hx.atLine _).endHereLine _) fun _ => hx.goTo _)

theorem Calm.step (hx : Calm x) (c : Char) : Calm (x.step c) := by
  by_cases hm : x.mode = .bare
  · rw [Lexer.step, hm]
    exact calm_stepBare hx.place hm c
  · rcases (hx.quiet hm).step_cases hm c with h | ⟨y, hy, hbare, h⟩
    · exact h.calm
    · rw [h]
      exact calm_stepBare hy.place hbare c

/-- **Behind a character that belongs to no operator none is begun.** -/
theorem Calm.operator_step (hx : Calm x) {c : Char} (hc : isOperatorChar c = false)
    (hd : c = '-' → x.operator = []) : (x.step c).operator = [] := by
  have hno : ∀ y : Lexer, (c = '-' → y.operator = []) → ¬ y.operates c := by
    rintro y hy (h | ⟨h, ho⟩)
    · rw [hc] at h
      exact absurd h Bool.noConfusion
    · rw [hy h] at ho
      exact absurd ho (List.cons_ne_nil _ _).symm
  by_cases hm : x.mode = .bare
  · rw [Lexer.step, hm]
    exact (quiet_stepBare hx.place (hno x hd)).operator
  · rcases (hx.quiet hm).step_cases hm c with h | ⟨y, hy, _, h⟩
    · exact h.operator
    · rw [h]
      exact (quiet_stepBare hy.place (hno y fun _ => hy.operator)).operator

end QualityGate.Shell.Lexer
