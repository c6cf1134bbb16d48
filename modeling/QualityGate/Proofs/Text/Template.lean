import QualityGate.Text.Search

/-! # Templates

A text in which one word stands for a value to come is a template: its characters, with a hole for
each occurrence of the word. `substitute_eq_fill` says that substituting a value fills every hole
with it and touches nothing else, so what the value brings in is never searched; `fill_ofText` says
that the holes filled with the word itself are the text again. -/

namespace QualityGate.Text

/-- Characters and holes. -/
abbrev Template := List (Option Char)

namespace Template

/-- The template of a text, whose first `skip` characters belong to an occurrence of the word that
already has its hole. -/
def ofTextFrom (word : List Char) : (skip : Nat) → List Char → Template
  | _, [] => []
  | skip + 1, _ :: s => ofTextFrom word skip s
  | 0, c :: s =>
    if word.isPrefixOf (c :: s) then
      none :: ofTextFrom word (word.length - 1) s
    else
      some c :: ofTextFrom word 0 s

/-- The template of a text: a hole for each occurrence of the word from left to right, none
overlapping the one before. -/
def ofText (word s : List Char) : Template := ofTextFrom word 0 s

/-- The text with a value in every hole. -/
def fill (value : List Char) (t : Template) : List Char :=
  t.flatMap fun p => p.elim value fun c => [c]

@[simp] theorem fill_nil (value : List Char) : fill value [] = [] := rfl

@[simp] theorem fill_hole (value : List Char) (t : Template) :
    fill value (none :: t) = value ++ fill value t := rfl

@[simp] theorem fill_char (value : List Char) (c : Char) (t : Template) :
    fill value (some c :: t) = c :: fill value t := rfl

@[simp] theorem fill_append (value : List Char) (t u : Template) :
    fill value (t ++ u) = fill value t ++ fill value u := by
  simp [fill]

/-- A character of a filled template stands in it, or it comes in through a hole. -/
theorem mem_fill_iff {value : List Char} {t : Template} {c : Char} :
    c ∈ fill value t ↔ some c ∈ t ∨ none ∈ t ∧ c ∈ value := by
  rw [fill, List.mem_flatMap]
  constructor
  · rintro ⟨p, hp, hc⟩
    cases p with
    | none => exact .inr ⟨hp, hc⟩
    | some d =>
      obtain rfl := List.mem_singleton.mp hc
      exact .inl hp
  · rintro (hc | ⟨hhole, hc⟩)
    · exact ⟨some c, hc, List.mem_singleton_self c⟩
    · exact ⟨none, hhole, hc⟩

theorem substituteFrom_eq_fill (word value : List Char) :
    ∀ (s : List Char) (skip : Nat),
      substituteFrom word value skip s = fill value (ofTextFrom word skip s) := by
  intro s
  induction s with
  | nil => intro skip; cases skip <;> rfl
  | cons c s ih =>
    intro skip
    cases skip with
    | succ skip => exact ih skip
    | zero =>
      rw [substituteFrom, ofTextFrom]
      split
      · rw [fill_hole, ih]
      · rw [fill_char, ih]

/-- **Substitution fills the holes.** -/
theorem substitute_eq_fill (word value s : List Char) :
    substitute word value s = fill value (ofText word s) :=
  substituteFrom_eq_fill word value s 0

theorem fill_ofTextFrom {word : List Char} (hw : word ≠ []) :
    ∀ (s : List Char) (skip : Nat), fill word (ofTextFrom word skip s) = s.drop skip := by
  intro s
  induction s with
  | nil => intro skip; cases skip <;> rfl
  | cons c s ih =>
    intro skip
    cases skip with
    | succ skip => exact ih skip
    | zero =>
      rw [ofTextFrom]
      split
      · rename_i h
        obtain ⟨rest, hrest⟩ := List.isPrefixOf_iff_prefix.mp h
        obtain ⟨n, hn⟩ := Nat.exists_eq_add_one.mpr (List.length_pos_iff.mpr hw)
        have hdrop : s.drop n = rest := by
          have := congrArg (List.drop word.length) hrest
          rw [List.drop_left, hn, List.drop_succ_cons] at this
          exact this.symm
        rw [fill_hole, ih, hn, Nat.add_sub_cancel, hdrop, hrest, List.drop_zero]
      · rw [fill_char, ih, List.drop_zero, List.drop_zero]

/-- **The word in every hole of a template is its text.** -/
theorem fill_ofText {word : List Char} (hw : word ≠ []) (s : List Char) :
    fill word (ofText word s) = s :=
  fill_ofTextFrom hw s 0

/-- The holes of a template one by one. -/
theorem forall_hole_iff {t : Template} {P : Template → Template → Prop} :
    (∀ before after, t = before ++ none :: after → P before after) ↔
      ∀ i < t.length, t[i]? = some none → P (t.take i) (t.drop (i + 1)) := by
  constructor
  · intro ht i hi hnone
    obtain ⟨hlt, hget⟩ := List.getElem?_eq_some_iff.mp hnone
    refine ht _ _ ?_
    rw [← hget, List.getElem_cons_drop, List.take_append_drop]
  · intro ht before after hsplit
    have hhole := ht before.length (by simp [hsplit]) (by simp [hsplit])
    simpa [hsplit] using hhole

end Template

end QualityGate.Text
