import QualityGate.Shell.Lexer
import QualityGate.Shell.Quote

/-! # Reading a quoted text

`run_quote` says what the lexer makes of a quoted text outside quotes: it ends outside quotes with
the text behind the word that was begun, and all that happened in between is that the operator
before it came to its end. The glyphs of the text are inert (`inert_of_mem_quotedWord`): each is
quoted, or bare and without a meaning.

There is one exception. A hyphen right behind `<<` belongs to that operator, and as a plain
character it is not quoted. -/

namespace QualityGate.Shell

/-! ### Inert glyphs -/

/-- The characters that outside quotes are not just added to the word: gaps, line ends, operators,
the comment sign, quotes, and what starts an expansion. -/
def delimiters : List Char :=
  [' ', '\t', '\n', ';', '&', '|', '<', '>', '(', ')', '#', '\'', '"', '\\', '$', '`']

/-- The letters of patterns and of other things that are put in place of a word, some of them only
at certain places of it. -/
def wildcards : List Char := ['*', '?', '[', ']', '~', '!', '\x7b', '\x7d']

/-- A character that outside quotes is added to the word, whatever comes of it later. -/
def isLetter (c : Char) : Bool := c ∉ delimiters

/-- A character that may mean something where it stands bare. -/
def isActive (c : Char) : Bool := c ∈ delimiters ++ wildcards

/-- Whether a glyph is only itself. -/
def Glyph.isInert : Glyph → Bool
  | .quoted _ => true
  | .bare c => ! isActive c
  | .expansion _ _ => false

/-- The word that a quoted text is read as. -/
def quotedWord (s : List Char) : Word :=
  if s ≠ [] ∧ s.all isPlain then s.map .bare else s.map .quoted

theorem isActive_eq_false_of_isPlain {c : Char} (h : isPlain c = true) : isActive c = false := by
  have hp : (delimiters ++ wildcards).all (! isPlain ·) = true := by decide
  rw [isActive, decide_eq_false_iff_not]
  intro hc
  have hno := List.all_eq_true.mp hp c hc
  rw [h] at hno
  exact absurd hno (by decide)

theorem isLetter_of_not_isActive {c : Char} (h : isActive c = false) : isLetter c = true := by
  rw [isActive, decide_eq_false_iff_not, List.mem_append, not_or] at h
  exact decide_eq_true h.1

theorem isLetter_of_isPlain {c : Char} (h : isPlain c = true) : isLetter c = true :=
  isLetter_of_not_isActive (isActive_eq_false_of_isPlain h)

theorem isOperatorChar_eq_false_of_isLetter {c : Char} (h : isLetter c = true) :
    isOperatorChar c = false := by
  simp only [isLetter, delimiters, List.mem_cons, List.not_mem_nil, or_false, not_or,
    decide_eq_true_eq] at h
  simp [isOperatorChar, h]

theorem inert_of_mem_quoted {s : List Char} {g : Glyph} (h : g ∈ s.map Glyph.quoted) :
    g.isInert = true := by
  obtain ⟨c, -, rfl⟩ := List.mem_map.mp h
  rfl

theorem inert_of_mem_bare {s : List Char} (hs : ∀ c ∈ s, isActive c = false) {g : Glyph}
    (h : g ∈ s.map Glyph.bare) : g.isInert = true := by
  obtain ⟨c, hc, rfl⟩ := List.mem_map.mp h
  rw [Glyph.isInert, hs c hc, Bool.not_false]

theorem inert_of_mem_quotedWord {s : List Char} {g : Glyph} (h : g ∈ quotedWord s) :
    g.isInert = true := by
  rw [quotedWord] at h
  split at h
  · rename_i hs
    have hplain := List.all_eq_true.mp hs.2
    exact inert_of_mem_bare (fun c hc => isActive_eq_false_of_isPlain (hplain c hc)) h
  · exact inert_of_mem_quoted h

theorem text?_map {f : Char → Glyph} (hf : ∀ c, (f c).char? = some c) (s : List Char) :
    Word.text? (s.map f) = some s := by
  rw [Word.text?]
  induction s with
  | nil => rfl
  | cons c s ih => rw [List.map_cons, List.mapM_cons, hf, ih]; rfl

theorem text?_quotedWord (s : List Char) : (quotedWord s).text? = some s := by
  rw [quotedWord]
  split
  · exact text?_map (fun _ => rfl) s
  · exact text?_map (fun _ => rfl) s

namespace Lexer

/-! ### The word that is begun -/

def withWord (w : Word) (x : Lexer) : Lexer := { x with word := some w }

@[simp] theorem mode_withWord (w : Word) (x : Lexer) : (x.withWord w).mode = x.mode := rfl
@[simp] theorem begun_withWord (w : Word) (x : Lexer) : (x.withWord w).begun = w := rfl
@[simp] theorem withWord_withWord (v w : Word) (x : Lexer) :
    (x.withWord v).withWord w = x.withWord w := rfl

theorem add_eq (g : Glyph) (x : Lexer) : x.add g = x.withWord (x.begun ++ [g]) := rfl

/-! ### The operator that is begun -/

theorem endOperator_of_nil {x : Lexer} (h : x.operator = []) : x.endOperator = x := by
  rw [endOperator, if_pos h]

@[simp] theorem operator_endOperator (x : Lexer) : x.endOperator.operator = [] := by
  rw [endOperator]
  split
  · assumption
  · rfl

@[simp] theorem mode_endOperator (x : Lexer) : x.endOperator.mode = x.mode := by
  rw [endOperator]; split <;> rfl

@[simp] theorem word_endOperator (x : Lexer) : x.endOperator.word = x.word := by
  rw [endOperator]; split <;> rfl

@[simp] theorem place_endOperator (x : Lexer) : x.endOperator.place = x.place := by
  rw [endOperator]; split <;> rfl

@[simp] theorem begun_endOperator (x : Lexer) : x.endOperator.begun = x.begun := by
  rw [begun, begun, word_endOperator]

/-! ### Letters -/

theorem goTo_mode (x : Lexer) : x.goTo x.mode = x := rfl

theorem step_letter {x : Lexer} {c : Char} (hm : x.mode = .bare) (hc : isLetter c = true)
    (ho : ¬ (c = '-' ∧ x.operator = ['<', '<'])) :
    x.step c = x.endOperator.withWord (x.begun ++ [.bare c]) := by
  simp only [isLetter, delimiters, List.mem_cons, List.not_mem_nil, or_false, not_or,
    decide_eq_true_eq] at hc
  have he : x.endOperator.mode = .bare := by rw [mode_endOperator, hm]
  rw [step, hm]
  simp only [stepBare, isGap, isOperatorChar, hc, ho, decide_false, Bool.or_self,
    Bool.false_eq_true, false_and, and_false, or_self, if_false]
  rw [add_eq, begun_endOperator, ← he]
  rfl

theorem run_letters {x : Lexer} {s : List Char} {w : Word} (hm : x.mode = .bare)
    (ho : x.operator = []) (hs : ∀ c ∈ s, isLetter c = true) :
    (x.withWord w).run s = x.withWord (w ++ s.map .bare) := by
  induction s generalizing w with
  | nil => rw [run_nil, List.map_nil, List.append_nil]
  | cons c s ih =>
    have hc := hs c List.mem_cons_self
    have hs' : ∀ d ∈ s, isLetter d = true := fun d hd => hs d (List.mem_cons_of_mem c hd)
    have ho' : (x.withWord w).operator = [] := ho
    rw [run_cons, step_letter (x := x.withWord w) hm hc (by rw [ho']; simp),
      endOperator_of_nil ho', withWord_withWord, begun_withWord, ih hs', List.append_assoc]
    rfl

/-! ### Single quotes -/

/-- The machine so many lines further. -/
def later (n : Nat) (x : Lexer) : Lexer := { x with line := x.line + n }

@[simp] theorem mode_later (n : Nat) (x : Lexer) : (x.later n).mode = x.mode := rfl
@[simp] theorem later_zero (x : Lexer) : x.later 0 = x := rfl

theorem later_later (m n : Nat) (x : Lexer) : (x.later m).later n = x.later (m + n) := by
  simp [later, Nat.add_assoc]

/-- A spliced quote is one quoted glyph. -/
theorem run_splice {x : Lexer} (ho : x.operator = []) (w : Word) :
    ((x.withWord w).goTo .single).run splice = (x.withWord (w ++ [.quoted '\''])).goTo .single := by
  obtain ⟨_, _, operator, _, _, _, _, place⟩ := x
  subst ho
  cases place <;> rfl

theorem step_single {x : Lexer} {c : Char} (hc : c ≠ '\'') (w : Word) :
    ((x.withWord w).goTo .single).step c =
      (((x.later (if c = '\n' then 1 else 0)).withWord (w ++ [.quoted c])).goTo .single) := by
  simp only [step, goTo, if_neg hc]
  split <;> rfl

theorem run_spliceQuotes {x : Lexer} (ho : x.operator = []) (s : List Char) (w : Word) :
    ((x.withWord w).goTo .single).run (spliceQuotes s) =
      ((x.later (s.count '\n')).withWord (w ++ s.map .quoted)).goTo .single := by
  induction s generalizing x w with
  | nil => rw [List.map_nil, List.append_nil]; rfl
  | cons c s ih =>
    rw [spliceQuotes, List.flatMap_cons, ← spliceQuotes, run_append]
    by_cases hc : c = '\''
    · subst hc
      rw [if_pos rfl, run_splice ho, ih ho, List.append_assoc]
      rfl
    · rw [if_neg hc, run_cons, run_nil, step_single hc,
        ih (x := x.later _) ho, List.append_assoc, later_later, List.count_cons, Nat.add_comm]
      simp only [beq_iff_eq]
      rfl

/-- A quote outside quotes begins a stretch in a word. -/
theorem step_open {x : Lexer} (hm : x.mode = .bare) :
    x.step '\'' = (x.endOperator.withWord x.begun).goTo .single := by
  rw [step, hm, ← begun_endOperator]
  simp only [stepBare]
  cases x.place <;> rfl

theorem step_close {x : Lexer} (hm : x.mode = .single) : x.step '\'' = x.goTo .bare := by
  rw [step, hm]
  rfl

/-- **A quoted text is read as one piece of a word.** -/
theorem run_quote {x : Lexer} {s : List Char} (hm : x.mode = .bare)
    (ho : ¬ (x.operator = ['<', '<'] ∧ s.head? = some '-' ∧ s.all isPlain)) :
    x.run (quote s) =
      (x.endOperator.later (s.count '\n')).withWord (x.begun ++ quotedWord s) := by
  rw [quote, quotedWord]
  split
  · rename_i hs
    obtain ⟨hne, hplain⟩ := hs
    obtain ⟨c, t, rfl⟩ := List.exists_cons_of_ne_nil hne
    have hl : ∀ d ∈ c :: t, isPlain d = true := List.all_eq_true.mp hplain
    have hcount : (c :: t).count '\n' = 0 :=
      List.count_eq_zero.mpr fun hn => absurd (hl _ hn) (by decide)
    have hc : ¬ (c = '-' ∧ x.operator = ['<', '<']) := by
      rintro ⟨rfl, hx⟩
      exact ho ⟨hx, rfl, hplain⟩
    rw [run_cons, step_letter hm (isLetter_of_isPlain (hl c List.mem_cons_self)) hc,
      run_letters (by rw [mode_endOperator, hm]) (operator_endOperator x)
        (fun d hd => isLetter_of_isPlain (hl d (List.mem_cons_of_mem c hd))),
      hcount, later_zero, List.append_assoc]
    rfl
  · have hclose : ∀ y : Lexer, y.mode = .bare → (y.goTo .single).step '\'' = y := by
      intro y hy
      calc (y.goTo .single).step '\'' = y.goTo .bare := rfl
        _ = y := by rw [← hy, goTo_mode]
    rw [run_cons, step_open hm, run_append,
      run_spliceQuotes (operator_endOperator x), run_cons, run_nil,
      hclose]
    rw [mode_withWord, mode_later, mode_endOperator, hm]

end Lexer

end QualityGate.Shell
