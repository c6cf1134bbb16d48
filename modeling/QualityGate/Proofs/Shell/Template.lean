import Mathlib.Data.List.DropRight
import QualityGate.Command
import QualityGate.Proofs.Shell.Lockstep
import QualityGate.Proofs.Text.Template

/-! # Command templates

A command's line is a template with a hole for each placeholder. `IsOpen` says of every hole that it
stands outside quotes, comments, expansions and here-documents, in a word between breaks that has
only plain characters beside it, and is not the end mark of a here-document. The tokens of such a
line are then known before anything is put into the holes (`templateTokens`), and a value that is
spelled in a hole is just put into their words (`tokens_fill`).

The proof reads the two lines side by side, in lockstep all along (`IsOpen.reached`). -/

namespace QualityGate

open Text (Template)

def Command.template (c : Command) : Template :=
  .ofText Command.placeholder.toList c.run.toList

theorem Command.render_some (c : Command) (file : String) :
    (c.render (some file)).toList = c.template.fill (Shell.quote file.toList) := by
  rw [Command.render, String.toList_ofList, Text.Template.substitute_eq_fill, template]

theorem Command.fill_template (c : Command) :
    c.template.fill Command.placeholder.toList = c.run.toList :=
  Text.Template.fill_ofText (by decide) _

namespace Shell

/-! ### Values that are read as words -/

/-- Outside quotes, with no operator begun, a text adds a value to the word. -/
def Spells (s : List Char) (value : Word) : Prop :=
  ∀ x : Lexer, x.mode = .bare → x.operator = [] →
    ∃ n, x.run s = (x.later n).withWord (x.begun ++ value)

theorem spells_quote (s : List Char) : Spells (quote s) (quotedWord s) := by
  intro x hm ho
  have hq : ¬ (x.operator = ['<', '<'] ∧ s.head? = some '-' ∧ s.all isPlain) := by
    rw [ho]
    exact fun h => absurd h.1 (List.cons_ne_nil _ _).symm
  exact ⟨s.count '\n', by rw [Lexer.run_quote hm hq, Lexer.endOperator_of_nil ho]⟩

theorem spells_letters {s : List Char} (hne : s ≠ []) (hs : ∀ c ∈ s, isLetter c = true) :
    Spells s (s.map .bare) := by
  intro x hm ho
  obtain ⟨c, t, rfl⟩ := List.exists_cons_of_ne_nil hne
  have hc : ¬ (c = '-' ∧ x.operator = ['<', '<']) := by
    rw [ho]
    exact fun h => absurd h.2 (List.cons_ne_nil _ _).symm
  refine ⟨0, ?_⟩
  rw [Lexer.run_cons, Lexer.step_letter hm (hs c List.mem_cons_self) hc,
    Lexer.endOperator_of_nil ho,
    Lexer.run_letters hm ho fun d hd => hs d (List.mem_cons_of_mem c hd), Lexer.later_zero,
    List.append_assoc]
  rfl

/-! ### Open holes -/

/-- A character between words or lines. -/
def isBreak (c : Char) : Bool := isGap c || c = '\n'

theorem not_operates_of_isBreak {c : Char} (hc : isBreak c = true) :
    isOperatorChar c = false ∧ c ≠ '-' := by
  have hall : [' ', '\t', '\n'].all (fun d => ! isOperatorChar d && d != '-') = true := by decide
  have hmem : c ∈ [' ', '\t', '\n'] := by simpa [isBreak, isGap, or_assoc] using hc
  simpa using List.all_eq_true.mp hall c hmem

/-- Reads a part of a template. A hole is one glyph of the word that is begun. -/
def Lexer.stepPart (x : Lexer) : Option Char → Lexer
  | some c => x.step c
  | none => x.endOperator.add .hole

def readTemplate (t : Template) : Lexer := t.foldl Lexer.stepPart .start

def templateTokens (t : Template) : List Lexed := (readTemplate t).finish.made.reverse

/-- Whether a part of a template belongs to a word between breaks. -/
def inWord (p : Option Char) : Bool := p.all fun c => ! isBreak c

def lastWord (t : Template) : Template := t.rtakeWhile inWord

def firstWord (t : Template) : Template := t.takeWhile inWord

/-- A part of a word that quoting would leave as it is. -/
def isPlainPart (p : Option Char) : Bool := p.all isPlain

/-- A hole between two parts of a template where a quoted text can stand. -/
structure OpenAt (before after : Template) : Prop where
  bare : (readTemplate before).mode = .bare
  noMark : (readTemplate before).announces? = none
  left : (lastWord before).all isPlainPart = true
  right : (firstWord after).all isPlainPart = true

/-- Every hole is open. -/
def IsOpen (t : Template) : Prop :=
  ∀ before after, t = before ++ none :: after → OpenAt before after

theorem readTemplate_append (t : Template) (p : Option Char) :
    readTemplate (t ++ [p]) = (readTemplate t).stepPart p := by
  rw [readTemplate, List.foldl_append, ← readTemplate, List.foldl_cons, List.foldl_nil]

theorem lastWord_append (t : Template) (p : Option Char) :
    lastWord (t ++ [p]) = if inWord p then lastWord t ++ [p] else [] :=
  List.rtakeWhile_concat inWord t p

theorem inWord_break {c : Char} (hc : isBreak c = true) : inWord (some c) = false := by
  rw [inWord, Option.all_some, hc, Bool.not_true]

theorem inWord_noBreak {c : Char} (hc : isBreak c = false) : inWord (some c) = true := by
  rw [inWord, Option.all_some, hc, Bool.not_false]

/-- What stands behind a hole in the last word is plain, so far as the word goes on. -/
theorem IsOpen.isPlain_of_mem {t p q : Template} {c : Char} (ht : IsOpen t)
    (htp : t = p ++ some c :: q) (hole : none ∈ lastWord p) (hc : isBreak c = false) :
    isPlain c = true := by
  obtain ⟨u, v, huv⟩ := List.append_of_mem hole
  obtain ⟨rest, hrest⟩ := List.rtakeWhile_suffix inWord p
  have hv : ∀ e ∈ v, inWord e = true := by
    intro e he
    have hmem : e ∈ lastWord p := by
      rw [huv]
      exact List.mem_append_right u (List.mem_cons_of_mem none he)
    exact List.mem_rtakeWhile_imp hmem
  have hsplit : t = (rest ++ u) ++ none :: (v ++ some c :: q) := by
    rw [htp, ← hrest, ← lastWord, huv]
    simp
  have hright := (ht _ _ hsplit).right
  rw [firstWord, List.takeWhile_append_of_pos hv, List.takeWhile_cons, inWord_noBreak hc,
    if_pos rfl, List.all_append, List.all_cons, Bool.and_eq_true, Bool.and_eq_true] at hright
  exact hright.2.1

/-! ### Side by side -/

/-- A break outside quotes ends the word. -/
theorem Lexer.word_stepBreak {x : Lexer} {c : Char} (hm : x.mode = .bare) (hp : x.place = .line)
    (hc : isBreak c = true) : (x.step c).word = none := by
  obtain ⟨hop, hdash⟩ := not_operates_of_isBreak hc
  have hno : ¬ x.operates c := by
    rw [operates, hop]
    exact fun h => h.elim Bool.false_ne_true fun h => hdash h.1
  rw [step, hm]
  dsimp only
  rw [stepBare, if_neg fun h => absurd (hp.symm.trans h.1) Place.noConfusion, if_neg hno]
  dsimp only
  by_cases hn : c = '\n'
  · rw [if_pos hn, stepNewline]
    dsimp only
    split <;> exact word_endWord _
  · have hg : isGap c = true := by simpa [isBreak, hn] using hc
    rw [if_neg hn, if_pos hg]
    exact word_endWord _

/-- What holds behind a part of a template of the lexer that reads the part, and of one that reads
it with a value in its holes. -/
structure Reached (value : Word) (p : Template) (m x : Lexer) : Prop where
  calm : m.Calm
  operator : (lastWord p).all isPlainPart = true → m.operator = []
  bare : none ∈ lastWord p → m.mode = .bare ∧ m.operator = []
  lockstep : m.Lockstep (.hole value) (none ∈ lastWord p) x

namespace Reached

variable {value : Word} {p : Template} {m x : Lexer}

theorem start : Reached value [] .start .start where
  calm := ⟨rfl, fun _ => rfl⟩
  operator _ := rfl
  bare hn := absurd hn List.not_mem_nil
  lockstep := .start

theorem hole (hx : Reached value p m x) {s : List Char} (hs : Spells s value)
    (hb : m.mode = .bare) (hn : m.announces? = none)
    (hl : (lastWord p).all isPlainPart = true) :
    Reached value (p ++ [none]) (m.stepPart none) (x.run s) := by
  have ho := hx.operator hl
  have hlast : none ∈ lastWord (p ++ [none]) := by
    rw [lastWord_append]
    exact List.mem_concat_self
  obtain ⟨n, hrun⟩ := hs x (hx.lockstep.mode.trans hb) (hx.lockstep.operator.trans ho)
  have hslot := (hx.lockstep.restrict fun _ _ => hlast).addSlot false ho hn hlast
  rw [Lexer.stepPart, Lexer.endOperator_of_nil ho, hrun]
  exact ⟨⟨hx.calm.place, fun _ => ho⟩, fun _ => ho, fun _ => ⟨hb, ho⟩, hslot.atLine _ _⟩

theorem stepBreak (hx : Reached value p m x) {c : Char} (hc : isBreak c = true) :
    Reached value (p ++ [some c]) (m.step c) (x.step c) := by
  have hlast : lastWord (p ++ [some c]) = [] := by
    rw [lastWord_append, inWord_break hc, if_neg Bool.false_ne_true]
  obtain ⟨hop, hdash⟩ := not_operates_of_isBreak hc
  have hpasses : Lexer.Passes (.hole value) (none ∈ lastWord p) c := by
    rintro (rfl | rfl)
    · exact absurd hop (by decide)
    · exact absurd hop (by decide)
  refine ⟨hx.calm.step c, fun _ => ?_, fun hmem => ?_, ?_⟩
  · exact hx.calm.operator_step hop fun he => absurd he hdash
  · rw [hlast] at hmem
    exact absurd hmem List.not_mem_nil
  · refine (hx.lockstep.step hpasses).restrict fun hpending hmem => ?_
    have hnone := Lexer.word_stepBreak (hx.bare hmem).1 hx.calm.place hc
    exact absurd hpending (Lexer.not_pending_of_none hnone)

theorem stepInWord (hx : Reached value p m x) {c : Char} (hc : isBreak c = false)
    (hp : none ∈ lastWord p → isPlain c = true) :
    Reached value (p ++ [some c]) (m.step c) (x.step c) := by
  have hlast : lastWord (p ++ [some c]) = lastWord p ++ [some c] := by
    rw [lastWord_append, inWord_noBreak hc, if_pos rfl]
  have hmem : none ∈ lastWord (p ++ [some c]) ↔ none ∈ lastWord p := by
    rw [hlast, List.mem_append, List.mem_singleton]
    simp
  have hpasses : Lexer.Passes (.hole value) (none ∈ lastWord p) c := by
    rintro (rfl | rfl) hn
    · exact absurd (hp hn) (by decide)
    · exact absurd (hp hn) (by decide)
  refine ⟨hx.calm.step c, fun hall => ?_, fun hn => ?_, ?_⟩
  · rw [hlast, List.all_append, Bool.and_eq_true] at hall
    have hplain : isPlain c = true := by simpa [isPlainPart] using hall.2
    have hop := isOperatorChar_eq_false_of_isLetter (isLetter_of_isPlain hplain)
    exact hx.calm.operator_step hop fun _ => hx.operator hall.1
  · obtain ⟨hb, ho⟩ := hx.bare (hmem.mp hn)
    have hletter := isLetter_of_isPlain (hp (hmem.mp hn))
    rw [Lexer.step_letter hb hletter (by simp [ho]), Lexer.endOperator_of_nil ho]
    exact ⟨hb, ho⟩
  · exact (hx.lockstep.step hpasses).restrict fun _ hn => hmem.mpr hn

end Reached

/-- What a template is read as, part by part. -/
theorem IsOpen.reached {t : Template} {s : List Char} {value : Word} (ht : IsOpen t)
    (hs : Spells s value) (p : Template) :
    ∀ q, t = p ++ q → Reached value p (readTemplate p) (Lexer.start.run (p.fill s)) := by
  -- from left to right, since whether a hole is open depends on what stands in front of it
  induction p using List.reverseRecOn with
  | nil => exact fun _ _ => .start
  | append_singleton p e ih =>
    intro q htp
    rw [List.append_assoc, List.singleton_append] at htp
    have hx := ih (e :: q) htp
    rw [readTemplate_append, Text.Template.fill_append, Lexer.run_append]
    cases e with
    | none =>
      have hopen := ht p q htp
      rw [Text.Template.fill_hole, Text.Template.fill_nil, List.append_nil]
      exact hx.hole hs hopen.bare hopen.noMark hopen.left
    | some c =>
      by_cases hc : isBreak c = true
      · exact hx.stepBreak hc
      · rw [Bool.not_eq_true] at hc
        exact hx.stepInWord hc fun hmem => ht.isPlain_of_mem htp hmem hc

/-- **The tokens of a template with its open holes filled.** -/
theorem tokens_fill {t : Template} {s : List Char} {value : Word} (ht : IsOpen t)
    (hs : Spells s value) :
    (tokens (t.fill s)).map Lexed.token =
      (templateTokens t).map fun l => l.token.fillIn value := by
  have hx := ht.reached hs t [] (List.append_nil t).symm
  rw [tokens, templateTokens, List.map_reverse, hx.lockstep.finish.made, List.map_reverse]
  simp only [Token.fillSlots_hole]

end Shell

end QualityGate
