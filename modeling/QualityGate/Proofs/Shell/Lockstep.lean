import Mathlib.Tactic.SplitIfs
import QualityGate.Proofs.Shell.Calm
import QualityGate.Proofs.Shell.Slots

/-! # Two lexers in step

Here two lexers are read side by side that are the same but for their words, where one has slots and
the other the values: `Lockstep` is what they have in common, and it holds on whatever they read
(`Lockstep.step`). Nothing that the lexer decides looks at a word that is made. Only a
here-document's end mark and a number in front of a redirection look at one that is begun. So no end
mark is awaited while a word with slots is begun, and where such a word may meet a redirection the
values have to be solid. -/

namespace QualityGate.Shell

/-- Whether a token announces a here-document, and if so whether tabs are taken off. -/
def Token.announces? : Token → Option Bool
  | .operator ['<', '<'] => some false
  | .operator ['<', '<', '-'] => some true
  | _ => none

/-- If the lexer is in a name, it has read some of it. -/
def Mode.IsNamed : Mode → Prop
  | .name _ text => text ≠ []
  | _ => True

namespace Lexer

theorem announces?_eq (x : Lexer) :
    x.announces? = x.made.head?.bind fun l => l.token.announces? := by
  rw [announces?]
  cases x.made with
  | nil => rfl
  | cons l ls =>
    obtain ⟨t, i⟩ := l
    cases t with
    | operator o =>
      by_cases h1 : o = ['<', '<']
      · subst h1; rfl
      · by_cases h2 : o = ['<', '<', '-']
        · subst h2; rfl
        · simp [Token.announces?, h1, h2]
    | _ => rfl

theorem announces?_make (x : Lexer) (t : Token) : (x.make t).announces? = t.announces? :=
  announces?_eq (x.make t)

/-- The word that is begun has a slot. -/
def Pending (x : Lexer) : Prop := ∃ g ∈ x.begun, g.isSlot = true

theorem not_pending_of_none {x : Lexer} (hw : x.word = none) : ¬ x.Pending := by
  rintro ⟨g, hg, -⟩
  rw [begun, hw] at hg
  exact absurd hg List.not_mem_nil

/-- What two lexers have in common: all but the lines they are in, and the words, which are the same
with the values in the slots. The word that is begun has slots only if `slots` holds. -/
structure Lockstep (v : Filling) (slots : Prop) (m x : Lexer) : Prop where
  mode : x.mode = m.mode
  word : x.word = m.word.map (Word.fillSlots v)
  pending : m.Pending → slots ∧ m.operator = [] ∧ m.announces? = none
  named : m.mode.IsNamed
  operator : x.operator = m.operator
  made : x.made.map Lexed.token = m.made.map fun l => l.token.fillSlots v
  announced : x.announced = m.announced
  documents : x.documents = m.documents
  place : x.place = m.place

/-- A character that does not turn a word with slots into a number. -/
def Passes (v : Filling) (slots : Prop) (c : Char) : Prop := c = '<' ∨ c = '>' → slots → v.Solid

namespace Lockstep

variable {v : Filling} {slots : Prop} {m x : Lexer}

theorem start : Lockstep v slots .start .start where
  mode := rfl
  word := rfl
  pending h := absurd h (not_pending_of_none rfl)
  named := trivial
  operator := rfl
  made := rfl
  announced := rfl
  documents := rfl
  place := rfl

theorem begun (hx : Lockstep v slots m x) : x.begun = m.begun.fillSlots v := by
  rw [Lexer.begun, Lexer.begun, hx.word]
  cases m.word <;> rfl

theorem noSlot (hp : ¬ m.Pending) {g : Glyph} (hg : g ∈ m.begun) : g.isSlot = false := by
  rw [← Bool.not_eq_true]
  exact fun hslot => hp ⟨g, hg, hslot⟩

/-- Whether the word that is begun may have slots is up to what it is. -/
theorem restrict (hx : Lockstep v slots m x) {slots' : Prop} (h : m.Pending → slots → slots') :
    Lockstep v slots' m x :=
  { hx with pending := fun hp => ⟨h hp (hx.pending hp).1, (hx.pending hp).2⟩ }

/-! ### Single moves -/

theorem goTo (hx : Lockstep v slots m x) (k : Mode) (hk : k.IsNamed) :
    Lockstep v slots (m.goTo k) (x.goTo k) :=
  { hx with mode := rfl, named := hk }

theorem atLine (hx : Lockstep v slots m x) (i j : Nat) :
    Lockstep v slots { m with line := i } { x with line := j } :=
  { hx with }

theorem add (hx : Lockstep v slots m x) {g : Glyph} (hg : g.isSlot = false) :
    Lockstep v slots (m.add g) (x.add g) := by
  refine { hx with word := ?_, pending := ?_ }
  · rw [Lexer.add, Lexer.add, hx.begun, Option.map_some, Word.fillSlots_append,
      Word.fillSlots_singleton, Glyph.fill_of_not_isSlot hg]
  · rintro ⟨h, hmem, hslot⟩
    rcases List.mem_append.mp hmem with hbegun | hg'
    · exact hx.pending ⟨h, hbegun, hslot⟩
    · rw [List.mem_singleton.mp hg', hg] at hslot
      exact absurd hslot Bool.false_ne_true

/-- A slot on one side and its value on the other. -/
theorem addSlot (hx : Lockstep v slots m x) (isDouble : Bool) (ho : m.operator = [])
    (hn : m.announces? = none) (hs : slots) :
    Lockstep v slots (m.add (.slot isDouble)) (x.withWord (x.begun ++ v isDouble)) := by
  refine { hx with word := ?_, pending := fun _ => ⟨hs, ho, hn⟩ }
  rw [Lexer.add, withWord, hx.begun, Option.map_some, Word.fillSlots_append,
    Word.fillSlots_singleton]
  rfl

theorem enter (hx : Lockstep v slots m x) (k : Mode) (hk : k.IsNamed) :
    Lockstep v slots (m.enter k) (x.enter k) := by
  refine { hx with mode := rfl, word := ?_, named := hk }
  rw [Lexer.enter, Lexer.enter, hx.begun]
  rfl

theorem make (hx : Lockstep v slots m x) {t u : Token} (ht : u = t.fillSlots v)
    (hn : m.Pending → t.announces? = none) :
    Lockstep v slots (m.make t) (x.make u) := by
  refine { hx with made := ?_, pending := fun h => ?_ }
  · exact ⟨(hx.pending h).1, (hx.pending h).2.1, (announces?_make m t).trans (hn h)⟩
  · rw [Lexer.make, Lexer.make, List.map_cons, List.map_cons, hx.made, ht]

theorem withOperator (hx : Lockstep v slots m x) (o : List Char) (hp : ¬ m.Pending) :
    Lockstep v slots { m with operator := o } { x with operator := o } :=
  { hx with operator := rfl, pending := fun h => absurd h hp }

theorem withoutWord (hx : Lockstep v slots m x) :
    Lockstep v slots { m with word := none } { x with word := none } :=
  { hx with word := rfl, pending := fun h => absurd h (not_pending_of_none rfl) }

theorem announces? (hx : Lockstep v slots m x) : x.announces? = m.announces? := by
  have hfill : ∀ t : Token, (t.fillSlots v).announces? = t.announces? := by
    intro t
    cases t <;> rfl
  have hhead := congrArg List.head? hx.made
  rw [List.head?_map, List.head?_map] at hhead
  have htoken := congrArg (Option.bind · Token.announces?) hhead
  rw [Option.bind_map, Option.bind_map] at htoken
  rw [announces?_eq, announces?_eq]
  refine htoken.trans (congrArg _ (funext fun l => ?_))
  exact hfill l.token

/-- No operator is begun in a word with a slot. -/
theorem not_pending (hx : Lockstep v slots m x) (ho : m.operator ≠ []) : ¬ m.Pending :=
  fun h => ho (hx.pending h).2.1

theorem endOperator (hx : Lockstep v slots m x) : Lockstep v slots m.endOperator x.endOperator := by
  rw [Lexer.endOperator, Lexer.endOperator, hx.operator]
  by_cases ho : m.operator = []
  · rw [if_pos ho, if_pos ho]
    exact hx
  · have hp := hx.not_pending ho
    rw [if_neg ho, if_neg ho]
    exact (hx.make rfl fun h => absurd h hp).withOperator [] hp

theorem endWord (hx : Lockstep v slots m x) : Lockstep v slots m.endWord x.endWord := by
  rw [Lexer.endWord, Lexer.endWord, hx.word]
  cases hw : m.word with
  | none => exact hx
  | some w =>
    have hy := hx.withoutWord
    have hbegun : m.begun = w := by rw [Lexer.begun, hw, Option.getD_some]
    dsimp only [Option.map_some]
    rw [hy.announces?]
    split
    · -- the word is an end mark, so it has no slot and is the same in both
      rename_i stripTabs hmark
      have hp : ¬ m.Pending := by
        intro h
        have hnone : ({ m with word := none } : Lexer).announces? = none := (hx.pending h).2.2
        rw [hmark] at hnone
        exact absurd hnone (Option.some_ne_none _)
      rw [Word.fillSlots_of_no_slot fun g hg => noSlot hp (hbegun ▸ hg), hx.documents,
        hx.announced]
      refine { hy.make (t := .here _ _) rfl fun _ => rfl with
        announced := rfl, documents := rfl, pending := fun h => ?_ }
      exact absurd h (not_pending_of_none rfl)
    · exact hy.make rfl fun _ => rfl

theorem endWordBefore (hx : Lockstep v slots m x) {c : Char} (hc : Passes v slots c) :
    Lockstep v slots (m.endWordBefore c) (x.endWordBefore c) := by
  by_cases hp : m.Pending
  · have hsolid := fun hredirect => hc hredirect (hx.pending hp).1
    -- with a slot the word is no number, and is not looked at where there is no redirection
    have hend : ∀ y : Lexer, ((c = '<' ∨ c = '>') → y.word.bind ioNumber? = none) →
        y.endWordBefore c = y.endWord := by
      intro y hy
      rw [Lexer.endWordBefore]
      split
      · rename_i n hn
        by_cases hredirect : c = '<' ∨ c = '>'
        · rw [hy hredirect] at hn
          exact absurd hn.symm (Option.some_ne_none n)
        · rw [if_neg hredirect]
      · rfl
    obtain ⟨g, hg, hslot⟩ := hp
    cases hw : m.word with
    | none => exact absurd ⟨g, hg, hslot⟩ (not_pending_of_none hw)
    | some w =>
      rw [Lexer.begun, hw, Option.getD_some] at hg
      rw [hend m fun _ => ?_, hend x fun hredirect => ?_]
      · exact hx.endWord
      · rw [hx.word, hw]
        exact (hsolid hredirect).ioNumber? hg hslot
      · rw [hw]
        exact ioNumber?_of_isSlot hg hslot
  · have hword : x.word = m.word := by
      rw [hx.word]
      cases hw : m.word with
      | none => rfl
      | some w =>
        have hbegun : m.begun = w := by rw [Lexer.begun, hw, Option.getD_some]
        rw [Option.map_some, Word.fillSlots_of_no_slot fun g hg => noSlot hp (hbegun ▸ hg)]
    rw [Lexer.endWordBefore, Lexer.endWordBefore, hword]
    split
    · split
      · exact hx.withoutWord.make rfl fun _ => rfl
      · exact hx.endWord
    · exact hx.endWord

/-- The operator character ends the word, so none with a slot is begun behind it. -/
theorem not_pending_endWordBefore (m : Lexer) (c : Char) : ¬ (m.endWordBefore c).Pending := by
  apply not_pending_of_none
  rw [Lexer.endWordBefore]
  split
  · split
    · rfl
    · exact word_endWord m
  · exact word_endWord m

theorem stepOperator (hx : Lockstep v slots m x) {c : Char} (hc : Passes v slots c) :
    Lockstep v slots (m.stepOperator c) (x.stepOperator c) := by
  rw [Lexer.stepOperator, Lexer.stepOperator, hx.operator]
  split
  · rename_i hlong
    refine hx.withOperator _ (hx.not_pending ?_)
    intro ho
    have hlength : ∀ o ∈ longOperators, o.length ≠ 1 := by decide
    rw [ho] at hlong
    exact hlength _ hlong rfl
  · exact (hx.endOperator.endWordBefore hc).withOperator [c] (not_pending_endWordBefore _ c)

theorem stepNewline (hx : Lockstep v slots m x) : Lockstep v slots m.stepNewline x.stepNewline := by
  have hy := hx.endOperator.endWord.make (t := .newline) (u := .newline) rfl fun _ => rfl
  rw [Lexer.stepNewline, Lexer.stepNewline]
  simp only
  by_cases ha : (m.endOperator.endWord.make .newline).announced = []
  · rw [if_pos ha, if_pos (hy.announced.trans ha)]
    exact (hy.atLine _ _).goTo .bare trivial
  · rw [if_neg ha, if_neg fun hn => ha (hy.announced.symm.trans hn)]
    exact (hy.atLine _ _).goTo (.here []) trivial

theorem ite_iff {p q : Prop} [Decidable p] [Decidable q] (hpq : q ↔ p) {m' x' : Lexer}
    (ht : p → Lockstep v slots m x) (he : ¬ p → Lockstep v slots m' x') :
    Lockstep v slots (if p then m else m') (if q then x else x') := by
  by_cases hp : p
  · rw [if_pos hp, if_pos (hpq.mpr hp)]
    exact ht hp
  · rw [if_neg hp, if_neg (mt hpq.mp hp)]
    exact he hp

theorem ite {p : Prop} [Decidable p] {m' x' : Lexer} (ht : p → Lockstep v slots m x)
    (he : ¬ p → Lockstep v slots m' x') :
    Lockstep v slots (if p then m else m') (if p then x else x') :=
  ite_iff Iff.rfl ht he

/-! ### Characters -/

theorem addChar (hx : Lockstep v slots m x) (c : Char) :
    Lockstep v slots (m.add (.bare c)) (x.add (.bare c)) :=
  hx.add rfl

theorem addQuoted (hx : Lockstep v slots m x) (c : Char) :
    Lockstep v slots (m.add (.quoted c)) (x.add (.quoted c)) :=
  hx.add rfl

theorem stepBare (hx : Lockstep v slots m x) {c : Char} (hc : Passes v slots c) :
    Lockstep v slots (m.stepBare c) (x.stepBare c) := by
  have hy := hx.endOperator
  rw [Lexer.stepBare, Lexer.stepBare, hx.place, hx.operator]
  dsimp only
  have hword : x.endOperator.word = none ↔ m.endOperator.word = none := by
    rw [hy.word, Option.map_eq_none_iff]
  refine ite (fun _ => (hx.addChar c).goTo .bare trivial) fun _ => ?_
  refine ite (fun _ => hx.stepOperator hc) fun _ => ?_
  refine ite (fun _ => hy.stepNewline) fun _ => ?_
  refine ite (fun _ => hy.endWord.goTo .bare trivial) fun _ => ?_
  refine ite (fun _ => hy.enter .single trivial) fun _ => ?_
  refine ite (fun _ => hy.enter .double trivial) fun _ => ?_
  refine ite (fun _ => hy.goTo .escape trivial) fun _ => ?_
  refine ite (fun _ => hy.goTo (.dollar false) trivial) fun _ => ?_
  refine ite (fun _ => hy.enter _ trivial) fun _ => ?_
  exact ite_iff (and_congr_right fun _ => hword) (fun _ => hy.goTo .comment trivial) fun _ =>
    (hy.addChar c).goTo .bare trivial

theorem stepDouble (hx : Lockstep v slots m x) (c : Char) :
    Lockstep v slots (m.stepDouble c) (x.stepDouble c) := by
  rw [Lexer.stepDouble, Lexer.stepDouble, hx.place]
  split_ifs
  · exact hx.goTo .bare trivial
  · exact hx.goTo .doubleEscape trivial
  · exact hx.goTo (.dollar true) trivial
  · exact hx.goTo _ trivial
  · exact (hx.addQuoted c).goTo .double trivial

theorem stepDoubleEscape (hx : Lockstep v slots m x) (c : Char) :
    Lockstep v slots (m.stepDoubleEscape c) (x.stepDoubleEscape c) := by
  rw [Lexer.stepDoubleEscape, Lexer.stepDoubleEscape, hx.place]
  split_ifs
  · exact hx.goTo .double trivial
  · exact (hx.addQuoted c).goTo .double trivial
  · exact ((hx.addQuoted '\\').addQuoted c).goTo .double trivial

theorem stepText (hx : Lockstep v slots m x) (isQuoted : Bool) {c : Char} (hc : Passes v slots c) :
    Lockstep v slots (m.stepText isQuoted c) (x.stepText isQuoted c) := by
  rw [Lexer.stepText, Lexer.stepText]
  split
  · exact (hx.goTo .double trivial).stepDouble c
  · exact (hx.goTo .bare trivial).stepBare hc

theorem addExpansion (hx : Lockstep v slots m x) (isQuoted : Bool) {e : Expansion}
    (he : e ≠ .variable []) :
    Lockstep v slots (m.addExpansion isQuoted e) (x.addExpansion isQuoted e) := by
  refine (hx.add (Glyph.isSlot_expansion isQuoted he)).goTo _ ?_
  split <;> trivial

theorem addDollar (hx : Lockstep v slots m x) (isQuoted : Bool) :
    Lockstep v slots (m.addDollar isQuoted) (x.addDollar isQuoted) := by
  cases isQuoted with
  | true => exact hx.addQuoted '$'
  | false => exact hx.addChar '$'

theorem stepDollar (hx : Lockstep v slots m x) (isQuoted : Bool) {c : Char}
    (hc : Passes v slots c) : Lockstep v slots (m.stepDollar isQuoted c) (x.stepDollar isQuoted c) := by
  rw [Lexer.stepDollar, Lexer.stepDollar]
  split_ifs
  · exact hx.enter _ trivial
  · exact hx.enter _ trivial
  · exact hx.enter _ (List.cons_ne_nil c [])
  · have he : Expansion.variable [c] ≠ .variable [] :=
      fun h => List.cons_ne_nil c [] (Expansion.variable.inj h)
    exact hx.addExpansion isQuoted he
  · exact (hx.addDollar isQuoted).stepText isQuoted hc

theorem stepName (hx : Lockstep v slots m x) (isQuoted : Bool) {name : List Char} (hn : name ≠ [])
    {c : Char} (hc : Passes v slots c) :
    Lockstep v slots (m.stepName isQuoted name c) (x.stepName isQuoted name c) := by
  have he : Expansion.variable name ≠ .variable [] := fun h => hn (Expansion.variable.inj h)
  rw [Lexer.stepName, Lexer.stepName]
  split_ifs
  · exact hx.goTo _ (List.append_ne_nil_of_right_ne_nil name (List.cons_ne_nil c []))
  · exact (hx.addExpansion isQuoted he).stepText isQuoted hc

theorem expansion_ne_variable (n : Nest) (name : List Char) : n.expansion ≠ .variable name := by
  rw [Nest.expansion]
  split
  · exact Expansion.noConfusion
  · exact Expansion.noConfusion
  · split <;> exact Expansion.noConfusion

theorem stepNest (hx : Lockstep v slots m x) (n : Nest) (c : Char) :
    Lockstep v slots (m.stepNest n c) (x.stepNest n c) := by
  have hy : Lockstep v slots (if c = '\n' then { m with line := m.line + 1 } else m)
      (if c = '\n' then { x with line := x.line + 1 } else x) :=
    ite (fun _ => hx.atLine _ _) fun _ => hx
  rw [Lexer.stepNest, Lexer.stepNest]
  refine ite (fun _ => hy.goTo _ trivial) fun _ => ?_
  refine ite (fun _ => hy.goTo _ trivial) fun _ => ?_
  split
  · exact hy.goTo _ trivial
  · exact hy.addExpansion _ (expansion_ne_variable n [])

/-! ### Here-documents -/

theorem token_fill (a : Announced) (l : Lexed) (i : Nat) :
    (fill a ⟨l.token.fillSlots v, i⟩).token = (fill a l).token.fillSlots v := by
  obtain ⟨t, j⟩ := l
  cases t with
  | here index body =>
    simp only [fill, Token.fillSlots]
    split_ifs <;> rfl
  | _ => rfl

theorem announces?_endDocument (m : Lexer) (a : Announced) (as : List Announced) :
    (m.endDocument a as).announces? = m.announces? := by
  rw [announces?_eq, announces?_eq, Lexer.endDocument]
  dsimp only
  rw [List.head?_map, Option.bind_map]
  refine congrArg _ (funext fun l => ?_)
  obtain ⟨t, i⟩ := l
  cases t with
  | here index body =>
    simp only [Function.comp_apply, fill]
    split <;> rfl
  | _ => rfl

theorem endDocument (hx : Lockstep v slots m x) (a : Announced) (as : List Announced) :
    Lockstep v slots (m.endDocument a as) (x.endDocument a as) := by
  refine { hx with
    made := ?_, announced := rfl, pending := fun h => ?_ }
  · rw [announces?_endDocument]
    exact hx.pending h
  have hfill : ∀ l k : Lexed, k.token = l.token.fillSlots v →
      (fill a k).token = (fill a l).token.fillSlots v := by
    intro l k hk
    rw [← token_fill, ← hk]
  have hmade := hx.made
  rw [Lexer.endDocument, Lexer.endDocument]
  -- a document's text goes to a token that no value is put into
  dsimp only
  rw [List.map_map, List.map_map]
  generalize m.made = ls, x.made = ks at hmade ⊢
  induction ls generalizing ks with
  | nil => rw [List.map_eq_nil_iff.mp hmade]; rfl
  | cons l ls ih =>
    obtain ⟨k, ks', rfl, hk, hks⟩ := List.map_eq_cons_iff.mp hmade
    rw [List.map_cons, List.map_cons, ih ks' hks]
    exact congrArg (· :: _) (hfill l k hk)

theorem endHereLine (hx : Lockstep v slots m x) (line : List Char) :
    Lockstep v slots (m.endHereLine line) (x.endHereLine line) := by
  rw [Lexer.endHereLine, Lexer.endHereLine, hx.announced]
  split
  · exact hx.goTo .bare trivial
  · rename_i a as _
    refine ite (fun _ => (hx.endDocument a as).goTo _ ?_) fun _ => ?_
    · split <;> trivial
    · exact { hx with mode := rfl, announced := rfl, named := trivial }

/-! ### Whole texts -/

/-- **Lexers in step stay so.** -/
theorem step (hx : Lockstep v slots m x) {c : Char} (hc : Passes v slots c) :
    Lockstep v slots (m.step c) (x.step c) := by
  have hnamed := hx.named
  rw [Lexer.step, Lexer.step, hx.mode]
  split
  · exact hx.stepBare hc
  · have hy := (hx.addQuoted c).goTo .bare trivial
    exact ite (fun _ => (hx.atLine _ _).goTo .bare trivial) fun _ => hy
  · exact ite (fun _ => hx.goTo .bare trivial) fun _ => (hx.addQuoted c).atLine _ _
  · exact (hx.atLine _ _).stepDouble c
  · exact hx.stepDoubleEscape c
  · exact ite (fun _ => hx.stepNewline) fun _ => hx
  · exact hx.stepDollar _ hc
  · rename_i isQuoted name hm
    rw [hm] at hnamed
    exact hx.stepName isQuoted hnamed hc
  · exact hx.stepNest _ c
  · exact ite (fun _ => (hx.atLine _ _).endHereLine _) fun _ => hx.goTo _ trivial

theorem cutHereLine (hx : Lockstep v slots m x) (line : List Char) :
    Lockstep v slots (m.cutHereLine line) (x.cutHereLine line) := by
  rw [Lexer.cutHereLine, Lexer.cutHereLine, hx.announced]
  split
  · exact hx
  · refine ite (fun _ => hx.endDocument _ _) fun _ => ?_
    exact { hx with announced := rfl }

theorem cutHere (hx : Lockstep v slots m x) : Lockstep v slots m.cutHere x.cutHere := by
  rw [Lexer.cutHere, Lexer.cutHere, hx.announced]
  generalize m.announced = as
  induction as generalizing m x with
  | nil => exact hx
  | cons a as ih => exact ih (hx.endDocument a [])

theorem finish (hx : Lockstep v slots m x) : Lockstep v slots m.finish x.finish := by
  have hnamed := hx.named
  rw [Lexer.finish, Lexer.finish, hx.mode]
  refine Lockstep.make (Lockstep.cutHere ?_) rfl fun _ => rfl
  split
  · exact hx.endOperator.endWord
  · exact hx.endOperator.endWord
  · exact (hx.addQuoted '\\').endWord
  · exact (hx.addDollar false).endWord
  · rename_i name hm
    rw [hm] at hnamed
    have he : Expansion.variable name ≠ .variable [] := fun h => hnamed (Expansion.variable.inj h)
    exact (hx.add (Glyph.isSlot_expansion false he)).endWord
  · exact hx.cutHereLine _
  · exact hx

end Lockstep

end Lexer

end QualityGate.Shell
