import QualityGate.Shell.Lexer

/-! # Slots in words

A value may be put into a word later. A slot keeps its place, and `Token.fillSlots` puts the value
there. There are two kinds of slots, for what is read between double quotes and for the rest; where
only the latter kind is there it is a hole, and `Token.fillIn` fills it.

The lexer reads a word in front of a redirection as a number if it is one. A word with a slot is
none, and with a solid value in it is none either (`Filling.Solid.ioNumber?`). -/

namespace QualityGate.Shell

/-! ### Holes -/

/-- The glyph that stands for a value to come. No text has it, for a variable's name is not empty.
-/
def Glyph.hole : Glyph := .expansion false (.variable [])

def Word.fillIn (w value : Word) : Word :=
  w.flatMap fun g => if g = .hole then value else [g]

def Token.fillIn (value : Word) : Token → Token
  | .word w => .word (w.fillIn value)
  | t => t

/-! ### Slots -/

/-- The glyph that stands for a value to come, between double quotes or outside, where it is a
hole. -/
def Glyph.slot (isDouble : Bool) : Glyph := .expansion isDouble (.variable [])

def Glyph.isSlot : Glyph → Bool
  | .expansion _ (.variable []) => true
  | _ => false

/-- What is put into the slots of either kind. -/
abbrev Filling := (isDouble : Bool) → Word

/-- What stands for a glyph once the slots are filled. -/
def Glyph.fill (v : Filling) : Glyph → Word
  | .expansion isDouble (.variable []) => v isDouble
  | g => [g]

def Word.fillSlots (v : Filling) (w : Word) : Word := w.flatMap (Glyph.fill v)

def Token.fillSlots (v : Filling) : Token → Token
  | .word w => .word (w.fillSlots v)
  | t => t

theorem Glyph.isSlot_iff {g : Glyph} : g.isSlot = true ↔ ∃ isDouble, g = .slot isDouble := by
  constructor
  · intro hg
    unfold isSlot at hg
    split at hg
    · exact ⟨_, rfl⟩
    · exact absurd hg Bool.false_ne_true
  · rintro ⟨isDouble, rfl⟩
    rfl

theorem Glyph.isSlot_expansion (isQuoted : Bool) {e : Expansion} (he : e ≠ .variable []) :
    (Glyph.expansion isQuoted e).isSlot = false := by
  rw [← Bool.not_eq_true, isSlot_iff]
  rintro ⟨isDouble, h⟩
  exact he (Glyph.expansion.inj h).2

theorem Glyph.fill_of_not_isSlot {v : Filling} {g : Glyph} (hg : g.isSlot = false) :
    g.fill v = [g] := by
  rw [fill]
  rintro isDouble rfl
  exact Bool.noConfusion hg

theorem Word.fillSlots_append (v : Filling) (w u : Word) :
    Word.fillSlots v (w ++ u) = w.fillSlots v ++ u.fillSlots v :=
  List.flatMap_append

theorem Word.fillSlots_singleton (v : Filling) (g : Glyph) : Word.fillSlots v [g] = g.fill v :=
  List.flatMap_singleton _ _

theorem Word.fillSlots_of_no_slot {v : Filling} {w : Word} (hw : ∀ g ∈ w, g.isSlot = false) :
    w.fillSlots v = w := by
  induction w with
  | nil => rfl
  | cons g w ih =>
    have hg : g.fill v = [g] := Glyph.fill_of_not_isSlot (hw g List.mem_cons_self)
    rw [fillSlots, List.flatMap_cons, ← fillSlots, hg, List.singleton_append,
      ih fun h hh => hw h (List.mem_cons_of_mem g hh)]

def Filling.hole (value : Word) : Filling :=
  fun isDouble => if isDouble then [.slot true] else value

theorem Token.fillSlots_hole (value : Word) (t : Token) :
    t.fillSlots (.hole value) = t.fillIn value := by
  have hglyph : ∀ g : Glyph, g.fill (.hole value) = if g = .hole then value else [g] := by
    intro g
    cases hg : g.isSlot with
    | true =>
      obtain ⟨isDouble, rfl⟩ := Glyph.isSlot_iff.mp hg
      cases isDouble <;> rfl
    | false =>
      rw [Glyph.fill_of_not_isSlot hg, if_neg]
      rintro rfl
      exact Bool.noConfusion hg
  cases t with
  | word w =>
    rw [fillSlots, fillIn, Word.fillSlots, Word.fillIn]
    exact congrArg Token.word (congrArg (w.flatMap ·) (funext hglyph))
  | _ => rfl

/-! ### Numbers in front of redirections -/

/-- No value is a number: whatever is beside it, the word is not read as one. -/
def Filling.Solid (v : Filling) : Prop :=
  ∀ isDouble, ∃ g ∈ v isDouble, ∀ c, g = .bare c → c.isDigit = false

theorem Lexer.digit_of_ioNumber? {w : Word} {n : Nat} (h : ioNumber? w = some n) {g : Glyph}
    (hg : g ∈ w) : ∃ c, g = .bare c ∧ c.isDigit = true := by
  have hbare : ∀ {w : Word} {s : List Char}, w.bareText? = some s → w = s.map .bare := by
    intro w
    induction w with
    | nil =>
      intro s hs
      rw [← Option.some.inj hs]
      rfl
    | cons g w ih =>
      intro s hs
      cases g with
      | bare c =>
        rw [Word.bareText?, List.mapM_cons] at hs
        obtain ⟨d, hd, hrest⟩ := Option.bind_eq_some_iff.mp hs
        obtain ⟨r, hr, hcons⟩ := Option.bind_eq_some_iff.mp hrest
        rw [← Option.some.inj hcons, ← Option.some.inj hd, ih hr]
        rfl
      | quoted c => exact absurd hs (by simp [Word.bareText?])
      | expansion q e => exact absurd hs (by simp [Word.bareText?])
  rw [ioNumber?] at h
  split at h
  · rename_i d ds hds
    split at h
    · rename_i hall
      rw [hbare hds] at hg
      obtain ⟨c, hc, rfl⟩ := List.mem_map.mp hg
      exact ⟨c, rfl, List.all_eq_true.mp hall c hc⟩
    · exact absurd h (by simp)
  · exact absurd h (by simp)

/-- A word with a slot is no number. -/
theorem Lexer.ioNumber?_of_isSlot {w : Word} {g : Glyph} (hg : g ∈ w) (hslot : g.isSlot = true) :
    ioNumber? w = none := by
  rw [Option.eq_none_iff_forall_ne_some]
  intro n hn
  obtain ⟨c, rfl, -⟩ := digit_of_ioNumber? hn hg
  exact absurd hslot Bool.false_ne_true

theorem Filling.Solid.ioNumber? {v : Filling} (hv : v.Solid) {w : Word} {g : Glyph} (hg : g ∈ w)
    (hslot : g.isSlot = true) : Lexer.ioNumber? (w.fillSlots v) = none := by
  rw [Option.eq_none_iff_forall_ne_some]
  intro n hn
  obtain ⟨isDouble, rfl⟩ := Glyph.isSlot_iff.mp hslot
  obtain ⟨h, hmem, hdigit⟩ := hv isDouble
  have hfilled : h ∈ w.fillSlots v := List.mem_flatMap.mpr ⟨_, hg, hmem⟩
  obtain ⟨c, rfl, hc⟩ := Lexer.digit_of_ioNumber? hn hfilled
  rw [hdigit c rfl] at hc
  exact Bool.noConfusion hc

end QualityGate.Shell
