import QualityGate.Proofs.Shell.Template

/-! # Placeholders between quotes

A path is quoted as if it stood outside quotes. Between single quotes the quotes that it brings
along end the stretch and begin it again, so that the path itself stands bare; between double quotes
they are characters like others, and what is special there stays so.

`Lexer.InStretch.keeps_iff` says which paths come through: every part of such a path adds a literal
piece to the word and does nothing else, and the lexer ends in the stretch. `IsEnclosed.keeps_iff`
says it of the holes of a template all at once. For such a path the tokens of a command line are
those of its template, with the path's piece in the slots (`tokens_fillEnclosed`). -/

namespace QualityGate

open Text (Template)

namespace Shell

/-! ### Quoted texts between quotes -/

/-- The characters that may mean something between double quotes. A backslash does so in front of
some characters only, but which one comes next is not looked at. -/
def doubleActive : List Char := ['"', '\\', '$', '`']

/-- No character of the text is active where quoting leaves it in a stretch: bare in one of single
quotes, in its place in one of double quotes. -/
def IsHarmless (isDouble : Bool) (s : List Char) : Prop :=
  ∀ c ∈ s, if isDouble then c ∉ doubleActive else isActive c = false

/-- What a quoted text is read as in a stretch. -/
def enclosedWord (s : List Char) : Filling := fun isDouble =>
  if isDouble then (quote s).map .quoted
  else if s.all isPlain then s.map .quoted else s.map .bare

/-- The quotes on either side of a text that is quoted. -/
def quoteMarks (s : List Char) : List Char := if s ≠ [] ∧ s.all isPlain then [] else ['\'']

theorem isHarmless_nil (isDouble : Bool) : IsHarmless isDouble [] :=
  fun _ hc => absurd hc List.not_mem_nil

theorem isHarmless_of_isPlain {s : List Char} (hs : ∀ c ∈ s, isPlain c = true)
    (isDouble : Bool) : IsHarmless isDouble s := by
  have hno : doubleActive.all (! isPlain ·) = true := by decide
  intro c hc
  have hplain := hs c hc
  cases isDouble with
  | true =>
    intro hmem
    have hspecial := List.all_eq_true.mp hno c hmem
    rw [hplain] at hspecial
    exact Bool.noConfusion hspecial
  | false => exact isActive_eq_false_of_isPlain hplain

theorem inert_of_mem_enclosedWord {s : List Char} {isDouble : Bool}
    (hs : IsHarmless isDouble s) {g : Glyph} (hg : g ∈ enclosedWord s isDouble) :
    g.isInert = true := by
  rw [enclosedWord] at hg
  cases isDouble with
  | true => exact inert_of_mem_quoted hg
  | false =>
    rw [if_neg Bool.false_ne_true] at hg
    split at hg
    · exact inert_of_mem_quoted hg
    · exact inert_of_mem_bare hs hg

theorem quote_ne_nil (s : List Char) : quote s ≠ [] := by
  rw [quote]
  split
  · rename_i hs
    exact hs.1
  · exact List.cons_ne_nil _ _

theorem IsHarmless.notMem {s : List Char} (hs : IsHarmless false s) : '\'' ∉ s := by
  intro hmem
  have hactive : isActive '\'' = false := hs _ hmem
  exact absurd hactive (by decide)

theorem spliceQuotes_append (s t : List Char) :
    spliceQuotes (s ++ t) = spliceQuotes s ++ spliceQuotes t :=
  List.flatMap_append

theorem spliceQuotes_of_notMem {s : List Char} (hs : '\'' ∉ s) : spliceQuotes s = s := by
  rw [spliceQuotes]
  conv_rhs => rw [← List.flatMap_singleton' s]
  refine List.flatMap_congr fun c hc => if_neg ?_
  rintro rfl
  exact hs hc

theorem quote_eq (s : List Char) : quote s = quoteMarks s ++ (spliceQuotes s ++ quoteMarks s) := by
  rw [quote, quoteMarks]
  split
  · rename_i hplain
    have hno : '\'' ∉ s := fun hmem => absurd (List.all_eq_true.mp hplain.2 _ hmem) (by decide)
    rw [spliceQuotes_of_notMem hno, List.append_nil, List.nil_append]
  · rfl

/-- What a path is read as is no number. -/
theorem solid_enclosedWord {s : List Char} (hne : s ≠ []) : (enclosedWord s).Solid := by
  have hquoted : ∀ u : List Char, u ≠ [] →
      ∃ g ∈ u.map Glyph.quoted, ∀ c, g = .bare c → c.isDigit = false := by
    intro u hu
    obtain ⟨c, r, rfl⟩ := List.exists_cons_of_ne_nil hu
    exact ⟨.quoted c, List.mem_cons_self, fun _ h => Glyph.noConfusion h⟩
  intro isDouble
  rw [enclosedWord]
  cases isDouble with
  | true => exact hquoted _ (quote_ne_nil s)
  | false =>
    rw [if_neg Bool.false_ne_true]
    split
    · exact hquoted s hne
    · rename_i hplain
      obtain ⟨c, hc, hcplain⟩ : ∃ c ∈ s, isPlain c = false := by
        simpa using hplain
      refine ⟨.bare c, List.mem_map_of_mem hc, fun d hd => ?_⟩
      obtain rfl := Glyph.bare.inj hd
      rw [isPlain, Char.isAlphanum, Bool.or_eq_false_iff, Bool.or_eq_false_iff] at hcplain
      exact hcplain.1.2

namespace Lexer

variable {x : Lexer} {s : List Char}

/-- A text is read as a literal piece of the word, and nothing else comes of it. -/
def Takes (x : Lexer) (s : List Char) : Prop :=
  ∃ n w, (∀ g ∈ w, g.isInert = true) ∧ x.run s = (x.later n).withWord (x.begun ++ w)

/-- However far a quoted text is read, what is read of it is a literal piece of the word, and the
whole of it leaves the lexer where it was. -/
structure Keeps (x : Lexer) (s : List Char) : Prop where
  part : ∀ t, t ≠ [] → t <+: s → (x.run (quoteMarks s)).Takes (spliceQuotes t)
  whole : x.Takes (quote s)

/-- In a mode, and staying in it, a text adds a value to the word. -/
def Adds (m : Mode) (s : List Char) (value : Word) : Prop :=
  ∀ x : Lexer, x.mode = m → x.operator = [] →
    ∃ n, x.run s = (x.later n).withWord (x.begun ++ value)

namespace Adds

variable {m : Mode} {t : List Char} {v w : Word}

theorem append (hs : Adds m s v) (ht : Adds m t w) : Adds m (s ++ t) (v ++ w) := by
  intro x hm ho
  obtain ⟨n, hn⟩ := hs x hm ho
  obtain ⟨k, hk⟩ := ht ((x.later n).withWord (x.begun ++ v)) hm ho
  refine ⟨n + k, ?_⟩
  rw [run_append, hn, hk, begun_withWord, List.append_assoc, ← later_later]
  rfl

/-- A text adds what its characters add, one after the other. -/
theorem flatMap {f : Char → List Char} {g : Char → Word} (hne : s ≠ [])
    (hs : ∀ c ∈ s, Adds m (f c) (g c)) : Adds m (s.flatMap f) (s.flatMap g) := by
  induction s with
  | nil => exact absurd rfl hne
  | cons c s ih =>
    have hc := hs c List.mem_cons_self
    rw [List.flatMap_cons, List.flatMap_cons]
    by_cases hnil : s = []
    · subst hnil
      rw [List.flatMap_nil, List.flatMap_nil, List.append_nil, List.append_nil]
      exact hc
    · exact hc.append (ih hnil fun d hd => hs d (List.mem_cons_of_mem c hd))

/-- A spliced text adds itself if its characters and the splice do. -/
theorem spliceQuotes (hne : s ≠ []) (hsplice : Adds m splice (splice.map .quoted))
    (hs : ∀ c ∈ s, c ≠ '\'' → Adds m [c] [.quoted c]) :
    Adds m (Shell.spliceQuotes s) ((Shell.spliceQuotes s).map .quoted) := by
  rw [Shell.spliceQuotes, List.map_flatMap]
  refine flatMap hne fun c hc => ?_
  split
  · exact hsplice
  · rename_i hquote
    exact hs c hc hquote

theorem takes (hs : Adds m s v) (hv : ∀ g ∈ v, g.isInert = true) (hm : x.mode = m)
    (ho : x.operator = []) : x.Takes s :=
  let ⟨n, hn⟩ := hs x hm ho
  ⟨n, v, hv, hn⟩

end Adds

/-- A character that adds itself, quoted, also moves the line on if it ends one. -/
theorem add_quoted_line {m : Mode} (hm : x.mode = m) (c : Char) :
    (({ x with line := if c = '\n' then x.line + 1 else x.line } : Lexer).add (.quoted c)).goTo m =
      (x.later (if c = '\n' then 1 else 0)).withWord (x.begun ++ [.quoted c]) := by
  subst hm
  by_cases hc : c = '\n'
  · rw [if_pos hc, if_pos hc]
    rfl
  · rw [if_neg hc, if_neg hc]
    rfl

/-! ### Between double quotes -/

theorem step_double {c : Char} (hm : x.mode = .double) (hc : c ∉ doubleActive) :
    x.step c = (x.later (if c = '\n' then 1 else 0)).withWord (x.begun ++ [.quoted c]) := by
  simp only [doubleActive, List.mem_cons, List.not_mem_nil, or_false, not_or] at hc
  rw [← add_quoted_line hm, step, hm]
  dsimp only
  rw [stepDouble, if_neg fun h => hc.1 h.1, if_neg hc.2.1, if_neg hc.2.2.1, if_neg hc.2.2.2]

theorem adds_double {c : Char} (hc : c ∉ doubleActive) : Adds .double [c] [.quoted c] :=
  fun _ hm _ => ⟨_, step_double hm hc⟩

/-- The quotes and the backslash of a splice are characters like others. -/
theorem adds_splice : Adds .double splice (splice.map .quoted) := by
  intro x hm _
  refine ⟨0, ?_⟩
  obtain ⟨_, _, _, _, _, _, _, _⟩ := x
  dsimp only at hm
  subst hm
  simp [splice, step, stepDouble, stepDoubleEscape, add, goTo, withWord, begun]

theorem adds_spliceQuotes_double (hne : s ≠ []) (hs : IsHarmless true s) :
    Adds .double (spliceQuotes s) ((spliceQuotes s).map .quoted) :=
  .spliceQuotes hne adds_splice fun c hc _ => adds_double (hs c hc)

theorem adds_quote_double (hne : s ≠ []) (hs : IsHarmless true s) :
    Adds .double (quote s) ((quote s).map .quoted) := by
  have hbody := adds_spliceQuotes_double hne hs
  have htick : Adds .double ['\''] [.quoted '\''] := adds_double (by decide)
  rw [quote_eq, quoteMarks]
  split
  · rw [List.nil_append, List.append_nil]
    exact hbody
  · rw [List.map_append, List.map_append]
    exact htick.append (hbody.append htick)

/-- What means something between double quotes leaves them, if only for a character. -/
theorem mode_step_doubleActive {c : Char} (hm : x.mode = .double) (hp : x.place = .line)
    (hc : c ∈ doubleActive) : (x.step c).mode ≠ .double := by
  rw [step, hm]
  dsimp only
  rw [stepDouble]
  simp only [doubleActive, List.mem_cons, List.not_mem_nil, or_false] at hc
  rcases hc with rfl | rfl | rfl | rfl <;> simp [goTo, hp]

/-! ### Between single quotes -/

theorem step_quoted {c : Char} (hm : x.mode = .single) (hc : c ≠ '\'') :
    x.step c = (x.later (if c = '\n' then 1 else 0)).withWord (x.begun ++ [.quoted c]) := by
  rw [← add_quoted_line hm, step, hm]
  dsimp only
  rw [if_neg hc, goTo, ← hm]
  rfl

theorem adds_single {c : Char} (hc : c ≠ '\'') : Adds .single [c] [.quoted c] :=
  fun _ hm _ => ⟨_, step_quoted hm hc⟩

theorem adds_single_of_notMem (hne : s ≠ []) (hs : '\'' ∉ s) : Adds .single s (s.map .quoted) := by
  have hadds := Adds.flatMap (f := fun c => [c]) (g := fun c => [.quoted c]) hne fun c hc =>
    adds_single fun h => hs (h ▸ hc)
  rw [List.flatMap_singleton', ← List.map_eq_flatMap] at hadds
  exact hadds

theorem adds_bare (hne : s ≠ []) (hs : IsHarmless false s) : Adds .bare s (s.map .bare) :=
  spells_letters hne fun c hc => isLetter_of_not_isActive (hs c hc)

theorem operator_stepOperator {c : Char} (ho : x.operator = []) :
    (x.stepOperator c).operator = [c] := by
  rw [stepOperator]
  split
  · rw [ho, List.nil_append]
  · rfl

/-- What means something outside quotes leaves them, ends the word, begins an operator, or stays
bare in the word. -/
theorem run_active {c : Char} (hm : x.mode = .bare) (hp : x.place = .line) (ho : x.operator = [])
    (hc : isActive c = true) :
    (x.run (spliceQuotes [c])).mode ≠ .bare ∨ (x.run (spliceQuotes [c])).operator ≠ [] ∨
      (x.run (spliceQuotes [c])).word = none ∨
      (x.run (spliceQuotes [c])).word = some (x.begun ++ [.bare c]) := by
  by_cases hquote : c = '\''
  · subst hquote
    obtain ⟨_, _, _, _, _, _, _, _⟩ := x
    dsimp only at hm hp ho
    subst hm hp ho
    exact .inl Mode.noConfusion
  have hplace : ∀ p : Prop, ¬ (x.place = .part ∧ p) :=
    fun _ h => absurd (hp.symm.trans h.1) Place.noConfusion
  rw [spliceQuotes_of_notMem (by simpa using Ne.symm hquote), run_cons, run_nil]
  by_cases hletter : isLetter c = true
  · have hdash : ¬ (c = '-' ∧ x.operator = ['<', '<']) := by simp [ho]
    rw [step_letter hm hletter hdash]
    exact .inr (.inr (.inr rfl))
  by_cases hbreak : isBreak c = true
  · exact .inr (.inr (.inl (word_stepBreak hm hp hbreak)))
  rw [step, hm]
  dsimp only
  by_cases hop : isOperatorChar c = true
  · rw [stepBare, if_neg (hplace _), if_pos (.inl hop), operator_stepOperator ho]
    exact .inr (.inl (List.cons_ne_nil c []))
  -- what is left begins an expansion, an escape, a stretch or a comment, or is added
  have hrest : c ∈ ['"', '\\', '$', '`', '#'] := by
    have hall : delimiters.all (fun d => d == '\'' || isBreak d || isOperatorChar d ||
        ['"', '\\', '$', '`', '#'].contains d) = true := by decide
    have hdelimiter : c ∈ delimiters := by simpa [isLetter] using hletter
    simpa [hquote, hbreak, hop] using List.all_eq_true.mp hall c hdelimiter
  rw [stepBare, if_neg (hplace _), endOperator_of_nil ho]
  simp only [List.mem_cons, List.not_mem_nil, or_false] at hrest
  rcases hrest with rfl | rfl | rfl | rfl | rfl
  · exact .inl Mode.noConfusion
  · exact .inl Mode.noConfusion
  · exact .inl Mode.noConfusion
  · exact .inl Mode.noConfusion
  · by_cases hw : x.word = none
    · exact .inl (by simp [isOperatorChar, isGap, ho, hw, goTo])
    · exact .inr (.inr (.inr (by simp [isOperatorChar, isGap, ho, hw, goTo, add])))

/-! ### Stretches -/

/-- The lexer reads a line, between quotes. -/
structure InStretch (isDouble : Bool) (x : Lexer) : Prop where
  mode : x.mode = if isDouble then .double else .single
  operator : x.operator = []
  place : x.place = .line

/-- The mode behind the quotes in front of a text in a stretch. -/
def modeBehind (isDouble : Bool) (s : List Char) : Mode :=
  if isDouble then .double else if s ≠ [] ∧ s.all isPlain then .single else .bare

variable {isDouble : Bool}

theorem InStretch.behind (hx : x.InStretch isDouble) (s : List Char) :
    (x.run (quoteMarks s)).mode = modeBehind isDouble s ∧
      (x.run (quoteMarks s)).operator = [] ∧ (x.run (quoteMarks s)).place = .line := by
  obtain ⟨hm, ho, hp⟩ := hx
  obtain ⟨_, _, _, _, _, _, _, _⟩ := x
  dsimp only at hm ho hp
  subst hm ho hp
  rw [quoteMarks, modeBehind]
  by_cases hplain : s ≠ [] ∧ s.all isPlain
  · simp only [if_pos hplain]
    cases isDouble <;> exact ⟨rfl, rfl, rfl⟩
  · simp only [if_neg hplain]
    cases isDouble <;> exact ⟨rfl, rfl, rfl⟩

theorem exists_adds (hne : s ≠ []) (hs : IsHarmless isDouble s) (t : List Char) :
    ∃ v, (∀ g ∈ v, g.isInert = true) ∧ Adds (modeBehind isDouble t) (spliceQuotes s) v := by
  rw [modeBehind]
  cases isDouble with
  | true => exact ⟨_, fun _ => inert_of_mem_quoted, adds_spliceQuotes_double hne hs⟩
  | false =>
    rw [if_neg Bool.false_ne_true, spliceQuotes_of_notMem hs.notMem]
    split
    · exact ⟨_, fun _ => inert_of_mem_quoted, adds_single_of_notMem hne hs.notMem⟩
    · exact ⟨_, fun _ => inert_of_mem_bare hs, adds_bare hne hs⟩

theorem adds_quote_single (hne : s ≠ []) (hs : IsHarmless false s) :
    Adds .single (quote s) (enclosedWord s false) := by
  intro x hm ho
  rw [enclosedWord, if_neg Bool.false_ne_true, quote_eq, quoteMarks,
    spliceQuotes_of_notMem hs.notMem]
  by_cases hplain : s.all isPlain = true
  · rw [if_pos hplain, if_pos ⟨hne, hplain⟩, List.nil_append, List.append_nil]
    exact adds_single_of_notMem hne hs.notMem x hm ho
  · rw [if_neg hplain, if_neg fun h => hplain h.2, List.singleton_append, run_cons, run_append,
      step_close hm]
    obtain ⟨n, hn⟩ := adds_bare hne hs (x.goTo .bare) rfl ho
    refine ⟨n, ?_⟩
    rw [hn, run_cons, run_nil, step_open rfl]
    obtain ⟨_, _, _, _, _, _, _, _⟩ := x
    dsimp only at hm ho
    subst hm ho
    rfl

/-- **What a quoted text is read as in a stretch**, if it does no harm there. -/
theorem adds_quote_enclosed (hne : s ≠ []) (hs : IsHarmless isDouble s) :
    Adds (if isDouble then .double else .single) (quote s) (enclosedWord s isDouble) := by
  cases isDouble with
  | true => exact adds_quote_double hne hs
  | false => exact adds_quote_single hne hs

/-- A harmless text behind the quotes only adds to the word. -/
theorem InStretch.behind_harmless (hx : x.InStretch isDouble) (s : List Char) {t : List Char}
    (ht : IsHarmless isDouble t) : ∃ v,
      ((x.run (quoteMarks s)).run (spliceQuotes t)).mode = modeBehind isDouble s ∧
      ((x.run (quoteMarks s)).run (spliceQuotes t)).operator = [] ∧
      ((x.run (quoteMarks s)).run (spliceQuotes t)).place = .line ∧
      ((x.run (quoteMarks s)).run (spliceQuotes t)).begun = (x.run (quoteMarks s)).begun ++ v := by
  obtain ⟨hm, ho, hp⟩ := hx.behind s
  by_cases hnil : t = []
  · subst hnil
    exact ⟨[], hm, ho, hp, (List.append_nil _).symm⟩
  · obtain ⟨v, -, hadds⟩ := exists_adds hnil ht s
    obtain ⟨n, hn⟩ := hadds _ hm ho
    rw [hn]
    exact ⟨v, hm, ho, hp, rfl⟩

/-- A character behind a harmless text that does harm is not kept. -/
theorem InStretch.not_takes (hx : x.InStretch isDouble) {t : List Char} {c : Char}
    (hplain : ¬ (s ≠ [] ∧ s.all isPlain)) (ht : IsHarmless isDouble t)
    (hc : ¬ IsHarmless isDouble [c]) :
    ¬ (x.run (quoteMarks s)).Takes (spliceQuotes (t ++ [c])) := by
  obtain ⟨hm, ho, -⟩ := hx.behind s
  obtain ⟨v, hmode, hoperator, hplace, hbegun⟩ := hx.behind_harmless s ht
  generalize x.run (quoteMarks s) = y at hm ho hmode hoperator hplace hbegun
  rintro ⟨n, w, hw, hrun⟩
  rw [spliceQuotes_append, run_append] at hrun
  generalize y.run (spliceQuotes t) = z at hrun hmode hoperator hplace hbegun
  have hends : (z.run (spliceQuotes [c])).mode = y.mode := by rw [hrun, mode_withWord, mode_later]
  cases isDouble with
  | true =>
    have hactive : c ∈ doubleActive := by simpa [IsHarmless] using hc
    have hquote : '\'' ∉ [c] := by
      rw [List.mem_singleton]
      rintro rfl
      exact absurd hactive (by decide)
    rw [spliceQuotes_of_notMem hquote, run_cons, run_nil, hm] at hends
    exact mode_step_doubleActive hmode hplace hactive hends
  | false =>
    rw [modeBehind, if_neg Bool.false_ne_true, if_neg hplain] at hm hmode
    have hactive : isActive c = true := by simpa [IsHarmless] using hc
    rcases run_active hmode hplace hoperator hactive with hleaves | hbegins | hends' | hadds
    · exact hleaves (hends.trans hm)
    · rw [hrun] at hbegins
      exact hbegins ho
    · rw [hrun] at hends'
      exact Option.some_ne_none _ hends'
    · rw [hrun, hbegun, List.append_assoc] at hadds
      have hword : w = v ++ [.bare c] := List.append_cancel_left (Option.some.inj hadds)
      have hinert := hw (.bare c) (by rw [hword]; exact List.mem_concat_self)
      rw [Glyph.isInert, hactive] at hinert
      exact Bool.noConfusion hinert

/-- **The texts that come through a stretch** are those that do no harm there. -/
theorem InStretch.keeps_iff (hx : x.InStretch isDouble) (hne : s ≠ []) :
    x.Keeps s ↔ IsHarmless isDouble s := by
  constructor
  · intro hkeeps
    by_cases hplain : s ≠ [] ∧ s.all isPlain
    · exact isHarmless_of_isPlain (List.all_eq_true.mp hplain.2) isDouble
    -- the first character that does harm would not be kept
    have hpart : ∀ t, t <+: s → IsHarmless isDouble t := by
      intro t
      induction t using List.reverseRecOn with
      | nil => exact fun _ => isHarmless_nil isDouble
      | append_singleton t c ih =>
        intro hts
        have ht := ih ((List.prefix_append t [c]).trans hts)
        have hc : IsHarmless isDouble [c] := by
          by_contra hc
          exact hx.not_takes hplain ht hc (hkeeps.part _ (List.concat_ne_nil c t) hts)
        intro d hd
        rcases List.mem_append.mp hd with hd | hd
        · exact ht d hd
        · exact hc d hd
    exact hpart s List.prefix_rfl
  · intro hs
    constructor
    · intro t hnil hts
      obtain ⟨v, hv, hadds⟩ := exists_adds hnil (fun c hc => hs c (hts.subset hc)) s
      obtain ⟨hm, ho, -⟩ := hx.behind s
      exact hadds.takes hv hm ho
    · exact (adds_quote_enclosed hne hs).takes (fun _ => inert_of_mem_enclosedWord hs) hx.mode
        hx.operator

end Lexer

/-! ### Enclosed templates -/

/-- Reads a part of a template. A hole is a slot of the word that is begun, and its kind is that of
the quotes around it. -/
def Lexer.stepEnclosed (x : Lexer) : Option Char → Lexer
  | some c => x.step c
  | none => x.add (.slot (x.mode = .double))

def readEnclosed (t : Template) : Lexer := t.foldl Lexer.stepEnclosed .start

/-- The tokens of a template, with slots in their words. -/
def enclosedTokens (t : Template) : List Lexed := (readEnclosed t).finish.made.reverse

/-- A hole behind a part of a template stands between quotes, and in no end mark. -/
structure EnclosedAt (before : Template) : Prop where
  quoted : (readEnclosed before).mode = .single ∨ (readEnclosed before).mode = .double
  noMark : (readEnclosed before).announces? = none

/-- Every hole stands between quotes. -/
def IsEnclosed (t : Template) : Prop :=
  ∀ before after, t = before ++ none :: after → EnclosedAt before

/-- A text does no harm in any stretch that has a hole. -/
def Admits (t : Template) (s : List Char) : Prop :=
  ∀ before after, t = before ++ none :: after →
    IsHarmless ((readEnclosed before).mode = .double) s

theorem readEnclosed_append (t : Template) (p : Option Char) :
    readEnclosed (t ++ [p]) = (readEnclosed t).stepEnclosed p := by
  rw [readEnclosed, List.foldl_append, ← readEnclosed, List.foldl_cons, List.foldl_nil]

theorem IsEnclosed.of_append {p q : Template} (h : IsEnclosed (p ++ q)) : IsEnclosed p := by
  rintro before after rfl
  exact h before (after ++ q) (List.append_assoc before _ q)

theorem Admits.of_append {p q : Template} {s : List Char} (h : Admits (p ++ q) s) :
    Admits p s := by
  rintro before after rfl
  exact h before (after ++ q) (List.append_assoc before _ q)

theorem EnclosedAt.inStretch {before : Template} (h : EnclosedAt before) {v : Filling}
    {slots : Prop} {x : Lexer} (hcalm : (readEnclosed before).Calm)
    (hx : (readEnclosed before).Lockstep v slots x) :
    x.InStretch ((readEnclosed before).mode = .double) where
  mode := by
    rw [hx.mode]
    rcases h.quoted with hm | hm <;> rw [hm] <;> rfl
  operator := by
    refine hx.operator.trans (hcalm.operator fun hbare => ?_)
    rcases h.quoted with hm | hm <;> exact absurd (hbare.symm.trans hm) Mode.noConfusion
  place := hx.place.trans hcalm.place

/-- A template with enclosed holes is read in lockstep with the text in which they are filled. -/
theorem IsEnclosed.reached {t : Template} {s : List Char} (ht : IsEnclosed t) (hne : s ≠ [])
    (hs : Admits t s) :
    (readEnclosed t).Calm ∧
      (readEnclosed t).Lockstep (enclosedWord s) True (Lexer.start.run (t.fill (quote s))) := by
  -- from left to right, since where a hole stands depends on what stands in front of it
  induction t using List.reverseRecOn with
  | nil => exact ⟨⟨rfl, fun _ => rfl⟩, .start⟩
  | append_singleton p e ih =>
    obtain ⟨hcalm, hstep⟩ := ih ht.of_append hs.of_append
    rw [readEnclosed_append, Text.Template.fill_append, Lexer.run_append]
    cases e with
    | some c =>
      exact ⟨hcalm.step c, hstep.step fun _ _ => solid_enclosedWord hne⟩
    | none =>
      have hat := ht p [] rfl
      have hx := hat.inStretch hcalm hstep
      obtain ⟨n, hrun⟩ := Lexer.adds_quote_enclosed hne (hs p [] rfl) _ hx.mode hx.operator
      have ho : (readEnclosed p).operator = [] := hstep.operator.symm.trans hx.operator
      rw [Text.Template.fill_hole, Text.Template.fill_nil, List.append_nil, hrun]
      exact ⟨⟨hcalm.place, fun _ => ho⟩, (hstep.addSlot _ ho hat.noMark trivial).atLine _ _⟩

/-- **The texts that come through every stretch of a template** are those it admits. -/
theorem IsEnclosed.keeps_iff {t : Template} {s : List Char} (ht : IsEnclosed t) (hne : s ≠ []) :
    (∀ before after : Template, t = before ++ none :: after →
      (Lexer.start.run (before.fill (quote s))).Keeps s) ↔ Admits t s := by
  have hat : ∀ before after : Template, t = before ++ none :: after → Admits before s →
      (Lexer.start.run (before.fill (quote s))).InStretch
        ((readEnclosed before).mode = .double) := by
    rintro before after rfl hs
    obtain ⟨hcalm, hstep⟩ := ht.of_append.reached hne hs
    exact (ht before after rfl).inStretch hcalm hstep
  constructor
  · intro hkeeps before after hsplit
    -- the holes in front are fewer, and admit the text
    induction hlength : before.length using Nat.strong_induction_on generalizing before after with
    | _ n ih =>
      have hbefore : Admits before s := by
        rintro p q rfl
        refine ih p.length ?_ p (q ++ none :: after) ?_ rfl
        · rw [← hlength, List.length_append, List.length_cons]
          omega
        · rw [hsplit, List.append_assoc, List.cons_append]
      exact ((hat before after hsplit hbefore).keeps_iff hne).mp (hkeeps before after hsplit)
  · rintro hs before after hsplit
    have hbefore : Admits before s := (hsplit ▸ hs).of_append
    exact ((hat before after hsplit hbefore).keeps_iff hne).mpr (hs before after hsplit)

/-- **The tokens of a template with its enclosed holes filled.** -/
theorem tokens_fillEnclosed {t : Template} {s : List Char} (ht : IsEnclosed t) (hne : s ≠ [])
    (hs : Admits t s) :
    (tokens (t.fill (quote s))).map Lexed.token =
      (enclosedTokens t).map fun l => l.token.fillSlots (enclosedWord s) := by
  have hx := (ht.reached hne hs).2
  rw [tokens, enclosedTokens, List.map_reverse, hx.finish.made, List.map_reverse]

/-! ### Deciding whether a template is enclosed -/

instance (before : Template) : Decidable (EnclosedAt before) :=
  decidable_of_iff
    (((readEnclosed before).mode = .single ∨ (readEnclosed before).mode = .double) ∧
      (readEnclosed before).announces? = none)
    ⟨fun ⟨hq, hn⟩ => ⟨hq, hn⟩, fun ⟨hq, hn⟩ => ⟨hq, hn⟩⟩

instance (t : Template) : Decidable (IsEnclosed t) :=
  decidable_of_iff' _ Text.Template.forall_hole_iff

instance (isDouble : Bool) (s : List Char) : Decidable (IsHarmless isDouble s) :=
  List.decidableBAll _ s

instance (t : Template) (s : List Char) : Decidable (Admits t s) :=
  decidable_of_iff' _ Text.Template.forall_hole_iff

/-! ### Paths between quotes -/

def Token.outline : Token → Token
  | .word _ => .word []
  | t => t

theorem Token.outline_fillSlots (v : Filling) (t : Token) :
    (t.fillSlots v).outline = t.outline := by
  cases t <;> rfl

theorem text?_enclosedWord (s : List Char) :
    (enclosedWord s false).text? = some s ∧ (enclosedWord s true).text? = some (quote s) := by
  refine ⟨?_, text?_map (fun _ => rfl) _⟩
  rw [enclosedWord, if_neg Bool.false_ne_true]
  split
  · exact text?_map (fun _ => rfl) s
  · exact text?_map (fun _ => rfl) s

end Shell

open Shell

theorem Command.tokens_render {c : Command} {file : String} (hc : IsEnclosed c.template)
    (hne : file ≠ "") (hfile : Admits c.template file.toList) :
    (tokens (c.render (some file)).toList).map Lexed.token =
      (enclosedTokens c.template).map fun l => l.token.fillSlots (enclosedWord file.toList) := by
  have hne' : file.toList ≠ [] := fun h => hne (String.toList_eq_nil_iff.mp h)
  rw [Command.render_some, tokens_fillEnclosed hc hne' hfile]

theorem Command.outline_render {c : Command} {file : String} (hc : IsEnclosed c.template)
    (hne : file ≠ "") (hfile : Admits c.template file.toList) :
    (tokens (c.render (some file)).toList).map (fun l => l.token.outline) =
      (enclosedTokens c.template).map fun l => l.token.outline := by
  have hmap := congrArg (List.map Token.outline) (c.tokens_render hc hne hfile)
  rw [List.map_map, List.map_map] at hmap
  refine hmap.trans (List.map_congr_left fun l _ => ?_)
  exact Token.outline_fillSlots _ l.token

/-- Wherever the path is put, each part of it adds a literal piece to the word that is begun there
and does nothing else, and the quotes around it are those of the template again. A piece is literal
if no character of it is active, wherever in the word it stands. -/
def Command.KeepsLiteral (c : Command) (file : String) : Prop :=
  ∀ before after : Template, c.template = before ++ none :: after →
    (Lexer.start.run (before.fill (quote file.toList))).Keeps file.toList

/-- **Between quotes a path is literal if none of its characters is active there.** The lexer then
keeps it letter by letter, and with an active character it does not. For a shell that is sufficient
and not necessary: inside a word it takes some active characters as they are, such as a brace or a
tilde. The tokens are those of the template with literal pieces of words in the slots, so they are
of the same kinds as with `a.ts`. A piece is the path between single quotes, and the quoted path
between double ones. -/
theorem enclosed_is_literal (c : Command) (file : String) (hc : IsEnclosed c.template)
    (hne : file ≠ "") :
    (c.KeepsLiteral file ↔ Admits c.template file.toList) ∧
    (c.KeepsLiteral file →
      (tokens (c.render (some file)).toList).map Lexed.token =
        (enclosedTokens c.template).map (fun l => l.token.fillSlots (enclosedWord file.toList)) ∧
      (tokens (c.render (some file)).toList).map (fun l => l.token.outline) =
        (tokens (c.render (some "a.ts")).toList).map (fun l => l.token.outline)) ∧
    (enclosedWord file.toList false).text? = some file.toList ∧
    (enclosedWord file.toList true).text? = some (quote file.toList) := by
  have hkeeps : c.KeepsLiteral file ↔ Admits c.template file.toList :=
    hc.keeps_iff fun h => hne (String.toList_eq_nil_iff.mp h)
  refine ⟨hkeeps, fun h => ?_, text?_enclosedWord _⟩
  have hfile := hkeeps.mp h
  refine ⟨c.tokens_render hc hne hfile, ?_⟩
  have hplain : ∀ d ∈ "a.ts".toList, isPlain d = true := List.all_eq_true.mp (by decide)
  have hadmits : Admits c.template "a.ts".toList := fun _ _ _ => isHarmless_of_isPlain hplain _
  rw [c.outline_render hc hne hfile, c.outline_render hc (by decide) hadmits]

/-- In the template of a check, a path with a letter that quoting is for comes through, and one with
a blank does not. -/
theorem enclosed_is_literal_printf :
    (tokens (Command.render ⟨"printf '  ! no-debugger: \x7bfile\x7d\\n'", 5⟩
        (some "a^b.ts")).toList).map (fun l => l.token.outline) =
      (tokens (Command.render ⟨"printf '  ! no-debugger: \x7bfile\x7d\\n'", 5⟩
        (some "a.ts")).toList).map (fun l => l.token.outline) ∧
    ¬ Command.KeepsLiteral ⟨"printf '  ! no-debugger: \x7bfile\x7d\\n'", 5⟩ "a b.ts" := by
  have hc : IsEnclosed
      (Command.template ⟨"printf '  ! no-debugger: \x7bfile\x7d\\n'", 5⟩) := by decide
  obtain ⟨hkeeps, htokens, -⟩ := enclosed_is_literal _ "a^b.ts" hc (by decide)
  refine ⟨(htokens (hkeeps.mpr (by decide))).2, ?_⟩
  rw [(enclosed_is_literal _ "a b.ts" hc (by decide)).1]
  decide

/-- Some paths do harm: a blank ends the word between single quotes, and between double ones a
command in the path is run. -/
theorem enclosed_is_not_literal :
    (tokens (Command.render ⟨"printf '  ! no-debugger: \x7bfile\x7d\\n'", 5⟩
        (some "a b.ts")).toList).length ≠
      (tokens (Command.render ⟨"printf '  ! no-debugger: \x7bfile\x7d\\n'", 5⟩
        (some "a.ts")).toList).length ∧
    (tokens (Command.render ⟨"echo \"\x7bfile\x7d\"", 5⟩ (some "$(ls).ts")).toList).map
        Lexed.token =
      [.word ("echo".toList.map .bare),
        .word (.quoted '\'' :: .expansion true (.command "ls".toList) ::
          ".ts'".toList.map .quoted),
        .finish none] :=
  ⟨by decide, by decide⟩

end QualityGate
