import QualityGate.Proofs.Check.Yield
import QualityGate.Proofs.Completion
import QualityGate.Proofs.Json.Numbers
import QualityGate.Proofs.Text.Count
import QualityGate.Proofs.Text.LowerCase

/-! # Counts in summaries

Two checks report a number that they read off a summary: the lint of the whole project, and the
silent scan for duplicates. `Outcome.tells_leftmost_count` says which number this is, and when one
is reported: it is that of the leftmost count of the noun.

A lint that counts errors is not always reported for it (`Lint.summary_of_count`). The leftmost
count need not be the one in the last line, and an output is taken as clean if `0 errors` occurs
anywhere in it, even as the end of `10 errors`.

Nor is a scan that counts clones (`Duplicates.exactClones_of_count`): the leftmost count decides
alone, and if it has no number, the counts behind it are not looked at. -/

namespace QualityGate

open Text (Begins CountsTo Folds IsCount IsLeftmostCount LowerCase Writes countPattern firstPiece?)

/-! ### Mentions -/

namespace Outcome

variable {o : Outcome} {word : String}

/-- Folding the ASCII letters of an output is as good as putting all of it in lower case. -/
theorem mentions_iff_of_lowerCase {l : List Char} (hl : LowerCase o.output.toList l)
    (hfolds : Folds word.toList) (hword : word.toList ≠ []) :
    o.mentions word = true ↔ word.toList <:+: l := by
  rw [mentions, ← Text.occursIn_lowerCase hl hfolds hword, Text.occursIn_iff]

/-- A word in lower case is mentioned where it occurs as it is. -/
theorem mentions_of_infix (hfold : Text.fold word.toList = word.toList)
    (h : word.toList <:+: o.output.toList) : o.mentions word = true := by
  rw [mentions, Text.occursIn_iff, ← hfold]
  exact h.map Char.toLower

end Outcome

/-! ### Decimals -/

theorem Text.ofDigitChars_dropWhile_zero (digits : List Char) :
    Nat.ofDigitChars 10 (digits.dropWhile (· == '0')) 0 = Nat.ofDigitChars 10 digits 0 := by
  induction digits with
  | nil => rfl
  | cons c digits ih =>
    by_cases hc : c = '0'
    · subst hc
      rw [List.dropWhile_cons_of_pos rfl, ih, Nat.ofDigitChars_cons]
      rfl
    · rw [List.dropWhile_cons_of_neg (by simpa using hc)]

/-- The decimal of the number is what was written, without the zeros in front. -/
theorem Text.Writes.toList_toString {digits : List Char} {n : Nat} (h : Writes digits n) :
    (toString n).toList = digits.dropWhile (· == '0') := by
  have hvalue := (ofDigitChars_dropWhile_zero digits).trans h.value
  have hne : digits.dropWhile (· == '0') ≠ [] := by
    intro hnil
    rw [hnil] at hvalue
    exact absurd h.positive (hvalue ▸ by decide)
  have hdigits : Json.IsDigits (digits.dropWhile (· == '0')) :=
    ⟨hne, fun c hc => h.ascii c ((List.dropWhile_suffix _).subset hc)⟩
  have hhead : (digits.dropWhile (· == '0')).head? ≠ some '0' := by
    intro hzero
    have hstop := List.head?_dropWhile_not (· == '0') digits
    rw [hzero] at hstop
    exact absurd hstop (by decide)
  show (Nat.repr n).toList = _
  rw [Nat.toList_repr, ← hvalue, Json.toDigits_ofDigitChars (.inr ⟨hdigits, hhead⟩)]

/-! ### What is told of a count -/

/-- The findings are the one that tells the number of the leftmost count, if the trigger holds and
this count has a number, and none otherwise. -/
structure TellsCount (findings : List Finding) (trigger : Prop) (noun s : List Char)
    (tell : Nat → Finding) : Prop where
  tells : ∀ f, findings = [f] ↔ trigger ∧ ∃ n, CountsTo noun s n ∧ f = tell n
  silent : findings = [] ↔ ¬ (trigger ∧ ∃ n, CountsTo noun s n)

theorem tellsCount {findings : List Finding} {trigger : Prop} {noun s : List Char}
    {tell : Nat → Finding} (hnoun : Begins noun)
    (hpos : trigger →
      findings = if Text.countOf noun s = 0 then [] else [tell (Text.countOf noun s)])
    (hneg : ¬ trigger → findings = []) : TellsCount findings trigger noun s tell := by
  have hcount (n : Nat) : CountsTo noun s n ↔ n ≠ 0 ∧ Text.countOf noun s = n :=
    Text.countsTo_iff hnoun
  by_cases htrigger : trigger
  · rw [hpos htrigger]
    by_cases hzero : Text.countOf noun s = 0
    · rw [if_pos hzero]
      have hnone : ¬ ∃ n, CountsTo noun s n := by
        rintro ⟨n, hn⟩
        obtain ⟨hne, heq⟩ := (hcount n).mp hn
        exact hne (heq.symm.trans hzero)
      exact ⟨fun f => ⟨fun h => absurd h (by simp), fun ⟨_, n, hn, _⟩ => absurd ⟨n, hn⟩ hnone⟩,
        fun _ h => hnone h.2, fun _ => rfl⟩
    · rw [if_neg hzero]
      have hsome : CountsTo noun s (Text.countOf noun s) := (hcount _).mpr ⟨hzero, rfl⟩
      refine ⟨fun f => ⟨fun h => ?_, fun ⟨_, n, hn, hf⟩ => ?_⟩, fun h => ?_, fun h => ?_⟩
      · exact ⟨htrigger, _, hsome, (List.cons.inj h).1.symm⟩
      · rw [hf, ((hcount n).mp hn).2]
      · exact absurd h (by simp)
      · exact absurd ⟨htrigger, _, hsome⟩ h
  · rw [hneg htrigger]
    exact ⟨fun f => ⟨fun h => absurd h (by simp), fun h => absurd h.1 htrigger⟩,
      fun _ h => htrigger h.1, fun _ => rfl⟩

theorem begins_error : Begins "error".toList := ⟨'e', _, rfl, by decide⟩

theorem begins_exactClones : Begins "exact clones".toList := ⟨'e', _, rfl, by decide⟩

theorem Lint.summary_tellsCount (o : Outcome) :
    TellsCount (summary o) (o.mentions "error" = true ∧ ¬ o.mentions "0 errors" = true)
      "error".toList o.output.toList fun n => .error .lint s!"Lint: {n} error(s)" :=
  tellsCount begins_error (fun h => if_pos h) fun h => if_neg h

theorem Duplicates.exactClones_tellsCount (o : Outcome) :
    TellsCount (exactClones o) (o.mentions "duplicated lines" = true)
      "exact clones".toList o.output.toList
      fun n => .error .duplicates s!"Duplicates: {n} clones found" :=
  tellsCount begins_exactClones (fun h => if_pos h) fun h => if_neg h

/-- **A summary is told by the number of its leftmost count.** The run of digits is the one that a
search for digits, blanks and the noun takes first, and it is told without the zeros in front. It is
told if the words that trigger it are in the output, in any letter case, and if it is a positive
number of ASCII digits that fits 64 bits. -/
theorem Outcome.tells_leftmost_count (o : Outcome) {l : List Char}
    (hl : LowerCase o.output.toList l) :
    TellsCount (Lint.summary o) ("error".toList <:+: l ∧ ¬ "0 errors".toList <:+: l)
      "error".toList o.output.toList (fun n => .error .lint s!"Lint: {n} error(s)") ∧
    TellsCount (Duplicates.exactClones o) ("duplicated lines".toList <:+: l)
      "exact clones".toList o.output.toList
      (fun n => .error .duplicates s!"Duplicates: {n} clones found") ∧
    (∀ digits n, Writes digits n → (toString n).toList = digits.dropWhile (· == '0')) ∧
    (∀ digits,
      firstPiece? (countPattern "error".toList [.maybe 's']) o.output.toList = some digits ↔
        ∃ before after,
          IsLeftmostCount "error".toList o.output.toList before digits after) ∧
    ∀ digits,
      firstPiece? (countPattern "exact clones".toList []) o.output.toList = some digits ↔
        ∃ before after,
          IsLeftmostCount "exact clones".toList o.output.toList before digits after := by
  have herror : o.mentions "error" = true ↔ "error".toList <:+: l :=
    mentions_iff_of_lowerCase hl (by decide) (by decide)
  have hzero : o.mentions "0 errors" = true ↔ "0 errors".toList <:+: l :=
    mentions_iff_of_lowerCase hl (by decide) (by decide)
  have hlines : o.mentions "duplicated lines" = true ↔ "duplicated lines".toList <:+: l :=
    mentions_iff_of_lowerCase hl (by decide) (by decide)
  rw [← herror, ← hzero, ← hlines]
  exact ⟨Lint.summary_tellsCount o, Duplicates.exactClones_tellsCount o,
    fun _ _ => Writes.toList_toString,
    Text.firstPiece?_countPattern_iff begins_error (Text.matchAt?_maybe 's') o.output.toList,
    Text.firstPiece?_countPattern_iff begins_exactClones (fun _ => ⟨[], rfl⟩) o.output.toList⟩

theorem Outcome.tells_leftmost_count_errors :
    LowerCase "04 errors".toList "04 errors".toList ∧
      CountsTo "error".toList "04 errors".toList 4 ∧
      Lint.summary ⟨false, "04 errors"⟩ = [.error .lint "Lint: 4 error(s)"] := by
  have hl : LowerCase "04 errors".toList "04 errors".toList :=
    Text.lowerCase_fold "04 errors".toList
  have hcount : CountsTo "error".toList "04 errors".toList 4 :=
    (Text.countsTo_iff begins_error).mpr ⟨by decide, by decide⟩
  have herror : "error".toList <:+: "04 errors".toList := Text.occursIn_iff.mp (by decide)
  have hzero : ¬ "0 errors".toList <:+: "04 errors".toList := by
    rw [← Text.occursIn_iff]
    decide
  exact ⟨hl, hcount, ((tells_leftmost_count ⟨false, "04 errors"⟩ hl).1.tells _).mpr
    ⟨⟨herror, hzero⟩, 4, hcount, rfl⟩⟩

/-- A number that does not fit is not told, nor is one that is not written in ASCII. -/
example : Lint.summary ⟨false, "18446744073709551616 errors"⟩ = [] := by decide +kernel

example : Lint.summary ⟨false, "\u0663 errors, 5 errors"⟩ = [] := by decide +kernel

/-! ### Errors that are counted -/

namespace Lint

/-- No `0 errors` makes the output a clean one, and the leftmost count of errors has a number. -/
def Tells (o : Outcome) : Prop :=
  ¬ o.mentions "0 errors" = true ∧ ∃ n, CountsTo "error".toList o.output.toList n

variable {o : Outcome} {before digits after : List Char}

theorem mentions_of_isCount (h : IsCount "error".toList o.output.toList before digits after) :
    o.mentions "error" = true := by
  obtain ⟨gap, rest, -, -, hafter⟩ := h.ahead
  refine Outcome.mentions_of_infix (by decide) ⟨before ++ digits ++ gap, rest, ?_⟩
  rw [h.text, hafter]
  simp only [List.append_assoc]

/-- A count that ends with a zero reads as no errors. -/
theorem mentions_zero_of_isCount
    (h : IsCount "error".toList o.output.toList before digits after)
    (hzero : digits.getLast? = some '0') (hafter : " errors".toList <+: after) :
    o.mentions "0 errors" = true := by
  obtain ⟨ds, rfl⟩ := List.getLast?_eq_some_iff.mp hzero
  obtain ⟨rest, rfl⟩ := hafter
  refine Outcome.mentions_of_infix (by decide) ⟨before ++ ds, rest, ?_⟩
  rw [h.text]
  simp

/-- **A lint that counts errors is told exactly if no `0 errors` is mentioned and the leftmost count
has a number.** Then the verdict at the end of the session blocks. So a count is told if it is the
leftmost one and no `0 errors` is mentioned; but a count that ends with a zero is itself such a
mention, if one space and `errors` follow. -/
theorem summary_of_count {n : Nat}
    (hcount : IsCount "error".toList o.output.toList before digits after) (hn : Writes digits n) :
    ((∃ f, summary o = [f] ∧ f.category = .lint ∧ f.severity = .error) ↔ Tells o) ∧
    (¬ Tells o → summary o = []) ∧
    (∀ {σ : Type} (x : Session σ) (s : σ), (x.answers s).lint = o → Tells o →
      (x.complete s).verdict.isBlocking = true) ∧
    ((∀ b d a, IsCount "error".toList o.output.toList b d a → before.length ≤ b.length) →
      ¬ o.mentions "0 errors" = true → summary o = [.error .lint s!"Lint: {n} error(s)"]) ∧
    ∀ b d a, IsCount "error".toList o.output.toList b d a → d.getLast? = some '0' →
      " errors".toList <+: a → summary o = [] := by
  have herror := mentions_of_isCount hcount
  obtain ⟨htells, hsilent⟩ := summary_tellsCount o
  have hquiet : ¬ Tells o → summary o = [] := fun h => hsilent.mpr fun h' => h ⟨h'.1.2, h'.2⟩
  have htold : Tells o → ∃ n : Nat, summary o = [.error .lint s!"Lint: {n} error(s)"] := by
    rintro ⟨hzero, n, hn⟩
    exact ⟨n, (htells _).mpr ⟨⟨herror, hzero⟩, n, hn, rfl⟩⟩
  refine ⟨⟨?_, fun h => ?_⟩, hquiet, fun x s hx h => ?_, fun hleft hzero => ?_, ?_⟩
  · rintro ⟨f, hf, -, -⟩
    by_contra h
    rw [hquiet h] at hf
    exact absurd hf (by simp)
  · obtain ⟨n, hsummary⟩ := htold h
    exact ⟨_, hsummary, rfl, rfl⟩
  · obtain ⟨n, hsummary⟩ := htold h
    rw [Trace.verdict, x.complete_findings, hx, hsummary]
    rfl
  · exact (htells _).mpr ⟨⟨herror, hzero⟩, n, ⟨before, digits, after, ⟨hcount, hleft⟩, hn⟩, rfl⟩
  · intro b d a h hlast hafter
    exact hquiet fun ht => ht.1 (mentions_zero_of_isCount h hlast hafter)

/-- Ten errors are taken for none. -/
theorem summary_of_count_ten :
    IsCount "error".toList "10 errors".toList [] "10".toList " errors".toList ∧
      Writes "10".toList 10 ∧ summary ⟨false, "10 errors"⟩ = [] := by
  have hcount : IsCount "error".toList "10 errors".toList [] "10".toList " errors".toList :=
    ⟨by decide, by decide, List.all_eq_true.mp (by decide), fun _ h => absurd h (by simp),
      [' '], ['s'], by decide, List.all_eq_true.mp (by decide), by decide⟩
  have hn : Writes "10".toList 10 := by decide
  exact ⟨hcount, hn, (summary_of_count (o := ⟨false, "10 errors"⟩) hcount hn).2.2.2.2 _ _ _ hcount
    (by decide) (List.prefix_refl _)⟩

/-- The place of a diagnostic can be read as a count, and then the last line is not looked at. -/
theorem summary_misses :
    ¬ ∀ (o : Outcome) (before digits after : List Char) (n : Nat),
      IsCount "error".toList o.output.toList before digits after → Writes digits n →
        ∃ f, summary o = [f] ∧ f.category = .lint ∧ f.severity = .error := by
  intro h
  let o : Outcome := ⟨false, "  0:0  error  Parsing error\n\n5 errors"⟩
  have hlast : "  0:0  error  Parsing error\n\n".toList.getLast? = some '\n' := by decide
  have hcount : IsCount "error".toList o.output.toList "  0:0  error  Parsing error\n\n".toList
      "5".toList " errors".toList := by
    refine ⟨by decide, by decide, List.all_eq_true.mp (by decide), fun c hc => ?_,
      [' '], ['s'], by decide, List.all_eq_true.mp (by decide), by decide⟩
    rw [hlast] at hc
    rw [← Option.some.inj hc]
    decide
  obtain ⟨f, hf, -, -⟩ := h o _ _ _ 5 hcount (by decide)
  have hnone : summary o = [] := by decide
  rw [hnone] at hf
  exact absurd hf (by simp)

end Lint

/-! ### Clones that are counted -/

theorem Text.not_writes_iff {digits : List Char} :
    (¬ ∃ n, Writes digits n) ↔ (∃ c ∈ digits, c.isDigit = false) ∨
      Nat.ofDigitChars 10 digits 0 = 0 ∨ Nat.pow 2 64 ≤ Nat.ofDigitChars 10 digits 0 := by
  constructor
  · intro h
    by_contra hread
    rw [not_or, not_or] at hread
    obtain ⟨hascii, hzero, hlarge⟩ := hread
    refine h ⟨_, fun c hc => ?_, rfl, by omega, Nat.lt_of_not_le hlarge⟩
    by_contra hdigit
    exact hascii ⟨c, hc, Bool.eq_false_iff.mpr hdigit⟩
  · rintro h ⟨n, hn⟩
    rcases h with ⟨c, hc, hdigit⟩ | hzero | hlarge
    · exact Bool.false_ne_true (hdigit.symm.trans (hn.ascii c hc))
    · have hpos := hn.positive
      rw [← hn.value, hzero] at hpos
      exact Nat.not_succ_le_zero 0 hpos
    · rw [hn.value] at hlarge
      exact Nat.not_lt_of_le hlarge hn.fits

/-- Where something is counted, there is a leftmost count. -/
theorem Text.IsCount.exists_leftmost {noun s before digits after : List Char}
    (h : IsCount noun s before digits after) : ∃ b d a, IsLeftmostCount noun s b d a := by
  classical
  have hlength : ∃ n b d a, IsCount noun s b d a ∧ b.length = n := ⟨_, _, _, _, h, rfl⟩
  obtain ⟨b, d, a, hcount, hb⟩ := Nat.find_spec hlength
  refine ⟨b, d, a, hcount, fun b' d' a' h' => ?_⟩
  rw [hb]
  exact Nat.find_min' hlength ⟨b', d', a', h', rfl⟩

/-- Of the findings at the end of a session only those of the scan are about duplicates. -/
theorem Session.mem_duplicates_iff {σ : Type} (x : Session σ) (s : σ) (f : Finding) :
    f ∈ (x.complete s).findings ∧ f.category = .duplicates ↔
      f ∈ Duplicates.exactClones (x.answers s).clones := by
  rw [x.complete_findings, List.mem_append, List.mem_append]
  constructor
  · rintro ⟨hf | hf | hf, hcategory⟩
    · rw [(Lint.allows_summary _).category_eq f hf] at hcategory
      exact absurd hcategory (by decide)
    · rw [(Types.allows_errors _ _).category_eq f hf] at hcategory
      exact absurd hcategory (by decide)
    · exact hf
  · exact fun hf => ⟨.inr (.inr hf), (Duplicates.allows_exactClones _).category_eq f hf⟩

namespace Duplicates

/-- The one finding about the clones of a scan. -/
def tell (n : Nat) : Finding := .error .duplicates s!"Duplicates: {n} clones found"

variable {o : Outcome} {l before digits after : List Char}

/-- **A scan that counts clones is told exactly if its leftmost count has a number,** and then by
this number; the verdict at the end of the session blocks. If the leftmost count is zero, too large
or not written in ASCII, nothing is told, whatever is counted behind it, and no finding of the
verdict is about duplicates. -/
theorem exactClones_of_count (hl : LowerCase o.output.toList l)
    (htrigger : "duplicated lines".toList <:+: l)
    (hcount : IsCount "exact clones".toList o.output.toList before digits after) :
    ∃ b d a, IsLeftmostCount "exact clones".toList o.output.toList b d a ∧
      ((∃ f, exactClones o = [f] ∧ f.category = .duplicates ∧ f.severity = .error) ↔
        ∃ m, Writes d m) ∧
      (∀ m, Writes d m → exactClones o = [tell m] ∧
        ∀ {σ : Type} (x : Session σ) (s : σ), (x.answers s).clones = o →
          tell m ∈ (x.complete s).findings ∧ (x.complete s).verdict.isBlocking = true) ∧
      ((∃ c ∈ d, c.isDigit = false) ∨ Nat.ofDigitChars 10 d 0 = 0 ∨
          Nat.pow 2 64 ≤ Nat.ofDigitChars 10 d 0 →
        exactClones o = [] ∧
        ∀ {σ : Type} (x : Session σ) (s : σ), (x.answers s).clones = o →
          ∀ f ∈ (x.complete s).findings, f.category ≠ .duplicates) := by
  have hmentions : o.mentions "duplicated lines" = true :=
    (Outcome.mentions_iff_of_lowerCase hl (by decide) (by decide)).mpr htrigger
  obtain ⟨htells, hsilent⟩ := exactClones_tellsCount o
  obtain ⟨b, d, a, hleft⟩ := hcount.exists_leftmost
  have htold : ∀ m, Writes d m → exactClones o = [tell m] := fun m hm =>
    (htells _).mpr ⟨hmentions, m, ⟨b, d, a, hleft, hm⟩, rfl⟩
  have hquiet : (¬ ∃ m, Writes d m) → exactClones o = [] := by
    refine fun h => hsilent.mpr ?_
    rintro ⟨-, m, b', d', a', hleft', hm⟩
    -- there is one leftmost count only
    have hd := (Text.leftmostCount?_eq_some_iff begins_exactClones).mpr ⟨b, a, hleft⟩
    have hd' := (Text.leftmostCount?_eq_some_iff begins_exactClones).mpr ⟨b', a', hleft'⟩
    rw [hd, Option.some.injEq] at hd'
    exact h ⟨m, hd' ▸ hm⟩
  refine ⟨b, d, a, hleft, ⟨?_, ?_⟩, fun m hm => ⟨htold m hm, fun x s hx => ?_⟩, fun h => ?_⟩
  · rintro ⟨f, hf, -, -⟩
    by_contra h
    rw [hquiet h] at hf
    exact absurd hf (by simp)
  · rintro ⟨m, hm⟩
    exact ⟨tell m, htold m hm, rfl, rfl⟩
  · have hmem : tell m ∈ (x.complete s).findings := by
      refine ((x.mem_duplicates_iff s _).mpr ?_).1
      rw [hx, htold m hm]
      exact List.mem_singleton_self _
    exact ⟨hmem, List.any_eq_true.mpr ⟨tell m, hmem, rfl⟩⟩
  · have hnone := hquiet (Text.not_writes_iff.mpr h)
    refine ⟨hnone, fun x s hx f hf hcategory => ?_⟩
    have hmem := (x.mem_duplicates_iff s f).mp ⟨hf, hcategory⟩
    rw [hx, hnone] at hmem
    exact absurd hmem List.not_mem_nil

/-- Two scans in one output, the first of them clean. -/
def twoScans : Outcome :=
  ⟨true, "0 exact clones, 0 duplicated lines\n2 exact clones, 20 duplicated lines\n"⟩

theorem isCount_twoScans :
    IsCount "exact clones".toList twoScans.output.toList
      "0 exact clones, 0 duplicated lines\n".toList "2".toList
      " exact clones, 20 duplicated lines\n".toList := by
  have hlast : "0 exact clones, 0 duplicated lines\n".toList.getLast? = some '\n' := by decide
  refine ⟨by decide, by decide, List.all_eq_true.mp (by decide), fun c hc => ?_,
    [' '], ", 20 duplicated lines\n".toList, by decide, List.all_eq_true.mp (by decide), by decide⟩
  rw [hlast] at hc
  rw [← Option.some.inj hc]
  decide

theorem exactClones_of_count_behind_zero :
    "duplicated lines".toList <:+: Text.fold twoScans.output.toList ∧
      IsCount "exact clones".toList twoScans.output.toList
        "0 exact clones, 0 duplicated lines\n".toList "2".toList
        " exact clones, 20 duplicated lines\n".toList ∧
      Writes "2".toList 2 ∧ exactClones twoScans = [] := by
  have htrigger : "duplicated lines".toList <:+: Text.fold twoScans.output.toList :=
    Text.occursIn_iff.mp (by decide)
  obtain ⟨b, d, a, hleft, -, -, hsilent⟩ := exactClones_of_count (Text.lowerCase_fold _) htrigger
    isCount_twoScans
  have hd := (Text.leftmostCount?_eq_some_iff begins_exactClones).mpr ⟨b, a, hleft⟩
  have hzero : some d = some "0".toList := hd.symm.trans (by decide)
  have hvalue : Nat.ofDigitChars 10 d 0 = 0 := by
    rw [Option.some.inj hzero]
    decide
  exact ⟨htrigger, isCount_twoScans, by decide, (hsilent (.inr (.inl hvalue))).1⟩

/-- Clones that are counted behind a zero are missed. -/
theorem exactClones_misses :
    ¬ ∀ (o : Outcome) (l before digits after : List Char) (n : Nat),
      LowerCase o.output.toList l → "duplicated lines".toList <:+: l →
      IsCount "exact clones".toList o.output.toList before digits after → Writes digits n →
        ∃ f, exactClones o = [f] ∧ f.category = .duplicates ∧ f.severity = .error := by
  intro h
  obtain ⟨f, hf, -, -⟩ := h twoScans _ _ _ _ 2 (Text.lowerCase_fold _)
    (Text.occursIn_iff.mp (by decide)) isCount_twoScans (by decide)
  have hnone : exactClones twoScans = [] := by decide +kernel
  rw [hnone] at hf
  exact absurd hf (by simp)

end Duplicates

end QualityGate
