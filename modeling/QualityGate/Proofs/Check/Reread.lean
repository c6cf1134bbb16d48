import QualityGate.Proofs.Check.Counts
import QualityGate.Proofs.Text.LineEnding

/-! # A summary that is read again

What the lint of a project reports has the form of a summary, and may become a part of another
output. `Lint.summary_reread` says that nothing is lost or added then: read again, the message gives
the finding that it belongs to.

Two readers have to agree with what is written. The scan for a count starts in front of the digits,
as `Lint: ` has none, and it finds the noun in `error(s)`. The test for a clean run does not hold,
even if the number ends with a zero: it looks for `0 errors`, and an opening bracket stands where
the `s` would be. -/

namespace QualityGate

open Text (CountsTo Writes)

/-! ### Numbers in front of a noun -/

namespace Text

variable {noun before : List Char}

/-- The scan for a count passes over what has no digit. -/
theorem leftmostCount?_append (h : ∀ c ∈ before, isDecimalDigit c = false) (s : List Char) :
    leftmostCount? noun (before ++ s) = leftmostCount? noun s := by
  induction before with
  | nil => rfl
  | cons c before ih =>
    have hhere : countAt? noun (c :: (before ++ s)) = none :=
      countAt?_cons_of_not_digit (h c List.mem_cons_self) _
    rw [List.cons_append, leftmostCount?, hhere]
    exact ih fun d hd => h d (List.mem_cons_of_mem c hd)

theorem toString_ne_nil (n : Nat) : (toString n).toList ≠ [] := by
  rw [Nat.toString_eq_repr, Nat.toList_repr]
  exact Nat.toDigits_ne_nil

/-- A positive number that fits is written by its decimal. -/
theorem writes_toString {n : Nat} (hpos : 1 ≤ n) (hfits : n < Nat.pow 2 64) :
    Writes (toString n).toList n where
  ascii _ hc := isDigit_of_mem_toString hc
  value := by
    rw [Nat.toString_eq_repr, Nat.toList_repr]
    exact Nat.ofDigitChars_ten_toDigits
  positive := hpos
  fits := hfits

end Text

/-! ### The message of a summary -/

namespace Lint

def tell (n : Nat) : Finding := .error .lint s!"Lint: {n} error(s)"

theorem toList_message_tell (n : Nat) :
    (tell n).message.toList = "Lint: ".toList ++ ((toString n).toList ++ " error(s)".toList) := by
  show (("Lint: " ++ toString n) ++ " error(s)").toList = _
  rw [String.toList_append, String.toList_append, List.append_assoc]

/-- The message counts as many errors as it tells. -/
theorem countsTo_message_tell {n : Nat} (hpos : 1 ≤ n) (hfits : n < Nat.pow 2 64) :
    CountsTo "error".toList (tell n).message.toList n := by
  have hwrites := Text.writes_toString hpos hfits
  have hdigits : ∀ c ∈ (toString n).toList, Text.isDecimalDigit c = true := fun c hc =>
    Text.isDecimalDigit_of_isDigit (hwrites.ascii c hc)
  have hahead : Text.NounAhead "error".toList " error(s)".toList := by
    refine ⟨[' '], "(s)".toList, List.cons_ne_nil _ _, ?_, rfl⟩
    intro c hc
    rw [List.mem_singleton.mp hc]
    decide
  have hcount : Text.countAt? "error".toList ((toString n).toList ++ " error(s)".toList) =
      some (toString n).toList :=
    (Text.countAt?_eq_some_iff begins_error).mpr
      ⟨Text.toString_ne_nil n, hdigits, _, rfl, hahead⟩
  have hscan : Text.leftmostCount? "error".toList (tell n).message.toList =
      some (toString n).toList := by
    have hlabel : ∀ c ∈ "Lint: ".toList, Text.isDecimalDigit c = false :=
      List.forall_iff_forall_mem.mp (by decide)
    rw [toList_message_tell, Text.leftmostCount?_append hlabel]
    cases h : (toString n).toList with
    | nil => exact absurd h (Text.toString_ne_nil n)
    | cons c digits =>
      rw [h] at hcount
      rw [List.cons_append] at hcount ⊢
      rw [Text.leftmostCount?, hcount]
  have hvalue : Text.wordValue? (toString n).toList = some n :=
    Text.wordValue?_eq_some_iff.mpr
      ⟨Text.toString_ne_nil n, hwrites.ascii, hwrites.value, hfits⟩
  apply (Text.countsTo_iff begins_error).mpr
  refine ⟨by omega, ?_⟩
  rw [Text.countOf, hscan, Option.bind_some, hvalue, Option.getD_some]

theorem fold_toString (n : Nat) : Text.fold (toString n).toList = (toString n).toList := by
  refine (List.map_congr_left fun c hc => ?_).trans (List.map_id _)
  have hdigit := Text.isDigit_of_mem_toString hc
  rw [Char.isDigit, Bool.and_eq_true, decide_eq_true_eq, decide_eq_true_eq] at hdigit
  have hle : c.toNat ≤ 57 := hdigit.2
  refine dif_neg fun h => ?_
  have hge : 65 ≤ c.toNat := h.1
  omega

/-- The message never reads as a clean run, whichever digit the number ends with. -/
theorem not_mentions_zero_of_tell (succeeded : Bool) (n : Nat) :
    ¬ (Outcome.mk succeeded (tell n).message).mentions "0 errors" = true := by
  have hfold : Text.fold (tell n).message.toList =
      ("lint: ".toList ++ ((toString n).toList ++ " error".toList)) ++ '(' :: "s)".toList := by
    rw [toList_message_tell, Text.fold, List.map_append, List.map_append, ← Text.fold,
      ← Text.fold, fold_toString]
    simp [Text.fold]
  rw [Outcome.mentions, Text.occursIn_iff, hfold, Text.infix_append_cons_iff (by decide)]
  rintro (h | h)
  · -- the word has an `s`, and there is none in front of the bracket
    have hmem := h.subset (show 's' ∈ "0 errors".toList by decide)
    rcases List.mem_append.mp hmem with hmem | hmem
    · exact absurd hmem (by decide)
    · rcases List.mem_append.mp hmem with hmem | hmem
      · exact absurd (Text.isDigit_of_mem_toString hmem) (by decide)
      · exact absurd hmem (by decide)
  · exact absurd h.length_le (by decide)

theorem mentions_error_of_tell (succeeded : Bool) (n : Nat) :
    (Outcome.mk succeeded (tell n).message).mentions "error" = true := by
  apply Outcome.mentions_of_infix (by decide)
  refine ⟨"Lint: ".toList ++ ((toString n).toList ++ [' ']), "(s)".toList, ?_⟩
  rw [toList_message_tell]
  simp

/-- A summary that reads as a positive number of errors is told by it. -/
theorem summary_message_tell {n : Nat} (hpos : 1 ≤ n) (hfits : n < Nat.pow 2 64)
    (succeeded : Bool) : summary ⟨succeeded, (tell n).message⟩ = [tell n] :=
  ((summary_tellsCount _).tells _).mpr
    ⟨⟨mentions_error_of_tell succeeded n, not_mentions_zero_of_tell succeeded n⟩, n,
      countsTo_message_tell hpos hfits, rfl⟩

/-- A finding of a summary tells the number of a count in it. -/
theorem exists_tell_of_mem_summary {o : Outcome} {f : Finding} (hf : f ∈ summary o) :
    ∃ n, CountsTo "error".toList o.output.toList n ∧ summary o = [tell n] ∧ f = tell n := by
  obtain ⟨htells, hsilent⟩ := summary_tellsCount o
  by_cases h : (o.mentions "error" = true ∧ ¬ o.mentions "0 errors" = true) ∧
      ∃ n, CountsTo "error".toList o.output.toList n
  · obtain ⟨htrigger, n, hn⟩ := h
    have hsummary : summary o = [tell n] := (htells (tell n)).mpr ⟨htrigger, n, hn, rfl⟩
    rw [hsummary] at hf
    exact ⟨n, hn, hsummary, List.mem_singleton.mp hf⟩
  · rw [hsilent.mpr h] at hf
    exact absurd hf List.not_mem_nil

/-- **A summary is stable when it is read again.** Whatever output the finding was read off, its
message is one in which the same number is the leftmost count, so that the message is read as this
finding and nothing else, and so on for every reading that follows. Each number that a count can
have is told in this way. -/
theorem summary_reread :
    (∀ (o : Outcome) (f : Finding), f ∈ summary o → ∃ n, 1 ≤ n ∧ n < Nat.pow 2 64 ∧
      f = .error .lint s!"Lint: {n} error(s)" ∧
      CountsTo "error".toList o.output.toList n ∧ CountsTo "error".toList f.message.toList n ∧
      ∀ succeeded, summary ⟨succeeded, f.message⟩ = [f]) ∧
    ∀ n, 1 ≤ n → n < Nat.pow 2 64 → ∀ succeeded,
      summary ⟨succeeded, s!"Lint: {n} error(s)"⟩ = [.error .lint s!"Lint: {n} error(s)"] := by
  constructor
  · intro o f hf
    obtain ⟨n, hcount, -, rfl⟩ := exists_tell_of_mem_summary hf
    have hcount' := hcount
    obtain ⟨_, _, _, -, hwrites⟩ := hcount'
    exact ⟨n, hwrites.positive, hwrites.fits, rfl, hcount,
      countsTo_message_tell hwrites.positive hwrites.fits,
      summary_message_tell hwrites.positive hwrites.fits⟩
  · intro n hpos hfits succeeded
    exact summary_message_tell hpos hfits succeeded

/-- Ten errors are read again as ten, though `10 errors` would be read as none. -/
theorem summary_reread_ten :
    Finding.error .lint "Lint: 10 error(s)" ∈ summary ⟨true, "010 error, 0 warnings"⟩ ∧
      (∀ succeeded, summary ⟨succeeded, "Lint: 10 error(s)"⟩ =
        [.error .lint "Lint: 10 error(s)"]) ∧
      summary ⟨false, "Lint: 18446744073709551610 error(s)"⟩ =
        [.error .lint "Lint: 18446744073709551610 error(s)"] := by
  have hmem : Finding.error .lint "Lint: 10 error(s)" ∈
      summary ⟨true, "010 error, 0 warnings"⟩ := by decide
  obtain ⟨hagain, hevery⟩ := summary_reread
  obtain ⟨n, -, -, -, -, -, hstable⟩ := hagain _ _ hmem
  exact ⟨hmem, hstable, hevery 18446744073709551610 (by decide) (by decide) false⟩

end Lint

end QualityGate
