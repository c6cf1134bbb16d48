/-! # Searching a text

Whether a word occurs in a text, how often it occurs without overlap from left to right, and the text
with every such occurrence replaced. Words are searched in any letter case by folding the text first,
and only ASCII letters fold. Two other characters have an ASCII letter in lower case, the kelvin sign
and the capital `İ`; but no word that is searched this way has a `k` or ends with an `i`. -/

namespace QualityGate.Text

/-- The word occurs somewhere in the text. The empty word occurs in every text. -/
def occursIn (word : List Char) : List Char → Bool
  | [] => word.isEmpty
  | c :: s => word.isPrefixOf (c :: s) || occursIn word s

theorem occursIn_iff {word s : List Char} : occursIn word s = true ↔ word <:+: s := by
  induction s with
  | nil => simp [occursIn]
  | cons c s ih =>
    simp only [occursIn, Bool.or_eq_true, List.isPrefixOf_iff_prefix, ih]
    exact List.infix_cons_iff.symm

/-- The text in which every ASCII letter is lower case. -/
def fold (s : List Char) : List Char :=
  s.map Char.toLower

/-- The occurrences of `word` from left to right, none overlapping the one before; the first `skip`
characters are passed over. -/
def occurrencesFrom (word : List Char) : (skip : Nat) → List Char → Nat
  | _, [] => 0
  | skip + 1, _ :: s => occurrencesFrom word skip s
  | 0, c :: s =>
    if word.isPrefixOf (c :: s) then
      occurrencesFrom word (word.length - 1) s + 1
    else
      occurrencesFrom word 0 s

/-- How often a nonempty word occurs in a text. -/
def occurrences (word s : List Char) : Nat :=
  occurrencesFrom word 0 s

/-- Replaces the occurrences of `word` from left to right; the first `skip` characters are dropped,
being the rest of an occurrence that is already replaced. -/
def substituteFrom (word value : List Char) : (skip : Nat) → List Char → List Char
  | _, [] => []
  | skip + 1, _ :: s => substituteFrom word value skip s
  | 0, c :: s =>
    if word.isPrefixOf (c :: s) then
      value ++ substituteFrom word value (word.length - 1) s
    else
      c :: substituteFrom word value 0 s

/-- The text with every occurrence of a nonempty word replaced by `value`. What `value` brings in is
not searched again. -/
def substitute (word value s : List Char) : List Char :=
  substituteFrom word value 0 s

end QualityGate.Text
