import QualityGate.Text.Search

/-! # Patterns

A pattern is a list of parts: fixed words, runs of characters of one class, and characters that may
be there or not. A search ends at the leftmost place where the parts match, and the parts are tried
there one after the other: each takes as much as it can, and gives back what it took only if the
parts behind it do not match (`Text.search?`).

A run never has to give anything back when the parts behind it cannot begin with a character of its
class (`Text.matchAt?_run`). -/

namespace QualityGate.Text

inductive Part where
  | word (w : List Char)
  /-- One or more characters of a class. -/
  | run (p : Char → Bool)
  /-- The character, or nothing. -/
  | maybe (c : Char)

namespace Part

/-- The nonempty runs of a class at the start of a text, the longest one first, each with what it
leaves. -/
def runs (p : Char → Bool) : List Char → List (List Char × List Char)
  | [] => []
  | c :: s => if p c then (runs p s).map (fun r => (c :: r.1, r.2)) ++ [([c], s)] else []

/-- The pieces that a part may take from the start of a text, in the order in which they are tried,
each with what it leaves. -/
def ways : Part → List Char → List (List Char × List Char)
  | word w, s => if w.isPrefixOf s then [(w, s.drop w.length)] else []
  | run p, s => runs p s
  | maybe c, s => (if s.head? = some c then [([c], s.tail)] else []) ++ [([], s)]

end Part

/-- The pieces that the parts take from the start of a text, the first way that leads to the end. -/
def matchAt? : List Part → List Char → Option (List (List Char))
  | [], _ => some []
  | q :: qs, s => (q.ways s).findSome? fun r => (matchAt? qs r.2).map (r.1 :: ·)

/-- The pieces that the parts take at the leftmost place where they match. -/
def search? (qs : List Part) : List Char → Option (List (List Char))
  | [] => matchAt? qs []
  | c :: s => (matchAt? qs (c :: s)).or (search? qs s)

/-- What the first part takes there. -/
def firstPiece? (qs : List Part) (s : List Char) : Option (List Char) :=
  (search? qs s).bind List.head?

variable {qs : List Part}

theorem matchAt?_word (w : List Char) (s : List Char) :
    matchAt? (.word w :: qs) s =
      if w.isPrefixOf s then (matchAt? qs (s.drop w.length)).map (w :: ·) else none := by
  rw [matchAt?, Part.ways]
  split
  · rw [List.findSome?_singleton]
  · rfl

/-- A character that may be missing is no obstacle. -/
theorem matchAt?_maybe (c : Char) (s : List Char) :
    ∃ pieces, matchAt? [.maybe c] s = some pieces := by
  by_cases hc : s.head? = some c
  · exact ⟨[[c]], by simp [matchAt?, Part.ways, hc]⟩
  · exact ⟨[[]], by simp [matchAt?, Part.ways, hc]⟩

variable {p : Char → Bool}

/-- A run takes one character of the class, and then as much as a run takes of the rest. -/
theorem matchAt?_run_cons (c : Char) (s : List Char) :
    matchAt? (.run p :: qs) (c :: s) =
      if p c then
        ((matchAt? (.run p :: qs) s).map (List.modifyHead (c :: ·))).or
          ((matchAt? qs s).map ([c] :: ·))
      else none := by
  rw [matchAt?, Part.ways, Part.runs]
  split
  · rw [List.findSome?_append, List.findSome?_map, List.findSome?_singleton, matchAt?,
      List.map_findSome?]
    congr 2
    funext r
    simp [Option.map_map, Function.comp_def]
  · rfl

/-- **A run takes all that it can,** unless the parts behind it could do with less. -/
theorem matchAt?_run (hqs : ∀ c s, p c = true → matchAt? qs (c :: s) = none) (s : List Char) :
    matchAt? (.run p :: qs) s =
      if s.takeWhile p = [] then none
      else (matchAt? qs (s.dropWhile p)).map (s.takeWhile p :: ·) := by
  induction s with
  | nil => rfl
  | cons c s ih =>
    rw [matchAt?_run_cons]
    by_cases hc : p c = true
    · rw [if_pos hc, List.takeWhile_cons_of_pos hc, List.dropWhile_cons_of_pos hc,
        if_neg (List.cons_ne_nil _ _), ih]
      cases s with
      | nil => rfl
      | cons d s =>
        by_cases hd : p d = true
        · -- the run goes on, and its one character alone would not do
          rw [hqs d s hd, List.takeWhile_cons_of_pos hd, if_neg (List.cons_ne_nil _ _)]
          cases matchAt? qs ((d :: s).dropWhile p) <;> rfl
        · rw [List.takeWhile_cons_of_neg hd, List.dropWhile_cons_of_neg hd, if_pos rfl]
          rfl
    · rw [if_neg hc, List.takeWhile_cons_of_neg hc, if_pos rfl]

/-- A run does not begin with a character of another class. -/
theorem matchAt?_run_of_not {c : Char} (hc : p c = false) (s : List Char) :
    matchAt? (.run p :: qs) (c :: s) = none := by
  rw [matchAt?_run_cons, hc]
  rfl

end QualityGate.Text
