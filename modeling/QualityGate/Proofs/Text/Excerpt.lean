import Mathlib.Data.List.TakeWhile
import QualityGate.Proofs.Text.Utf8
import QualityGate.Text.Line
import QualityGate.Text.Search

/-! # Excerpts of a line

An excerpt of a line is made of its first characters, so no character is cut in two: the bytes of
the line are those of the excerpt and those of what is left (`Text.IsExcerpt`). Trimming a line takes
only blanks away, and there is none in a word, whatever its letter case, that begins without one. So
a line that mentions the word is not trimmed to nothing (`Text.trim_ne_nil_of_mentions`). -/

namespace QualityGate.Text

/-- The text is the start of the line, at most `n` characters of it. Its bytes end where a character
of the line ends. -/
structure IsExcerpt (n : Nat) (l : List Char) (d : String) : Prop where
  toList_eq : d.toList = l.take n
  bytes_eq : Bytes.ofString (String.ofList l) =
    Bytes.ofString d ++ Bytes.ofString (String.ofList (l.drop n))

theorem isExcerpt_take (n : Nat) (l : List Char) : IsExcerpt n l (String.ofList (l.take n)) where
  toList_eq := String.toList_ofList
  bytes_eq := by
    simp only [Bytes.ofString, String.toList_ofList, ← Utf8.encode_append, List.take_append_drop]

def IsFirst (p : List Char → Prop) (ls : List (List Char)) (l : List Char) : Prop :=
  ∃ before after, ls = before ++ l :: after ∧ p l ∧ ∀ k ∈ before, ¬ p k

theorem isFirst_of_find? {p : List Char → Prop} {q : List Char → Bool}
    (hpq : ∀ k, q k = true ↔ p k) {ls : List (List Char)} {l : List Char}
    (h : ls.find? q = some l) : IsFirst p ls l := by
  obtain ⟨hl, before, after, hls, hbefore⟩ := List.find?_eq_some_iff_append.mp h
  refine ⟨before, after, hls, (hpq l).mp hl, fun k hk hp => ?_⟩
  have hnot := hbefore k hk
  rw [(hpq k).mpr hp] at hnot
  exact Bool.false_ne_true hnot

/-! ### Words in any letter case -/

/-- The word stands in the text, in any letter case. -/
def Mentions (word s : List Char) : Prop := ∃ w, w <:+: s ∧ fold w = word

theorem mentions_iff {word s : List Char} : Mentions word s ↔ occursIn word (fold s) = true := by
  rw [occursIn_iff, fold, List.infix_map_iff]
  exact exists_congr fun w => and_congr_right fun _ => eq_comm

/-! ### Trimming -/

theorem mem_dropWhile {p : Char → Bool} {c : Char} {s : List Char} (hc : c ∈ s)
    (hp : p c = false) : c ∈ s.dropWhile p := by
  rw [← List.takeWhile_append_dropWhile (p := p) (l := s), List.mem_append] at hc
  refine hc.resolve_left fun h => ?_
  rw [List.mem_takeWhile_imp h] at hp
  exact Bool.false_ne_true hp.symm

/-- Only blanks are trimmed off. -/
theorem mem_trim {c : Char} {s : List Char} (hc : c ∈ s) (hblank : isBlank c = false) :
    c ∈ trim s := by
  rw [trim, List.mem_reverse]
  refine mem_dropWhile ?_ hblank
  rw [List.mem_reverse]
  exact mem_dropWhile hc hblank

theorem isBlank_eq_false_of_toLower {c d : Char} (hd : isBlank d = false) (h : c.toLower = d) :
    isBlank c = false := by
  by_cases hupper : c.val ≥ 'A'.val ∧ c.val ≤ 'Z'.val
  · have hlow : 65 ≤ c.toNat := hupper.1
    have hhigh : c.toNat ≤ 90 := hupper.2
    simp [isBlank]
    omega
  · have hc : c.toLower = c := dif_neg hupper
    rwa [← hc, h]

/-- A line that mentions a word is not trimmed to nothing. -/
theorem trim_ne_nil_of_mentions {a : Char} {word s : List Char} (ha : isBlank a = false)
    (h : Mentions (a :: word) s) : trim s ≠ [] := by
  obtain ⟨w, hw, hfold⟩ := h
  obtain ⟨c, w, rfl, hc, -⟩ := List.map_eq_cons_iff.mp hfold
  exact List.ne_nil_of_mem (mem_trim (hw.subset List.mem_cons_self)
    (isBlank_eq_false_of_toLower ha hc))

end QualityGate.Text
