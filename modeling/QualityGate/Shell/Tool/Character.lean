import QualityGate.Shell.Format
import QualityGate.Shell.Pattern
import QualityGate.Shell.Tool

/-! # Replacing characters

A set of characters is written with ranges, named classes and escapes. -/

namespace QualityGate.Shell.Tool

def bytesBetween (low high : UInt8) : Bytes :=
  (List.range 256).map UInt8.ofNat |>.filter fun b => low ≤ b && b ≤ high

/-- The bytes that a set of characters lists. -/
def listed : (fuel : Nat) → Bytes → Bytes
  | 0, _ | _, [] => []
  | fuel + 1, b :: s =>
    match b, s with
    | 91, 58 :: t =>
      let name := Bytes.toStringLossy (t.takeWhile (· ≠ 58))
      let members := (bytesBetween 0 255).filter (Pattern.isInClass name)
      members ++ listed fuel (t.drop (name.length + 2))
    | 92, s =>
      let (e, rest) := Format.readEscape s
      e :: listed fuel (if e = 92 ∧ s.head? ≠ some 92 then s else rest)
    | b, 45 :: c :: t => bytesBetween b c ++ listed fuel t
    | b, s => b :: listed fuel s

/-- A text in which runs of the same listed byte are one. -/
def squeeze (set : Bytes) : Bytes → Bytes
  | a :: b :: s => if a = b ∧ a ∈ set then squeeze set (b :: s) else a :: squeeze set (b :: s)
  | s => s

def tr : Tool := fun arguments => do
  let (os, sets) := letters arguments
  let sets := sets.map fun s => listed (s.length + 1) s
  let complement (s : Bytes) : Bytes :=
    if 'c' ∈ os ∨ 'C' ∈ os then (bytesBetween 0 255).filter (· ∉ s) else s
  match sets with
  | [] => refuse "tr" "missing operand" 1
  | first :: others =>
    if others = [] ∧ ! ('d' ∈ os ∨ 's' ∈ os) then
      complain "tr" s!"missing operand after '{((arguments.getLast?).getD []).toStringLossy}'"
      Act.complain "Two strings must be given when translating.\n"
      Act.complain "Try 'tr --help' for more information.\n"
      return 1
    else
      match ← operand [45] with
      | .error e =>
        complain "tr" s!"read error: {e.reason}"
        return 1
      | .ok source =>
        let old := complement first
        let second := others.headD []
        let last := second.getLast?.getD 0
        let table := old.zip (second ++ List.replicate (old.length - second.length) last)
        let change (s : Bytes) : Bytes :=
          if 'd' ∈ os then s.filter (· ∉ old)
          else if others = [] then s
          else s.map fun b => (table.lookup b).getD b
        let squeezed (s : Bytes) : Bytes :=
          if 's' ∈ os then squeeze (if others = [] then old else second) s else s
        Act.writeSource 1 ⟨squeezed (change source.bytes), change source.endless⟩
        return 0

end QualityGate.Shell.Tool
