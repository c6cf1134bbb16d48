import QualityGate.Shell.Tool

/-! # Lines made up -/

namespace QualityGate.Shell.Tool

/-- Prints a line again and again. -/
def yes : Tool := fun arguments => do
  let line : Bytes := if arguments = [] then [121] else [32].intercalate arguments
  Act.writeSource 1 ⟨[], line ++ [10]⟩
  return 0

/-- A number that may have a sign. -/
def integer? (s : Bytes) : Option Int := s.toStringLossy.toInt?

def seq : Tool := fun arguments => do
  let (separator, arguments) : Bytes × List Bytes := match arguments with
    | [45, 115] :: s :: rest => (s, rest)
    | rest => ([10], rest)
  match arguments.find? fun a => (integer? a).isNone with
  | some a => refuse "seq" s!"invalid floating point argument: '{a.toStringLossy}'" 1
  | none =>
    let range : Option (Int × Int × Int) := match arguments.filterMap integer? with
      | [last] => some (1, 1, last)
      | [first, last] => some (first, 1, last)
      | [first, step, last] => some (first, step, last)
      | _ => none
    match range with
    | none => refuse "seq" "missing operand" 1
    | some (first, step, last) =>
      if step = 0 then refuse "seq" "invalid Zero increment value: '0'" 1
      else
        let count := ((last - first) / step + 1).toNat
        let numbers := (List.range count).map fun (i : Nat) => Bytes.ofString (toString (first + (i : Int) * step))
        if numbers ≠ [] then
          discard (Act.write 1 (separator.intercalate numbers ++ [10]))
        return 0

end QualityGate.Shell.Tool
