import QualityGate.Decimal.Binary64

/-! # JSON values -/

namespace QualityGate.Json

/-- A number: whole and in the range of the 64-bit words, signed or unsigned, or binary64. -/
inductive Number where
  | whole (n : Int)
  | real (x : Binary64)
  deriving DecidableEq, Repr

/-- A JSON value. The members of an object have distinct names. -/
inductive Value where
  | null
  | bool (b : Bool)
  | number (n : Number)
  | string (s : String)
  | array (items : List Value)
  | object (members : List (String × Value))
  deriving Repr, Inhabited

/-- Members with distinct names: of those with one name the last counts. -/
def lastOfEach : List (String × Value) → List (String × Value)
  | [] => []
  | m :: ms => if ms.any (·.1 = m.1) then lastOfEach ms else m :: lastOfEach ms

def Value.text? : Value → Option String
  | .string s => some s
  | _ => none

/-- The members of a value; only an object has any. -/
def Value.members : Value → List (String × Value)
  | .object ms => ms
  | _ => []

end QualityGate.Json
