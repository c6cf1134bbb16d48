import QualityGate.Text.Utf8

/-! # Faults in JSON texts

A fault is a reason and the bytes behind the place where it was found. The byte that gave it away
counts as found, so a fault at a line feed belongs to the line after it. -/

namespace QualityGate.Json

inductive Reason where
  | endInValue
  | endInList
  | endInObject
  | endInString
  | noColon
  | noListComma
  | noObjectComma
  | noWord
  | noValue
  | noName
  | trailingComma
  | trailingText
  | badNumber
  | hugeNumber
  | badEscape
  | loneSurrogate
  | halfPair
  | control
  | badUtf8
  | tooDeep
  deriving DecidableEq, Repr

def Reason.message : Reason → String
  | .endInValue => "EOF while parsing a value"
  | .endInList => "EOF while parsing a list"
  | .endInObject => "EOF while parsing an object"
  | .endInString => "EOF while parsing a string"
  | .noColon => "expected `:`"
  | .noListComma => "expected `,` or `]`"
  | .noObjectComma => "expected `,` or `\x7d`"
  | .noWord => "expected ident"
  | .noValue => "expected value"
  | .noName => "key must be a string"
  | .trailingComma => "trailing comma"
  | .trailingText => "trailing characters"
  | .badNumber => "invalid number"
  | .hugeNumber => "number out of range"
  | .badEscape => "invalid escape"
  | .loneSurrogate => "lone leading surrogate in hex escape"
  | .halfPair => "unexpected end of hex escape"
  | .control => "control character (\\u0000-\\u001F) found while parsing a string"
  | .badUtf8 => "invalid unicode code point"
  | .tooDeep => "recursion limit exceeded"

/-- A reason, and the bytes behind the place where it was found. -/
structure Fault where
  reason : Reason
  rest : Bytes
  deriving DecidableEq, Repr

namespace Fault

/-- The line of a fault, counted from one. -/
def line (whole : Bytes) (f : Fault) : Nat :=
  (whole.take (whole.length - f.rest.length)).count 0x0A + 1

end Fault

/-- Stops at the first of the bytes ahead, and counts it as found; without one, at the end. -/
def stopAt {α : Type} (r : Reason) (ahead : Bytes) : Except Fault α :=
  .error ⟨r, ahead.drop 1⟩

@[simp]
theorem stopAt_ne_ok {α : Type} (r : Reason) (ahead : Bytes) (a : α) : stopAt r ahead ≠ .ok a := by
  simp [stopAt]

/-- Two readers in a row succeed where the first one does and the second one goes on from there. -/
theorem bind_eq_ok_iff {α β : Type} {x : Except Fault α} {f : α → Except Fault β} {b : β} :
    (x >>= f) = .ok b ↔ ∃ a, x = .ok a ∧ f a = .ok b := by
  cases x with
  | error e => simp [bind, Except.bind]
  | ok a => simp [bind, Except.bind]

end QualityGate.Json
