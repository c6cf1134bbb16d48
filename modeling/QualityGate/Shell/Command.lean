import QualityGate.Shell.Word

/-! # Commands of the shell

What a command line says, before anything in it is expanded. -/

namespace QualityGate.Shell

inductive RedirectKind where
  | input
  | output
  | append
  | readWrite
  | copyInput
  | copyOutput
  | here (body : HereBody)
  deriving DecidableEq, Repr

structure Redirect where
  descriptor : Nat
  kind : RedirectKind
  target : Word
  deriving DecidableEq, Repr

inductive Command where
  | nothing
  | simple (line : Nat) (assignments : List (List Char × Word)) (words : List Word)
      (redirects : List Redirect)
  | pipeline (negated : Bool) (stages : List Command)
  | both (a b : Command)
  | either (a b : Command)
  | sequence (a b : Command)
  | background (a : Command)
  | subshell (body : Command) (redirects : List Redirect)
  | group (body : Command) (redirects : List Redirect)
  | choice (condition body otherwise : Command) (redirects : List Redirect)
  | loop (isUntil : Bool) (condition body : Command) (redirects : List Redirect)
  | forEach (name : List Char) (words : Option (List Word)) (body : Command)
      (redirects : List Redirect)
  | select (subject : Word) (arms : List (List Word × Command)) (redirects : List Redirect)
  | define (name : List Char) (body : Command)
  deriving Repr, Inhabited

structure SyntaxError where
  line : Nat
  reason : String
  deriving DecidableEq, Repr

end QualityGate.Shell
