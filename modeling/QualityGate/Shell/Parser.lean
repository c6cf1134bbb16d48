import QualityGate.Shell.Lexer
import QualityGate.Shell.Command

/-! # Reading commands

Commands are read from tokens line by line, so that the lines before a wrong one can still run. A
reserved word counts only where a command may start. An error names the token that was not expected,
and the one that was, if only one would have been right. -/

namespace QualityGate.Shell

namespace Parser

/-- The tokens ahead; the last of them is the end of the text. -/
abbrev Ahead := List Lexed

def reserved : List String :=
  ["!", "case", "do", "done", "elif", "else", "esac", "fi", "for", "if", "in", "then", "until",
   "while", "\x7b", "\x7d"]

def reserved? : Ahead → Option String
  | ⟨.word w, _⟩ :: _ =>
    match w.bareText? with
    | some s => if String.ofList s ∈ reserved then some (String.ofList s) else none
    | none => none
  | _ => none

def operator? : Ahead → Option String
  | ⟨.operator o, _⟩ :: _ => some (String.ofList o)
  | _ => none

def lineOf : Ahead → Nat
  | l :: _ => l.line
  | [] => 1

/-- The operators of redirections. -/
def redirections : List String := ["<", ">", ">>", "<&", ">&", "<>", ">|", "<<", "<<-"]

def describe (ls : Ahead) : String :=
  match reserved? ls with
  | some k => s!"\"{k}\""
  | none =>
    match ls with
    | ⟨.word _, _⟩ :: _ | ⟨.here _ _, _⟩ :: _ => "word"
    | ⟨.newline, _⟩ :: _ => "newline"
    | ⟨.ioNumber _, _⟩ :: _ => "redirection"
    | ⟨.operator o, _⟩ :: _ =>
      if String.ofList o ∈ redirections then "redirection" else s!"\"{String.ofList o}\""
    | ⟨.finish _, _⟩ :: _ | [] => "end of file"

/-- The error at the token ahead. What is left open at the end of the text goes before everything
else. -/
def unexpected {α : Type} (expected : Option String) (ls : Ahead) : Except SyntaxError α :=
  let reason :=
    match ls with
    | ⟨.finish (some .quote), _⟩ :: _ => "Unterminated quoted string"
    | ⟨.finish (some .braces), _⟩ :: _ => "Missing '\x7d'"
    | ⟨.finish (some .arithmetic), _⟩ :: _ => "Missing '))'"
    | ⟨.finish (some .backQuote), _⟩ :: _ => "EOF in backquote substitution"
    | ⟨.finish (some .parens), _⟩ :: _ => "end of file unexpected (expecting \")\")"
    | ls =>
      match expected with
      | some e => s!"{describe ls} unexpected (expecting \"{e}\")"
      | none => s!"{describe ls} unexpected"
  .error ⟨lineOf ls, reason⟩

def expectWord (k : String) (ls : Ahead) : Except SyntaxError Ahead :=
  if reserved? ls = some k then .ok (ls.drop 1) else unexpected (some k) ls

def expectOperator (o : String) (ls : Ahead) : Except SyntaxError Ahead :=
  if operator? ls = some o then .ok (ls.drop 1) else unexpected (some o) ls

/-- Takes a closing bracket where no word is reserved. -/
def expectBracket (ls : Ahead) : Except SyntaxError Ahead :=
  match ls with
  | ⟨.word _, line⟩ :: _ => .error ⟨line, "word unexpected (expecting \")\")"⟩
  | ls => expectOperator ")" ls

def skipLines (ls : Ahead) : Ahead := ls.dropWhile fun l => l.token = .newline

def endsText (ls : Ahead) : Bool :=
  match ls with
  | ⟨.finish _, _⟩ :: _ | [] => true
  | _ => false

def endsList (ls : Ahead) : Bool :=
  endsText ls ||
    (reserved? ls).any ["do", "done", "elif", "else", "esac", "fi", "then", "\x7d"].contains ||
    (operator? ls).any [")", ";;"].contains

/-! ### Parts of simple commands -/

def isName : List Char → Bool
  | c :: s => isNameStart c && s.all isNameChar
  | [] => false

/-- The assignment that a word is: a bare name, an equals sign, and the value. -/
def assignment? (w : Word) : Option (List Char × Word) :=
  let name := w.takeWhile fun g => (g matches .bare _) && g ≠ .bare '='
  match w.drop name.length with
  | .bare '=' :: value => (Word.bareText? name).bind fun n => if isName n then some (n, value) else none
  | _ => none

/-- The kind of a redirection, and the descriptor that it is for by itself. -/
def redirectKind? : String → Option (Nat × RedirectKind)
  | "<" => some (0, .input)
  | ">" | ">|" => some (1, .output)
  | ">>" => some (1, .append)
  | "<>" => some (0, .readWrite)
  | "<&" => some (0, .copyInput)
  | ">&" => some (1, .copyOutput)
  | _ => none

def readRedirect (ls : Ahead) : Except SyntaxError (Option Redirect × Ahead) :=
  let (n, rest) := match ls with
    | ⟨.ioNumber n, _⟩ :: rest => (some n, rest)
    | ls => (none, ls)
  match operator? rest, rest.drop 1 with
  | some o, rest =>
    match redirectKind? o, rest with
    | some (d, k), ⟨.word w, _⟩ :: rest => .ok (some ⟨n.getD d, k, w⟩, rest)
    | some _, rest => unexpected none rest
    | none, ⟨.here _ body, _⟩ :: rest => .ok (some ⟨n.getD 0, .here body, []⟩, rest)
    | none, rest =>
      if o = "<<" ∨ o = "<<-" then unexpected none rest else .ok (none, ls)
  | none, _ => .ok (none, ls)

def readRedirects : (fuel : Nat) → Ahead → Except SyntaxError (List Redirect × Ahead)
  | 0, ls => .ok ([], ls)
  | fuel + 1, ls => do
    match ← readRedirect ls with
    | (some r, ls) =>
      let (rs, ls) ← readRedirects fuel ls
      .ok (r :: rs, ls)
    | (none, ls) => .ok ([], ls)

structure Parts where
  assignments : List (List Char × Word)
  words : List Word
  redirects : List Redirect

def readParts : (fuel : Nat) → Parts → Ahead → Except SyntaxError (Parts × Ahead)
  | 0, p, ls => .ok (p, ls)
  | fuel + 1, p, ls =>
    match ls with
    | ⟨.word w, _⟩ :: rest =>
      match assignment? w with
      | some a =>
        if p.words = [] then
          readParts fuel { p with assignments := p.assignments ++ [a] } rest
        else
          readParts fuel { p with words := p.words ++ [w] } rest
      | none => readParts fuel { p with words := p.words ++ [w] } rest
    | ls => do
      match ← readRedirect ls with
      | (some r, ls) => readParts fuel { p with redirects := p.redirects ++ [r] } ls
      | (none, ls) => .ok (p, ls)

/-- Reads words. -/
def readWords : Ahead → List Word × Ahead
  | ⟨.word w, _⟩ :: ls =>
    let (ws, ls) := readWords ls
    (w :: ws, ls)
  | ls => ([], ls)

def readPatterns : (fuel : Nat) → Ahead → Except SyntaxError (List Word × Ahead)
  | 0, ls => unexpected none ls
  | fuel + 1, ls =>
    match ls with
    | ⟨.word w, _⟩ :: ls =>
      if operator? ls = some "|" then do
        let (ws, ls) ← readPatterns fuel (ls.drop 1)
        .ok (w :: ws, ls)
      else
        .ok ([w], ls)
    | ls => unexpected (some ")") ls

/-! ### Commands -/

mutual

def readList : (fuel : Nat) → (mayBeEmpty : Bool) → Ahead → Except SyntaxError (Command × Ahead)
  | 0, _, ls => unexpected none ls
  | fuel + 1, mayBeEmpty, ls => do
    let ls := skipLines ls
    if mayBeEmpty && endsList ls || endsText ls then
      .ok (.nothing, ls)
    else
      let (c, ls) ← readAndOr fuel ls
      let (c, ls, more) : Command × Ahead × Bool := match operator? ls, ls with
        | some "&", ls => (.background c, ls.drop 1, true)
        | some ";", ls => (c, ls.drop 1, true)
        | _, ⟨.newline, _⟩ :: ls => (c, ls, true)
        | _, ls => (c, ls, false)
      if more then
        let (rest, ls) ← readList fuel true ls
        .ok (.sequence c rest, ls)
      else
        .ok (c, ls)

/-- Reads pipelines joined by the two operators of logic, which bind to the left. -/
def readAndOr : (fuel : Nat) → Ahead → Except SyntaxError (Command × Ahead)
  | 0, ls => unexpected none ls
  | fuel + 1, ls => do
    let (c, ls) ← readPipeline fuel ls
    readAndOrMore fuel c ls

def readAndOrMore : (fuel : Nat) → Command → Ahead → Except SyntaxError (Command × Ahead)
  | 0, _, ls => unexpected none ls
  | fuel + 1, c, ls =>
    match operator? ls with
    | some "&&" => do
      let (d, ls) ← readPipeline fuel (skipLines (ls.drop 1))
      readAndOrMore fuel (.both c d) ls
    | some "||" => do
      let (d, ls) ← readPipeline fuel (skipLines (ls.drop 1))
      readAndOrMore fuel (.either c d) ls
    | _ => .ok (c, ls)

def readPipeline : (fuel : Nat) → Ahead → Except SyntaxError (Command × Ahead)
  | 0, ls => unexpected none ls
  | fuel + 1, ls => do
    let negated := reserved? ls == some "!"
    let (cs, ls) ← readStages fuel (if negated then ls.drop 1 else ls)
    match cs with
    | [c] => .ok (if negated then .pipeline true [c] else c, ls)
    | cs => .ok (.pipeline negated cs, ls)

def readStages : (fuel : Nat) → Ahead → Except SyntaxError (List Command × Ahead)
  | 0, ls => unexpected none ls
  | fuel + 1, ls => do
    let (c, ls) ← readCommand fuel ls
    if operator? ls = some "|" then
      let (cs, ls) ← readStages fuel (skipLines (ls.drop 1))
      .ok (c :: cs, ls)
    else
      .ok ([c], ls)

def readCommand : (fuel : Nat) → Ahead → Except SyntaxError (Command × Ahead)
  | 0, ls => unexpected none ls
  | fuel + 1, ls =>
    match reserved? ls with
    | some "if" => do
      let (c, ls) ← readChoice fuel (ls.drop 1)
      let ls ← expectWord "fi" ls
      let (rs, ls) ← readRedirects ls.length ls
      match c with
      | .choice a b o _ => .ok (.choice a b o rs, ls)
      | c => .ok (.group c rs, ls)
    | some "while" => readLoop fuel false (ls.drop 1)
    | some "until" => readLoop fuel true (ls.drop 1)
    | some "for" => readFor fuel (ls.drop 1)
    | some "case" => do
      match ls.drop 1 with
      | ⟨.word w, _⟩ :: ls =>
        let ls ← expectWord "in" (skipLines ls)
        let (arms, ls) ← readArms fuel (skipLines ls)
        let (rs, ls) ← readRedirects ls.length ls
        .ok (.select w arms rs, ls)
      | ls => unexpected none ls
    | some "\x7b" => do
      let (c, ls) ← readList fuel false (ls.drop 1)
      let ls ← expectWord "\x7d" ls
      let (rs, ls) ← readRedirects ls.length ls
      .ok (.group c rs, ls)
    | some _ => unexpected none ls
    | none =>
      if operator? ls = some "(" then do
        let (c, ls) ← readList fuel false (ls.drop 1)
        let ls ← expectOperator ")" ls
        let (rs, ls) ← readRedirects ls.length ls
        .ok (.subshell c rs, ls)
      else do
        let line := lineOf ls
        let (p, rest) ← readParts ls.length ⟨[], [], []⟩ ls
        match p.assignments, p.words, p.redirects, operator? rest with
        | [], [], [], _ => unexpected none ls
        | [], [w], [], some "(" =>
          let rest ← expectBracket (rest.drop 1)
          match Word.bareText? w with
          | some name =>
            if isName name then
              let (body, rest) ← readCommand fuel (skipLines rest)
              .ok (.define name body, rest)
            else .error ⟨line, "Bad function name"⟩
          | none => .error ⟨line, "Bad function name"⟩
        | as, ws, rs, _ => .ok (.simple line as ws rs, rest)

/-- Reads a choice from behind its condition's word up to its last word. -/
def readChoice : (fuel : Nat) → Ahead → Except SyntaxError (Command × Ahead)
  | 0, ls => unexpected none ls
  | fuel + 1, ls => do
    let (condition, ls) ← readList fuel false ls
    let ls ← expectWord "then" ls
    let (body, ls) ← readList fuel false ls
    match reserved? ls with
    | some "elif" =>
      let (otherwise, ls) ← readChoice fuel (ls.drop 1)
      .ok (.choice condition body otherwise [], ls)
    | some "else" =>
      let (otherwise, ls) ← readList fuel false (ls.drop 1)
      .ok (.choice condition body otherwise [], ls)
    | _ => .ok (.choice condition body .nothing [], ls)

/-- Reads a loop with a condition. -/
def readLoop : (fuel : Nat) → (isUntil : Bool) → Ahead → Except SyntaxError (Command × Ahead)
  | 0, _, ls => unexpected none ls
  | fuel + 1, isUntil, ls => do
    let (condition, ls) ← readList fuel false ls
    let ls ← expectWord "do" ls
    let (body, ls) ← readList fuel false ls
    let ls ← expectWord "done" ls
    let (rs, ls) ← readRedirects ls.length ls
    .ok (.loop isUntil condition body rs, ls)

/-- Reads a loop over words. Without words it goes over the parameters. -/
def readFor : (fuel : Nat) → Ahead → Except SyntaxError (Command × Ahead)
  | 0, ls => unexpected none ls
  | fuel + 1, ls => do
    match ls with
    | ⟨.word w, line⟩ :: ls =>
      let name := (Word.bareText? w).getD []
      if isName name then
        let (words, ls) ←
          if reserved? (skipLines ls) = some "in" then do
            let (ws, ls) := readWords ((skipLines ls).drop 1)
            if operator? ls = some ";" then .ok (some ws, ls.drop 1)
            else match ls with
              | ⟨.newline, _⟩ :: ls => .ok (some ws, ls)
              | ls => unexpected none ls
          else
            .ok (none, if operator? ls = some ";" then ls.drop 1 else ls)
        let ls ← expectWord "do" (skipLines ls)
        let (body, ls) ← readList fuel false ls
        let ls ← expectWord "done" ls
        let (rs, ls) ← readRedirects ls.length ls
        .ok (.forEach name words body rs, ls)
      else
        .error ⟨line, "Bad for loop variable"⟩
    | ls => .error ⟨lineOf ls, "Bad for loop variable"⟩

def readArms : (fuel : Nat) → Ahead → Except SyntaxError (List (List Word × Command) × Ahead)
  | 0, ls => unexpected none ls
  | fuel + 1, ls => do
    if reserved? ls = some "esac" then
      .ok ([], ls.drop 1)
    else
      let ls := if operator? ls = some "(" then ls.drop 1 else ls
      let (patterns, ls) ← readPatterns ls.length ls
      let ls ← expectOperator ")" ls
      let (body, ls) ← readList fuel true ls
      let ls := skipLines ls
      if reserved? ls = some "esac" then
        .ok ([(patterns, body)], ls.drop 1)
      else
        let ls ← expectOperator ";;" ls
        let (arms, ls) ← readArms fuel (skipLines ls)
        .ok ((patterns, body) :: arms, ls)

end

def readLineFrom : (fuel : Nat) → Ahead → Except SyntaxError (Command × Ahead)
  | 0, ls => unexpected none ls
  | fuel + 1, ls =>
    match ls with
    | ⟨.newline, _⟩ :: ls => .ok (.nothing, ls)
    | ⟨.finish none, _⟩ :: _ | [] => .ok (.nothing, ls)
    | ls => do
      let (c, ls) ← readAndOr (6 * ls.length + 6) ls
      match operator? ls, ls with
      | some "&", ls =>
        let (rest, ls) ← readLineFrom fuel (ls.drop 1)
        .ok (.sequence (.background c) rest, ls)
      | some ";", ls =>
        let (rest, ls) ← readLineFrom fuel (ls.drop 1)
        .ok (.sequence c rest, ls)
      | _, ⟨.newline, _⟩ :: ls => .ok (c, ls)
      | _, ⟨.finish none, _⟩ :: _ => .ok (c, ls)
      | _, ls => unexpected none ls

def readLine (ls : Ahead) : Except SyntaxError (Command × Ahead) := readLineFrom (ls.length + 1) ls

end Parser

end QualityGate.Shell
