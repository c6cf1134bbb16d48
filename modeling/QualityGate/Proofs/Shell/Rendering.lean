import QualityGate.Proofs.Shell.Template

/-! # Rendering a command for a path

A path is quoted before it is put into a command's line, and there it is one literal piece of a word
whatever its characters are (`Command.rendersLiterally`). The placeholder has to stand where a text
can be quoted at all, and a template's `IsOpen` can be computed to see that it does. -/

namespace QualityGate

open Text (Template)

namespace Shell

/-! ### Deciding whether a template is open -/

instance (before after : Template) : Decidable (OpenAt before after) :=
  decidable_of_iff
    ((readTemplate before).mode = .bare ∧ (readTemplate before).announces? = none ∧
      (lastWord before).all isPlainPart = true ∧ (firstWord after).all isPlainPart = true)
    ⟨fun ⟨hb, hn, hl, hr⟩ => ⟨hb, hn, hl, hr⟩, fun ⟨hb, hn, hl, hr⟩ => ⟨hb, hn, hl, hr⟩⟩

instance (t : Template) : Decidable (IsOpen t) :=
  decidable_of_iff' _ Text.Template.forall_hole_iff

end Shell

/-! ### Paths in commands -/

open Shell

/-- The tokens of the line for a path are those of the line's template, with a word of nothing but
the path's characters in the holes. -/
def Command.RendersLiterally (c : Command) (file : String) : Prop :=
  ∃ v : Word, v.text? = some file.toList ∧ (∀ g ∈ v, g.isInert = true) ∧
    (tokens (c.render (some file)).toList).map Lexed.token =
      (templateTokens c.template).map fun l => l.token.fillIn v

theorem Command.tokens_run {c : Command} (hc : IsOpen c.template) :
    (tokens c.run.toList).map Lexed.token =
      (templateTokens c.template).map fun l =>
        l.token.fillIn (Command.placeholder.toList.map .bare) := by
  have hspells : Spells Command.placeholder.toList (Command.placeholder.toList.map .bare) :=
    spells_letters (by decide) (List.all_eq_true.mp (by decide))
  rw [← tokens_fill hc hspells, Command.fill_template]

theorem Command.rendersLiterally {c : Command} (hc : IsOpen c.template) (file : String) :
    c.RendersLiterally file := by
  refine ⟨quotedWord file.toList, text?_quotedWord _, fun _ => inert_of_mem_quotedWord, ?_⟩
  rw [Command.render_some, tokens_fill hc (spells_quote file.toList)]

/-- **Quoting makes any text one literal piece of a word, and any path in an open template.** A
hyphen right behind `<<` is left out, since it goes into that operator. -/
theorem quote_is_literal :
    (∀ (x : Lexer) (s : List Char), x.mode = .bare →
      ¬ (x.operator = ['<', '<'] ∧ s.head? = some '-' ∧ s.all isPlain) →
      (x.run (quote s)).mode = .bare ∧
      ∃ v : Word, v.text? = some s ∧ (∀ g ∈ v, g.isInert = true) ∧
        x.run (quote s) = (x.endOperator.later (s.count '\n')).withWord (x.begun ++ v)) ∧
    (∀ (c : Command), IsOpen c.template →
      (tokens c.run.toList).map Lexed.token =
        (templateTokens c.template).map (fun l =>
          l.token.fillIn (Command.placeholder.toList.map .bare)) ∧
      ∀ file, c.RendersLiterally file) ∧
    ∀ (c : Command) (file : String),
      (c.render (some file)).toList = c.template.fill (quote file.toList) := by
  refine ⟨fun x s hm ho => ?_, fun c hc => ⟨c.tokens_run hc, c.rendersLiterally hc⟩,
    Command.render_some⟩
  have hrun := Lexer.run_quote hm ho
  refine ⟨?_, quotedWord s, text?_quotedWord s, fun _ => inert_of_mem_quotedWord, hrun⟩
  rw [hrun, Lexer.mode_withWord, Lexer.mode_later, Lexer.mode_endOperator, hm]

/-- A text with a quote in it, at the start of a line and in the open hole of a template. -/
theorem quote_is_literal_apostrophe :
    (∃ v : Word, v.text? = some "it's".toList ∧
      Lexer.start.run (quote "it's".toList) = Lexer.start.withWord v) ∧
    (⟨"prettier --write \x7bfile\x7d", 5⟩ : Command).RendersLiterally "it's.ts" := by
  obtain ⟨v, hv, -, hrun⟩ :=
    (quote_is_literal.1 .start "it's".toList rfl (by decide)).2
  exact ⟨⟨v, hv, hrun⟩, (quote_is_literal.2.1 ⟨"prettier --write \x7bfile\x7d", 5⟩ (by decide)).2 _⟩

/-- Where quoting does not help: right behind `<<`, which takes the path's hyphen; in the end mark
of a here-document, which decides what is read as words; and between back quotes, where a text is
read a second time and a back quote in the path ends it. -/
theorem quote_is_not_literal :
    (¬ ∀ (x : Lexer) (s : List Char), x.mode = .bare →
      ∃ v : Word, v.text? = some s ∧ (x.run (quote s)).word = some (x.begun ++ v)) ∧
    (tokens (Command.render ⟨"cat << \x7bfile\x7d\nx\nEOF\nls", 5⟩ (some "EOF")).toList).length ≠
      (tokens "cat << \x7bfile\x7d\nx\nEOF\nls".toList).length ∧
    (tokens (Command.render ⟨"echo ` cat \x7bfile\x7d `", 5⟩ (some "a`b")).toList).length ≠
      (tokens "echo ` cat \x7bfile\x7d `".toList).length := by
  refine ⟨fun h => ?_, by decide, by decide⟩
  obtain ⟨v, hv, hword⟩ := h (Lexer.start.run "cat <<".toList) "-true".toList (by decide)
  have hrun : ((Lexer.start.run "cat <<".toList).run (quote "-true".toList)).word =
      some ("true".toList.map .bare) := by
    decide
  rw [hrun] at hword
  have hv' : v = "true".toList.map .bare := (Option.some.inj hword).symm
  rw [hv'] at hv
  exact absurd hv (by decide)

end QualityGate
