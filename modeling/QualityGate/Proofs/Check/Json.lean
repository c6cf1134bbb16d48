import QualityGate.Proofs.Dispatch
import QualityGate.Proofs.ExitCode
import QualityGate.Proofs.Json.Unique

/-! # What the check of JSON files lets pass

No file passes that is not a JSON text (`findings_of_not_isJsonText`): it is reported once, with the
reason and the line. Not every JSON text passes (`passes_iff`). Reading it as a value sets limits
that the grammar does not have: on the depth, on the size of numbers, and on surrogates, which must
come in pairs. Within these limits the fast hook is silent about the file, and beyond them it
blocks. -/

namespace QualityGate

open Text.Utf8 (encode encodeChar encode_nil encode_cons encode_append encode_injective)

namespace Json

/-! ### What is a JSON text -/

/-- The bytes can be passed over as one value. -/
def passesOver (content : Bytes) : Bool :=
  match readValue true (fuelFor content) 0 content with
  | .ok (_, rest) => (skipBlanks rest).isEmpty
  | .error _ => false

theorem passesOver_iff (content : Bytes) : passesOver content = true ↔ IsJsonText content := by
  rw [passesOver]
  constructor
  · intro h
    split at h
    · rename_i v rest hread
      obtain ⟨w, u, hw, ⟨t, ht, -, -⟩, hcontent⟩ := (sound true _).value hread
      obtain ⟨w', hw', rfl⟩ := skipBlanks_eq_nil_iff.mp (List.isEmpty_iff.mp h)
      exact ⟨w ++ u ++ w', hcontent.trans (encode_append _ _).symm, t, w, u, w', hw, ht, hw', rfl⟩
    · exact absurd h Bool.false_ne_true
  · rintro ⟨_, rfl, t, w, u, w', hw, ht, hw', rfl⟩
    obtain ⟨v, hreads⟩ := ht.exists_reads
    have hread := readValue_of_reads hw hreads (ends_blanks hw')
    rw [← encode_append] at hread
    rw [hread]
    exact List.isEmpty_iff.mpr (skipBlanks_eq_nil_iff.mpr ⟨w', hw', rfl⟩)

instance : DecidablePred IsJsonText := fun content => decidable_of_iff _ (passesOver_iff content)

example : IsJsonText (Bytes.ofString " [1e400, \"\\ud800\\/\", \x7b\"a\":-0.5E+1\x7d]\n") := by
  decide +kernel

example : ¬ IsJsonText (Bytes.ofString "[1,]") := by decide +kernel

theorem read_isJsonText {content : Bytes} {v : Value} (h : read content = .ok v) :
    IsJsonText content := by
  obtain ⟨text, t, hcontent, ht, -⟩ := read_eq_ok_iff.mp h
  exact ⟨text, hcontent, t, ht⟩

/-! ### What does not pass -/

/-- No reason can be mistaken for the line behind it. -/
theorem Reason.not_infix_message (r : Reason) : ¬ " at line ".toList <:+: r.message.toList := by
  cases r <;> decide +kernel

theorem Fault.line_le (content : Bytes) (f : Fault) : f.line content ≤ content.count 0x0A + 1 :=
  Nat.succ_le_succ ((List.take_sublist _ content).count_le 0x0A)

theorem findings_of_not_isJsonText {content : Bytes} (h : ¬ IsJsonText content) (name : String) :
    ∃ (reason : String) (n : Nat),
      findings name content =
        [⟨.json, .error, name ++ ": invalid JSON - " ++ reason ++ " at line " ++ toString n,
          none⟩] ∧
      ¬ " at line ".toList <:+: reason.toList ∧ 1 ≤ n ∧ n ≤ 1 + content.count 0x0A := by
  cases hread : read content with
  | ok v => exact absurd (read_isJsonText hread) h
  | error f =>
    refine ⟨f.reason.message, f.line content, ?_, f.reason.not_infix_message, Nat.succ_pos _, ?_⟩
    · rw [findings, hread]
      rfl
    · rw [Nat.add_comm]
      exact f.line_le content

/-- A number may not start with a zero. -/
theorem findings_of_leading_zero :
    ¬ IsJsonText (Bytes.ofString "\x7b\"a\":\n01\x7d") ∧
      ∃ (reason : String) (n : Nat),
        findings "a.json" (Bytes.ofString "\x7b\"a\":\n01\x7d") =
          [⟨.json, .error, "a.json" ++ ": invalid JSON - " ++ reason ++ " at line " ++ toString n,
            none⟩] ∧
        ¬ " at line ".toList <:+: reason.toList ∧ 1 ≤ n ∧
          n ≤ 1 + (Bytes.ofString "\x7b\"a\":\n01\x7d").count 0x0A := by
  have h : ¬ IsJsonText (Bytes.ofString "\x7b\"a\":\n01\x7d") := by decide +kernel
  exact ⟨h, findings_of_not_isJsonText h "a.json"⟩

/-! ### What passes -/

theorem exists_read_iff {text : List Char} {t : Tree} (ht : t.IsTextOf text) :
    (∃ v, read (encode text) = .ok v) ↔ t.depth ≤ depthLimit ∧ t.Legible := by
  rw [Tree.legible_iff]
  constructor
  · rintro ⟨v, h⟩
    obtain ⟨text', t', htext, ht', hdepth, hd⟩ := read_eq_ok_iff.mp h
    obtain rfl := encode_injective htext
    obtain rfl := ht.unique ht'
    exact ⟨hdepth, v, hd⟩
  · rintro ⟨hdepth, v, hd⟩
    exact ⟨v, read_eq_ok_iff.mpr ⟨text, t, rfl, ht, hdepth, hd⟩⟩

theorem findings_eq_nil_iff {text : List Char} {t : Tree} (ht : t.IsTextOf text) (name : String) :
    findings name (encode text) = [] ↔ t.depth ≤ depthLimit ∧ t.Legible := by
  rw [← exists_read_iff ht, findings]
  cases read (encode text) with
  | ok v => simp
  | error f => simp

/-- A finding of the check blocks. -/
theorem count_findings_eq_zero_iff (name : String) (content : Bytes) :
    (Verdict.mk (findings name content)).count .error = 0 ↔ findings name content = [] := by
  rw [findings]
  cases read content with
  | ok v => simp [Verdict.count]
  | error f => simp [Verdict.count, Finding.error]

end Json

/-! ### The fast hook on a JSON file -/

variable {σ : Type}

theorem Ending.BlocksOn.eq_silent_iff {e : Ending} {verdict : Option Verdict}
    {color : Bool} {header : String} (h : e.BlocksOn verdict color header) :
    e = .silent ↔ e.exit ≠ 2 := by
  constructor
  · rintro rfl
    decide
  · intro hexit
    obtain ⟨hzero, hstdout, hstderr⟩ := h.silent hexit
    obtain ⟨exit, stdout, stderr⟩ := e
    subst hzero hstdout hstderr
    rfl

/-- **A JSON text passes if it is not too deep, its numbers fit, and its surrogates come in pairs.**
The fast hook makes no call for such a file, and blocks on it unless it passes or is skipped. -/
theorem Json.passes_iff {text : List Char} {t : Tree} (ht : t.IsTextOf text) :
    (∀ name, findings name (encode text) = [] ↔ t.depth ≤ depthLimit ∧ t.Legible) ∧
    ∀ {σ : Type} (x : Surroundings σ) {args : List String} {i : Invocation} {session : Session σ}
      {path : String} {s : σ}, Arguments.read args = .ok i → i.hook = .fast →
      x.session i = .ok session → (Event.ofBytes x.stdin).filePath = some path →
      FileKind.ofPath path = .json →
      session.content s (Path.join session.root path) = some (encode text) →
        (x.run args s).calls = [] ∧
        ((x.run args s).ending = .silent ↔
          session.config.skips path = true ∨ t.depth ≤ depthLimit ∧ t.Legible) ∧
        ((x.run args s).ending ≠ .silent → (x.run args s).ending.exit = 2) := by
  refine ⟨findings_eq_nil_iff ht, ?_⟩
  intro σ x args i session path s hread hhook hsession hpath hkind hcontent
  have hedit := session.edit_json hpath hkind s
  have hblocks := Surroundings.fast_blocksOn (s := s) hread hhook hsession
  refine ⟨?_, ?_, fun h => ?_⟩
  · rw [Surroundings.run_of_read hread, Surroundings.runHook, hhook]
    dsimp only
    rw [Surroundings.runEdit, hpath]
    dsimp only
    rw [hkind, if_pos (show Mode.fast.handles .json = true from rfl), hsession]
    dsimp only
    rw [hedit]
    by_cases hskip : session.config.skips path = true
    · rw [if_pos hskip]
      rfl
    · rw [if_neg hskip]
      rfl
  · rw [hblocks.eq_silent_iff, Ne, hblocks.exit, hedit]
    by_cases hskip : session.config.skips path = true
    · simp [hskip]
    · have hfindings : (session.checkJson path s).findings =
          findings (Path.displayName (Path.join session.root path)) (encode text) := by
        show fileFindings _ (session.content s _) = _
        rw [hcontent]
        rfl
      have hcount := count_findings_eq_zero_iff
        (Path.displayName (Path.join session.root path)) (encode text)
      rw [findings_eq_nil_iff ht] at hcount
      rw [if_neg hskip, Option.map_some, ← hcount, or_iff_right hskip]
      simp [Trace.verdict, hfindings]
  · rw [Ne, hblocks.eq_silent_iff, not_not] at h
    exact h

/-- Surroundings in which a JSON file is edited. -/
def Surroundings.editing (text : List Char) : Surroundings Unit where
  stdin := Bytes.ofString "\x7b\"tool_input\":\x7b\"file_path\":\"a.json\"\x7d\x7d"
  usage _ := ""
  root _ := .ok "/repo"
  config _ _ := .ok .default
  runner _ := .ofAnswers fun _ => ⟨true, ""⟩
  content _ _ := some (encode text)

/-- A number can be too large, and then the fast hook blocks on a JSON text. -/
theorem Json.passes_iff_huge :
    IsJsonText (encode ['1', 'e', '4', '0', '0']) ∧
      findings "a.json" (encode ['1', 'e', '4', '0', '0']) ≠ [] ∧
      ((Surroundings.editing ['1', 'e', '4', '0', '0']).run ["fast"] ()).ending.exit = 2 := by
  have hnumber : IsNumber ['1', 'e', '4', '0', '0'] := by decide +kernel
  have htext : (Tree.number ['1', 'e', '4', '0', '0']).IsTextOf ['1', 'e', '4', '0', '0'] :=
    ⟨[], _, [], isBlanks_nil, .number hnumber, isBlanks_nil, rfl⟩
  obtain ⟨hfindings, hrun⟩ := passes_iff htext
  have hnot : findings "a.json" (encode ['1', 'e', '4', '0', '0']) ≠ [] := by decide +kernel
  have hread : Arguments.read ["fast"] = .ok ⟨.fast, none, none, false, false⟩ := rfl
  have hpath : (Event.ofBytes (Surroundings.editing ['1', 'e', '4', '0', '0']).stdin).filePath =
      some "a.json" := by decide +kernel
  have hkind : FileKind.ofPath "a.json" = .json := by decide +kernel
  obtain ⟨-, hsilent, hblocks⟩ := @hrun Unit _ _ _ _ _ () hread rfl rfl hpath hkind rfl
  refine ⟨⟨_, rfl, _, htext⟩, hnot, hblocks fun h => ?_⟩
  rcases hsilent.mp h with hskip | hpasses
  · exact absurd hskip (by decide +kernel)
  · exact hnot ((hfindings "a.json").mpr hpasses)

end QualityGate
