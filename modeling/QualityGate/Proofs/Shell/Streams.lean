import QualityGate.Proofs.Text.Places
import QualityGate.Shell.Run

/-! # The two outputs of a command

What a command printed comes as two byte strings, and a check sees one text. Each of the two is read
on its own, and what is not UTF-8 in it is replaced; so the last bytes of the one and the first
bytes of the other never make up a character. `Shell.output_reads_streams` says what this text tells
of the bytes: all of them if they are UTF-8, and every place of an ASCII word in any case. -/

namespace QualityGate.Shell

open Text (places)
open Text.Utf8 (ReadsLossy decodeLossy encode readAround)

/-! ### Commands that are done in time -/

/-- The shell was left before its time was up, and so were the commands in the background that keep
its outputs open. -/
structure InTime (left : Except Leave Unit) (s : State) : Prop where
  left : left ≠ .error .timedOut
  background : (s.shared.background.map Prod.fst).getD 0 < s.shared.deadline

/-- The command of a call, started in the directory at `root`, leaves its shell in this way and in
this state. -/
inductive Leaves (root : String) (files : FileTree) (c : Call) : Except Leave Unit → State → Prop
  | started {names : List String} {entries : List (String × FileTree)}
      {left : Except Leave Unit} {s : State} (hnul : '\x00' ∉ c.line.toList)
      (hroot : files.locate [] root = .ok ⟨names, some (.directory entries)⟩)
      (hrun : (Evaluation.ending stepLimit (Evaluation.runText stepLimit c.line.toList)).run
        (firstState files names (1000 * (1000 * c.timeoutSecs))) = (left, s)) :
      Leaves root files c left s

variable {left : Except Leave Unit} {s : State} {root : String} {files : FileTree} {c : Call}

theorem runner_of_leaves (h : Leaves root files c left s) :
    (runner root files c).1 = outcomeOf left s := by
  obtain ⟨hnul, hroot, hrun⟩ := h
  rw [runner, run, if_neg hnul, hroot]
  dsimp only
  rw [runFrom, hrun]

/-- A command that is done in time has an outcome made of what it printed. -/
theorem outcomeOf_of_inTime (h : InTime left s) :
    ∃ succeeded, outcomeOf left s =
      .ofStreams succeeded (written s.shared 0) (written s.shared 1) := by
  unfold outcomeOf
  dsimp only
  rw [if_neg (Nat.not_le_of_lt h.background)]
  split
  · exact absurd rfl h.left
  · exact ⟨false, rfl⟩
  · exact ⟨_, rfl⟩

theorem outcomeOf_of_not_inTime (h : ¬ InTime left s) : outcomeOf left s = .timedOut := by
  unfold outcomeOf
  dsimp only
  split
  · rfl
  · rename_i hlasting
    split
    · rfl
    · exact absurd ⟨by simp, Nat.lt_of_not_le hlasting⟩ h
    · rename_i htimedOut _
      exact absurd ⟨htimedOut, Nat.lt_of_not_le hlasting⟩ h

/-! ### What their outputs tell -/

theorem toList_output_ofStreams (succeeded : Bool) (stdout stderr : Bytes) :
    (Outcome.ofStreams succeeded stdout stderr).output.toList =
      decodeLossy stdout ++ decodeLossy stderr := by
  rw [Outcome.ofStreams, String.toList_append, Bytes.toStringLossy, Bytes.toStringLossy,
    String.toList_ofList, String.toList_ofList]

/-- Bytes that are UTF-8 are all kept. -/
theorem ofString_output_ofStreams (succeeded : Bool) (t u : List Char) :
    Bytes.ofString (Outcome.ofStreams succeeded (encode t) (encode u)).output =
      encode t ++ encode u := by
  rw [Bytes.ofString, toList_output_ofStreams, Text.Utf8.decodeLossy_encode,
    Text.Utf8.decodeLossy_encode, Text.Utf8.encode_append]

/-- **Bytes that are not UTF-8 neither hide a word nor make one up.** The output of a command that is
done in time is the reading of what it printed to the one stream, and behind it that of the other.
Each reading is the one with a sign of replacement for each invalid part. If both streams are UTF-8,
the bytes of the output are theirs; and in any case the places of an ASCII word in a reading are
those of its bytes in the stream, one by one from left to right. Only of a command that is not done
in time nothing is told. -/
theorem output_reads_streams (left : Except Leave Unit) (s : State) {stdout stderr : Bytes}
    (hout : written s.shared 0 = stdout) (herr : written s.shared 1 = stderr) :
    (∀ root files c, Leaves root files c left s →
      (runner root files c).1 = outcomeOf left s) ∧
    (InTime left s →
      (∃ out err, (outcomeOf left s).output.toList = out ++ err ∧
        (∀ t, ReadsLossy stdout t ↔ t = out) ∧ (∀ t, ReadsLossy stderr t ↔ t = err)) ∧
      (∀ t u, stdout = encode t → stderr = encode u →
        Bytes.ofString (outcomeOf left s).output = stdout ++ stderr)) ∧
    (∀ stream ∈ [stdout, stderr], ∀ t, ReadsLossy stream t →
      ∀ w, w ≠ [] → (∀ c ∈ w, c.toNat < 0x80) →
        (places (encode w) stream).map readAround = places w t ∧
        (places (encode w) stream).Pairwise (fun x y => x.1.length < y.1.length) ∧
        ∀ before behind, (before, behind) ∈ places (encode w) stream ↔
          stream = before ++ (encode w ++ behind)) ∧
    (¬ InTime left s → outcomeOf left s = .timedOut) := by
  subst hout herr
  refine ⟨fun _ _ _ => runner_of_leaves, fun h => ⟨?_, ?_⟩, ?_, outcomeOf_of_not_inTime⟩
  · obtain ⟨succeeded, houtcome⟩ := outcomeOf_of_inTime h
    refine ⟨decodeLossy (written s.shared 0), decodeLossy (written s.shared 1), ?_, ?_, ?_⟩
    · rw [houtcome, toList_output_ofStreams]
    · exact fun t => Text.Utf8.readsLossy_iff.trans eq_comm
    · exact fun t => Text.Utf8.readsLossy_iff.trans eq_comm
  · intro t u hout herr
    obtain ⟨succeeded, houtcome⟩ := outcomeOf_of_inTime h
    rw [houtcome, hout, herr, ofString_output_ofStreams]
  · intro stream _ t ht w hw hascii
    rw [← Text.Utf8.readsLossy_iff.mp ht]
    refine ⟨Text.Utf8.places_decodeLossy hw hascii stream, Text.pairwise_places _ _, ?_⟩
    exact fun before behind => Text.mem_places_iff (Text.Utf8.encode_ne_nil hw)

/-- The state of a shell that printed these bytes to its two streams. -/
def printed (stdout stderr : Bytes) : State :=
  let s := firstState .empty [] 1000
  { s with shared := { s.shared with channels := #[.pipe [stdout] [], .pipe [stderr] []] } }

/-- The first byte of `é` on the one stream and the other byte on the other make up no character,
and the word behind an unfinished character is found. -/
theorem output_reads_streams_split :
    let s := printed [0x21, 0xC3] [0xA9, 0xE2, 0x82, 0x21]
    InTime (.ok ()) s ∧
      (outcomeOf (.ok ()) s).output.toList = ['!', '\uFFFD', '\uFFFD', '\uFFFD', '!'] ∧
      (places (encode ['!']) [0xA9, 0xE2, 0x82, 0x21]).map readAround =
        [(['\uFFFD', '\uFFFD'], [])] := by
  intro s
  have hout : written s.shared 0 = [0x21, 0xC3] := rfl
  have herr : written s.shared 1 = [0xA9, 0xE2, 0x82, 0x21] := rfl
  have hintime : InTime (.ok ()) s := ⟨by simp, by decide⟩
  obtain ⟨-, hread, hplaces, -⟩ := output_reads_streams (.ok ()) s hout herr
  obtain ⟨⟨out, err, houtput, hiff, hiff'⟩, -⟩ := hread hintime
  have houttext := (hiff _).mp (Text.Utf8.readsLossy_decodeLossy _)
  have herrtext := (hiff' _).mp (Text.Utf8.readsLossy_decodeLossy _)
  refine ⟨hintime, ?_, ?_⟩
  · rw [houtput, ← houttext, ← herrtext]
    decide
  · rw [(hplaces _ (by simp) _ (Text.Utf8.readsLossy_decodeLossy _) ['!'] (by simp)
      (by simp)).1]
    decide

end QualityGate.Shell
