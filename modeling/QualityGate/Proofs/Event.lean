import QualityGate.Event
import QualityGate.Proofs.Json.Unique

/-! # What is taken in of an event

A payload is read in one pass. Each member is either the tool's input, which is kept and may come
only once, or it is passed over (`Keeps`); a whole payload is a sequence of such steps (`Intake`). So
the tool's input is recovered whatever stands around it (`ofText_of_payload`), and nothing but a
payload names a file (`ofText_eq_iff`). A payload is an object with one tool's input, or a list of
nothing else. -/

namespace QualityGate.Event

open Json
open Text.Utf8 (encode encode_nil encode_cons encode_append encode_injective)

/-! ### One member -/

/-- How many containers may stand inside one another in the tool's input. -/
def inputDepth : Nat := depthLimit - 1

/-- The name is one that can be kept, and another one. -/
def OtherName (name : String) (m : List Char × Tree) : Prop :=
  ∃ s, Spells false m.1 s ∧ s ≠ name.toList

/-- What one member makes of the tool's input found so far. -/
inductive Keeps : Option Value → List Char × Tree → Option Value → Prop
  | input {m : List Char × Tree} {v : Value} (hname : Names "tool_input" m)
      (hdepth : m.2.depth ≤ inputDepth) (hv : m.2.Denotes false v) : Keeps none m (some v)
  | other {found : Option Value} {m : List Char × Tree} (hname : OtherName "tool_input" m) :
      Keeps found m found

/-- What the members make of it, one after the other. -/
inductive Intake : Option Value → List (List Char × Tree) → Option Value → Prop
  | nil {found : Option Value} : Intake found [] found
  | cons {found found' found'' : Option Value} {m : List Char × Tree}
      {ms : List (List Char × Tree)} (h : Keeps found m found') (hs : Intake found' ms found'') :
      Intake found (m :: ms) found''

def readMember (found : Option Value) (s : Bytes) : Except Fault (Option Value × Bytes) := do
  let (name, s) ← readName false s
  if name = "tool_input" then
    if found.isSome then
      .error ⟨.noName, s⟩
    else
      let (v, s) ← readValue false (fuelFor s) inputDepth s
      .ok (some v, s)
  else
    let (_, s) ← readValue true (fuelFor s) 0 s
    .ok (found, s)

theorem readMembers_succ (fuel : Nat) (first : Bool) (found : Option Value) (s : Bytes) :
    readMembers (fuel + 1) first found s = (do
      match ← readComma first 0x7D .endInObject .noObjectComma s with
      | none => .ok (found, skipClose s)
      | some s =>
        let (found, s) ← readMember found s
        readMembers fuel false found s) := by
  rw [readMembers]
  congr 1
  funext next
  cases next with
  | none => rfl
  | some s =>
    simp only [readMember, bind_assoc]
    congr 1
    funext r
    by_cases hname : r.1 = "tool_input"
    · cases found with
      | none =>
        simp only [hname, if_true, Option.isSome_none, Bool.false_eq_true, if_false, bind_assoc]
        rfl
      | some _ =>
        simp only [hname, if_true, Option.isSome_some]
        rfl
    · simp only [hname, if_false, bind_assoc]
      rfl

theorem readMember_eq_ok_iff {found found' : Option Value} {s rest : Bytes} :
    readMember found s = .ok (found', rest) ↔ ∃ name s', readName false s = .ok (name, s') ∧
      (name = "tool_input" ∧ found = none ∧
          (∃ v, readValue false (fuelFor s') inputDepth s' = .ok (v, rest) ∧ some v = found') ∨
        name ≠ "tool_input" ∧
          (∃ v, readValue true (fuelFor s') 0 s' = .ok (v, rest) ∧ found = found')) := by
  rw [readMember, bind_eq_ok_iff]
  simp only [Prod.exists]
  refine exists_congr fun name => exists_congr fun s' => and_congr_right fun _ => ?_
  by_cases hname : name = "tool_input"
  · rw [if_pos hname]
    cases found with
    | none => simp [hname, bind_eq_ok_iff]
    | some _ => simp [hname]
  · rw [if_neg hname]
    simp [hname, bind_eq_ok_iff]

/-- What is read of a member is what it makes of the tool's input. -/
theorem keeps_of_readMember {found found' : Option Value} {s rest : Bytes}
    (h : readMember found s = .ok (found', rest)) :
    ∃ m text, MemberWritten m text ∧ Keeps found m found' ∧ s = encode text ++ rest := by
  obtain ⟨name, s', hname, hcases⟩ := readMember_eq_ok_iff.mp h
  obtain ⟨b, w, hb, hw, rfl⟩ := readName_eq_ok_iff.mp hname
  have hvalue : ∀ {lenient depth v}, readValue lenient (fuelFor s') depth s' = .ok (v, rest) →
      ∃ t text, MemberWritten (b, t) text ∧ (lenient = false → t.depth ≤ depth) ∧
        t.Denotes lenient v ∧
          encode ('"' :: b ++ '"' :: w ++ [':']) ++ s' = encode text ++ rest := by
    intro lenient depth v hv
    obtain ⟨w', u, hw', ⟨t, ht, hdepth, hd⟩, rfl⟩ := (sound lenient _).value hv
    refine ⟨t, _, .mk hb.isBody hw hw' ht, hdepth, hd, ?_⟩
    simp only [encode_append, encode_cons, List.append_assoc, List.cons_append, List.nil_append,
      encode_nil]
  rcases hcases with ⟨hinput, hnone, v, hv, hsome⟩ | ⟨hother, v, hv, hsame⟩
  · obtain ⟨t, text, hm, hdepth, hd, htext⟩ := hvalue hv
    subst hinput hnone hsome
    exact ⟨(b, t), text, hm, .input hb (hdepth rfl) hd, htext⟩
  · obtain ⟨t, text, hm, -, -, htext⟩ := hvalue hv
    subst hsame
    exact ⟨(b, t), text, hm, .other ⟨_, hb, fun h => hother (String.toList_injective h)⟩, htext⟩

/-- A member is read, with all that is written of it. -/
theorem readMember_of_keeps {found found' : Option Value} {m : List Char × Tree}
    {text : List Char} {rest : Bytes} (hm : MemberWritten m text) (h : Keeps found m found')
    (hrest : Ends rest) : readMember found (encode text ++ rest) = .ok (found', rest) := by
  obtain @⟨b, w, w', u, t, hb, hw, hw', ht⟩ := hm
  have hbytes : encode ('"' :: b ++ '"' :: w ++ ':' :: w' ++ u) ++ rest =
      encode ('"' :: b ++ '"' :: w ++ [':']) ++ (encode (w' ++ u) ++ rest) := by
    simp only [encode_append, encode_cons, List.append_assoc, encode_nil, List.nil_append]
  rw [hbytes]
  refine readMember_eq_ok_iff.mpr ?_
  cases h with
  | input hname hdepth hv =>
    refine ⟨_, _, readName_eq_ok_iff.mpr ⟨b, w, hname, hw, rfl⟩, .inl ⟨rfl, rfl, _, ?_, rfl⟩⟩
    exact readValue_of_reads hw' ⟨t, ht, fun _ => hdepth, hv⟩ hrest
  | other hname =>
    obtain ⟨s, hs, hne⟩ := hname
    obtain ⟨v, hreads⟩ := ht.exists_reads
    refine ⟨String.ofList s, _, readName_eq_ok_iff.mpr ⟨b, w, ?_, hw, rfl⟩,
      .inr ⟨?_, v, readValue_of_reads hw' hreads hrest, rfl⟩⟩
    · rwa [String.toList_ofList]
    · intro heq
      exact hne (by rw [← heq, String.toList_ofList])

/-! ### Payloads -/

theorem intake_of_readMembers {fuel : Nat} {first : Bool} {found found' : Option Value}
    {s rest : Bytes} (h : readMembers fuel first found s = .ok (found', rest)) :
    ∃ ms text, Chain MemberWritten first ms text ∧ Intake found ms found' ∧
      s = encode text ++ 0x7D :: rest := by
  induction fuel generalizing first found s with
  | zero => exact absurd h (by simp [readMembers])
  | succ fuel ih =>
    rw [readMembers_succ, bind_eq_ok_iff] at h
    obtain ⟨next, hcomma, h⟩ := h
    cases next with
    | none =>
      obtain ⟨t, hskip⟩ := readComma_eq_none_iff.mp hcomma
      obtain ⟨rfl, rfl⟩ := Prod.mk.inj (Except.ok.inj h)
      obtain ⟨-, w, hw, rfl⟩ := skipBlanks_eq_cons_iff.mp hskip
      exact ⟨[], w, .done hw, .nil, by rw [skipClose_of_skipBlanks hskip]⟩
    | some s₁ =>
      obtain ⟨⟨found₁, s₂⟩, hmember, hmore⟩ := bind_eq_ok_iff.mp h
      obtain ⟨-, l, hl, rfl⟩ := (readComma_eq_some_iff (by decide)).mp hcomma
      obtain ⟨m, text, hm, hkeeps, rfl⟩ := keeps_of_readMember hmember
      obtain ⟨ms, u, hu, hintake, rfl⟩ := ih hmore
      exact ⟨m :: ms, _, .next hl hm hu, .cons hkeeps hintake,
        by simp only [encode_append, List.append_assoc]⟩

theorem readMembers_of_intake {fuel : Nat} {first : Bool} {found found' : Option Value}
    {ms : List (List Char × Tree)} {text : List Char} {rest : Bytes}
    (h : Chain MemberWritten first ms text) (hintake : Intake found ms found')
    (hfuel : (encode text).length < fuel) :
    readMembers fuel first found (encode text ++ 0x7D :: rest) = .ok (found', rest) := by
  induction h generalizing found fuel with
  | done hw =>
    obtain ⟨fuel, rfl⟩ := Nat.exists_eq_add_one_of_ne_zero (Nat.ne_of_gt (Nat.zero_lt_of_lt hfuel))
    cases hintake
    have hskip : skipBlanks (encode _ ++ 0x7D :: rest) = 0x7D :: rest :=
      skipBlanks_eq_cons_iff.mpr ⟨rfl, _, hw, rfl⟩
    rw [readMembers_succ, bind_eq_ok_iff]
    exact ⟨none, readComma_eq_none_iff.mpr ⟨rest, hskip⟩, by rw [skipClose_of_skipBlanks hskip]⟩
  | @next first m ms l text u hl hm hu ih =>
    obtain ⟨fuel, rfl⟩ := Nat.exists_eq_add_one_of_ne_zero (Nat.ne_of_gt (Nat.zero_lt_of_lt hfuel))
    simp only [encode_append, List.length_append, List.append_assoc] at hfuel ⊢
    have hopens := hm.opens (encode u ++ 0x7D :: rest)
    have hlength := length_pos_of_opens hm.opens
    cases hintake with
    | cons hkeeps hintake =>
      rw [readMembers_succ, bind_eq_ok_iff]
      refine ⟨_, (readComma_eq_some_iff (by decide)).mpr ⟨hopens, l, hl, rfl⟩, ?_⟩
      refine bind_eq_ok_iff.mpr ⟨_, readMember_of_keeps hm hkeeps (hu.ends (.inr rfl) rest), ?_⟩
      exact ih hintake (by omega)

theorem intake_some_iff {v : Value} {ms : List (List Char × Tree)} {found : Option Value} :
    Intake (some v) ms found ↔ found = some v ∧ ∀ m ∈ ms, OtherName "tool_input" m := by
  constructor
  · intro h
    generalize hv : some v = start at h
    induction h with
    | nil => exact ⟨rfl, fun m hm => absurd hm List.not_mem_nil⟩
    | cons hkeeps _ ih =>
      cases hkeeps with
      | input => exact absurd hv (by simp)
      | other hname =>
        obtain ⟨heq, hothers⟩ := ih hv
        exact ⟨heq, List.forall_mem_cons.mpr ⟨hname, hothers⟩⟩
  · rintro ⟨rfl, hothers⟩
    induction ms with
    | nil => exact .nil
    | cons m ms ih =>
      obtain ⟨hm, hms⟩ := List.forall_mem_cons.mp hothers
      exact .cons (.other hm) (ih hms)

/-- The tool's input is taken in where it stands once among other members. -/
theorem intake_none_iff {v : Value} {ms : List (List Char × Tree)} :
    Intake none ms (some v) ↔ ∃ before m after, ms = before ++ m :: after ∧
      Names "tool_input" m ∧ (∀ x ∈ before ++ after, OtherName "tool_input" x) ∧
        m.2.depth ≤ inputDepth ∧ m.2.Denotes false v := by
  induction ms with
  | nil =>
    constructor
    · intro h
      cases h
    · rintro ⟨before, m, after, hnil, -⟩
      exact absurd hnil (by simp)
  | cons x ms ih =>
    constructor
    · rintro (_ | ⟨hkeeps, hintake⟩)
      cases hkeeps with
      | input hname hdepth hv =>
        obtain ⟨heq, hothers⟩ := intake_some_iff.mp hintake
        obtain rfl := Option.some.inj heq
        exact ⟨[], x, ms, rfl, hname, hothers, hdepth, hv⟩
      | other hname =>
        obtain ⟨before, m, after, rfl, hinput, hothers, hvalue⟩ := ih.mp hintake
        exact ⟨x :: before, m, after, rfl, hinput, List.forall_mem_cons.mpr ⟨hname, hothers⟩,
          hvalue⟩
    · rintro ⟨before, m, after, heq, hname, hothers, hdepth, hv⟩
      cases before with
      | nil =>
        obtain ⟨rfl, rfl⟩ := List.cons.inj heq
        exact .cons (.input hname hdepth hv) (intake_some_iff.mpr ⟨rfl, hothers⟩)
      | cons y before =>
        obtain ⟨rfl, rfl⟩ := List.cons.inj heq
        obtain ⟨hx, hothers⟩ := List.forall_mem_cons.mp hothers
        exact .cons (.other hx) (ih.mpr ⟨before, m, after, rfl, hname, hothers, hdepth, hv⟩)

/-- The list of a payload's fields has one item. -/
theorem readFields_eq_ok_iff {s rest : Bytes} {v : Value} :
    readFields s = .ok (some v, rest) ↔ ∃ w text w', IsBlanks w ∧ Reads false inputDepth v text ∧
      IsBlanks w' ∧ s = encode (w ++ text ++ w') ++ 0x5D :: rest := by
  constructor
  · intro h
    obtain ⟨next, hcomma, h⟩ := bind_eq_ok_iff.mp h
    cases next with
    | none => exact absurd (Prod.mk.inj (Except.ok.inj h)).1 (by simp)
    | some s₁ =>
      obtain ⟨⟨v', s₂⟩, hv, h⟩ := bind_eq_ok_iff.mp h
      dsimp only at h
      split at h
      · rename_i t hskip
        obtain ⟨heq, rfl⟩ := Prod.mk.inj (Except.ok.inj h)
        obtain rfl := Option.some.inj heq
        obtain ⟨-, l, ⟨hl⟩, rfl⟩ := (readComma_eq_some_iff (by decide)).mp hcomma
        obtain ⟨w, text, hw, hreads, rfl⟩ := (sound false _).value hv
        obtain ⟨-, w', hw', rfl⟩ := skipBlanks_eq_cons_iff.mp hskip
        refine ⟨l ++ w, text, w', hl.append hw, hreads, hw', ?_⟩
        simp only [encode_append, List.append_assoc]
      · exact absurd h (by simp)
  · rintro ⟨w, text, w', hw, hreads, hw', rfl⟩
    have hopens : Opens 0x5D (encode text ++ (encode w' ++ 0x5D :: rest)) := by
      obtain ⟨t, ht, -⟩ := hreads
      exact ht.opens (.inl rfl) _
    have hends : Ends (encode w' ++ 0x5D :: rest) :=
      (Chain.done (R := Reads false inputDepth) hw').ends (.inl rfl) rest
    have hvalue := readValue_of_reads isBlanks_nil hreads hends
    have hskip : skipBlanks (encode w' ++ 0x5D :: rest) = 0x5D :: rest :=
      skipBlanks_eq_cons_iff.mpr ⟨rfl, w', hw', rfl⟩
    simp only [encode_append, List.append_assoc]
    refine bind_eq_ok_iff.mpr ⟨_, (readComma_eq_some_iff (by decide)).mpr
      ⟨hopens, w, .first hw, rfl⟩, bind_eq_ok_iff.mpr ⟨_, hvalue, ?_⟩⟩
    dsimp only
    rw [hskip]
    rfl

/-- The tree of a payload, and in it that of the tool's input: an object with one member of that
name, or a list of it alone. -/
inductive Payload : Tree → Tree → Prop
  | object {before after : List (List Char × Tree)} {m : List Char × Tree}
      (hname : Names "tool_input" m)
      (hothers : ∀ x ∈ before ++ after, OtherName "tool_input" x) :
      Payload (.object (before ++ m :: after)) m.2
  | list {t : Tree} : Payload (.array [t]) t

/-- Reads a payload, without a look at what follows it. -/
def readBody (s : Bytes) : Except Fault (Option Value × Bytes) :=
  match skipBlanks s with
  | 0x7B :: s => readMembers (s.length + 1) true none s
  | 0x5B :: s => readFields s
  | s => stopAt .noValue s

theorem readPayload_eq (s : Bytes) :
    readPayload s = (do
      let (v, rest) ← readBody s
      checkEnd rest
      .ok v) := by
  unfold readPayload
  split
  · rename_i t h
    have hbody : readBody s = readMembers (t.length + 1) true none t := by
      rw [readBody, h]
      rfl
    rw [hbody]
  · rename_i t h
    have hbody : readBody s = readFields t := by
      rw [readBody, h]
      rfl
    rw [hbody]
  · rename_i hobject hlist
    have hbody : readBody s = stopAt .noValue (skipBlanks s) := by
      unfold readBody
      split
      · rename_i h
        exact (hobject _ h).elim
      · rename_i h
        exact (hlist _ h).elim
      · rfl
    rw [hbody]

theorem readPayload_eq_ok_iff {text : List Char} {v : Value} :
    readPayload (encode text) = .ok (some v) ↔ ∃ p t : Tree, p.IsTextOf text ∧ Payload p t ∧
      t.depth ≤ inputDepth ∧ t.Denotes false v := by
  rw [readPayload_eq, bind_eq_ok_iff]
  constructor
  · rintro ⟨⟨found, rest⟩, hread, h⟩
    obtain ⟨⟨⟩, hend, h⟩ := bind_eq_ok_iff.mp h
    obtain rfl := Except.ok.inj h
    obtain ⟨w', hw', rfl⟩ := checkEnd_eq_ok_iff.mp hend
    unfold readBody at hread
    split at hread
    · rename_i s hskip
      obtain ⟨-, w, hw, htext⟩ := skipBlanks_eq_cons_iff.mp hskip
      obtain ⟨ms, inner, hms, hintake, rfl⟩ := intake_of_readMembers hread
      obtain ⟨before, m, after, rfl, hname, hothers, hdepth, hv⟩ := intake_none_iff.mp hintake
      refine ⟨_, m.2, ⟨w, '{' :: inner ++ ['}'], w', hw, .object (chain_iff_series.mp hms), hw',
        ?_⟩, .object hname hothers, hdepth, hv⟩
      refine encode_injective (htext.trans ?_)
      rw [encode_append, encode_append, List.append_assoc,
        encode_enclosed (a := 0x7B) (b := 0x7D) rfl rfl]
    · rename_i s hskip
      obtain ⟨-, w, hw, htext⟩ := skipBlanks_eq_cons_iff.mp hskip
      obtain ⟨l, inner, l', hl, ⟨t, ht, hdepth, hv⟩, hl', rfl⟩ := readFields_eq_ok_iff.mp hread
      refine ⟨.array [t], t, ⟨w, '[' :: (l ++ inner ++ l') ++ [']'], w', hw,
        .array (.last hl ht hl'), hw', ?_⟩, .list, hdepth rfl, hv⟩
      refine encode_injective (htext.trans ?_)
      rw [List.append_assoc w, encode_append w, encode_append _ w',
        encode_enclosed (a := 0x5B) (b := 0x5D) rfl rfl]
    · exact absurd hread (by simp)
  · rintro ⟨p, t, ⟨w, u, w', hw, hu, hw', rfl⟩, hpayload, hdepth, hv⟩
    refine ⟨(some v, encode w'), ?_, bind_eq_ok_iff.mpr
      ⟨(), checkEnd_eq_ok_iff.mpr ⟨w', hw', rfl⟩, rfl⟩⟩
    have hskip : skipBlanks (encode (w ++ u ++ w')) = encode u ++ encode w' := by
      rw [encode_append, encode_append, List.append_assoc, skipBlanks_append hw, hu.skipBlanks]
    rw [readBody, hskip]
    cases hpayload with
    | @object before after m hname hothers =>
      obtain ⟨inner, hms, rfl⟩ := of_objectWritten hu
      rw [encode_enclosed (a := 0x7B) (b := 0x7D) rfl rfl]
      refine readMembers_of_intake hms
        (intake_none_iff.mpr ⟨before, m, after, rfl, hname, hothers, hdepth, hv⟩) ?_
      simp only [List.length_append]
      omega
    | list =>
      obtain ⟨inner, hts, rfl⟩ := of_arrayWritten hu
      rw [encode_enclosed (a := 0x5B) (b := 0x5D) rfl rfl]
      obtain _ | ⟨⟨hl⟩, ht, ⟨hl'⟩⟩ := hts
      exact readFields_eq_ok_iff.mpr ⟨_, _, _, hl, ⟨t, ht, fun _ => hdepth, hv⟩, hl', rfl⟩

theorem Payload.exists_written {p t : Tree} (h : Payload p t) {text : List Char}
    (htext : p.IsTextOf text) : ∃ u, t.Written u := by
  obtain ⟨-, u, -, -, hu, -⟩ := htext
  cases h with
  | object =>
    cases hu with
    | object hms =>
      obtain ⟨u', hm⟩ := hms.exists_text _ (List.mem_append_right _ List.mem_cons_self)
      obtain ⟨-, -, -, ht⟩ := hm
      exact ⟨_, ht⟩
  | list =>
    cases hu with
    | array hts => exact hts.exists_text t List.mem_cons_self

/-! ### Events -/

theorem ofText_of_readPayload {raw : String} {v : Value}
    (h : readPayload (encode raw.toList) = .ok (some v)) : ofText raw = ofToolInput v := by
  rw [ofText, Bytes.ofString, h]

/-- The path is the text under its name, unless that is empty. -/
theorem filePath_ofToolInput_iff {m : List (String × Value)} {path : String} :
    (ofToolInput (.object m)).filePath = some path ↔
      m.lookup "file_path" = some (.string path) ∧ path ≠ "" := by
  simp only [ofToolInput, Value.members, Option.filter_eq_some_iff, decide_eq_true_eq]
  refine and_congr_left fun _ => ?_
  cases m.lookup "file_path" with
  | none => simp
  | some v => cases v <;> simp [Value.text?]

/-- **The tool's input is recovered as it is written, whatever stands around it.** The other members
may hold anything that the grammar allows, at any depth. -/
theorem ofText_of_payload {raw : String} {before after : List (List Char × Tree)}
    {name : List Char} {t : Tree} {m : List (String × Value)}
    (htext : (Tree.object (before ++ (name, t) :: after)).IsTextOf raw.toList)
    (hname : Names "tool_input" (name, t))
    (hothers : ∀ x ∈ before ++ after, OtherName "tool_input" x)
    (hdepth : t.depth ≤ inputDepth) (hm : t.Denotes false (.object m)) :
    (ofText raw).toolInput = m ∧
    (∀ path, (ofText raw).filePath = some path ↔
      m.lookup "file_path" = some (.string path) ∧ path ≠ "") ∧
    (m.map Prod.fst).Nodup ∧
    ∀ key v, m.lookup key = some v ↔ ∃ members x, t = .object members ∧
      IsLast (Names key) x members ∧ x.2.Denotes false v := by
  have hpayload : Payload (.object (before ++ (name, t) :: after)) t := .object hname hothers
  have hread := readPayload_eq_ok_iff.mpr ⟨_, t, htext, hpayload, hdepth, hm⟩
  obtain ⟨u, hu⟩ := hpayload.exists_written htext
  rw [ofText_of_readPayload hread]
  exact ⟨rfl, fun path => filePath_ofToolInput_iff, hm.nodup, fun key v => hm.lookup_iff hu⟩

/-- A payload with a number that is too large, an escape in a name, and a name that is repeated. -/
def repeatedPath : String :=
  "\x7b\"a\":1e400,\"tool_\\u0069nput\":\x7b\"file_path\":0,\"file_path\":\"b.ts\"\x7d\x7d"

/-- The name that is repeated keeps its last value, and the rest does no harm. -/
theorem ofText_of_payload_repeated :
    (ofText repeatedPath).toolInput = [("file_path", .string "b.ts")] ∧
      (ofText repeatedPath).filePath = some "b.ts" := by
  have hbody : ∀ {b s : List Char}, Spells true b s → IsBody b := fun h => h.isBody
  have hfile : IsBody "file_path".toList :=
    hbody (by decide +kernel : Spells true _ "file_path".toList)
  have hspells : Spells false "file_path".toList "file_path".toList := by decide +kernel
  have hpath : Spells false "b.ts".toList "b.ts".toList := by decide +kernel
  have hname : Spells false "tool_\\u0069nput".toList "tool_input".toList := by decide +kernel
  have hother : Spells false "a".toList "a".toList := by decide +kernel
  have hnil := isBlanks_nil
  have hinput := Tree.Written.object (.more hnil (.mk hfile hnil hnil (.number (n := "0".toList)
    (by decide +kernel))) hnil (.last hnil (.mk hfile hnil hnil (.string hpath.isBody)) hnil))
  have hobject := Tree.Written.object (.more hnil (.mk hother.isBody hnil hnil
    (.number (n := "1e400".toList) (by decide +kernel))) hnil
      (.last hnil (.mk hname.isBody hnil hnil hinput) hnil))
  have htext : Tree.IsTextOf _ repeatedPath.toList :=
    ⟨[], _, [], hnil, hobject, hnil, by decide +kernel⟩
  have hzero : NumberValue false "0".toList (.whole 0) :=
    .whole ⟨by decide, by decide, by decide +kernel⟩
  have hdenotes := Tree.Denotes.object (.cons (.mk (s := "file_path") hspells (.number hzero))
    (.cons (.mk (s := "file_path") hspells (.string (s := "b.ts") hpath)) .nil))
  obtain ⟨htool, hfilePath, -⟩ := @ofText_of_payload _ [_] [] _ _ _ htext hname
    (List.forall_mem_singleton.mpr ⟨_, hother, by decide⟩) (by decide) hdenotes
  exact ⟨htool, (hfilePath "b.ts").mpr ⟨rfl, by decide⟩⟩

/-- The last member with that name spells the path. -/
def SpellsPath (t : Tree) (path : String) : Prop :=
  ∃ members name body, t = .object members ∧
    IsLast (Names "file_path") (name, .string body) members ∧ Spells false body path.toList

theorem spellsPath_iff {t : Tree} {u : List Char} {m : List (String × Value)} (hu : t.Written u)
    (hm : t.Denotes false (.object m)) {path : String} :
    SpellsPath t path ↔ m.lookup "file_path" = some (.string path) := by
  rw [hm.lookup_iff hu]
  constructor
  · rintro ⟨members, name, body, ht, hlast, hbody⟩
    exact ⟨members, _, ht, hlast, .string hbody⟩
  · rintro ⟨members, ⟨name, x⟩, ht, hlast, hx⟩
    cases hx with
    | string hbody => exact ⟨members, name, _, ht, hlast, hbody⟩

/-- **Nothing but a payload says anything.** Any text that is none is the empty event. -/
theorem ofText_eq_iff {raw : String} {e : Event} (he : e ≠ .empty) :
    ofText raw = e ↔ ∃ p t m, Tree.IsTextOf p raw.toList ∧ Payload p t ∧ t.depth ≤ inputDepth ∧
      t.Denotes false (.object m) ∧ e.toolInput = m ∧
        ∀ path, e.filePath = some path ↔ SpellsPath t path ∧ path ≠ "" := by
  constructor
  · rintro rfl
    rw [ofText, Bytes.ofString] at he ⊢
    cases hread : readPayload (encode raw.toList) with
    | error f =>
      rw [hread] at he
      exact absurd rfl he
    | ok found =>
      rw [hread] at he
      cases found with
      | none => exact absurd rfl he
      | some v =>
        obtain ⟨p, t, htext, hpayload, hdepth, hv⟩ := readPayload_eq_ok_iff.mp hread
        cases v with
        | object m =>
          obtain ⟨u, hu⟩ := hpayload.exists_written htext
          refine ⟨p, t, m, htext, hpayload, hdepth, hv, rfl, fun path => ?_⟩
          rw [spellsPath_iff hu hv]
          exact filePath_ofToolInput_iff
        | _ => exact absurd rfl he
  · rintro ⟨p, t, m, htext, hpayload, hdepth, hm, hinput, hpath⟩
    obtain ⟨u, hu⟩ := hpayload.exists_written htext
    rw [ofText_of_readPayload (readPayload_eq_ok_iff.mpr ⟨p, t, htext, hpayload, hdepth, hm⟩)]
    obtain ⟨filePath, toolInput⟩ := e
    subst hinput
    have hsame : (ofToolInput (.object toolInput)).filePath = filePath := by
      refine Option.ext fun path => ?_
      have hspells := hpath path
      rw [spellsPath_iff hu hm] at hspells
      exact filePath_ofToolInput_iff.trans hspells.symm
    rw [← hsame]
    rfl

/-- A list of one item names a file, and is no object. -/
theorem ofText_eq_iff_list :
    (ofText "[\x7b\"file_path\":\"a.ts\"\x7d]").filePath = some "a.ts" ∧
      (∃ p t, Tree.IsTextOf p "[\x7b\"file_path\":\"a.ts\"\x7d]".toList ∧ Payload p t ∧
        SpellsPath t "a.ts") ∧
      ∀ ms, ¬ (Tree.object ms).IsTextOf "[\x7b\"file_path\":\"a.ts\"\x7d]".toList := by
  have hpath : (ofText "[\x7b\"file_path\":\"a.ts\"\x7d]").filePath = some "a.ts" := by
    decide +kernel
  have hne : ofText "[\x7b\"file_path\":\"a.ts\"\x7d]" ≠ .empty := by
    intro h
    rw [h] at hpath
    exact absurd hpath (by decide)
  obtain ⟨p, t, m, htext, hpayload, -, -, -, hspells⟩ := (ofText_eq_iff hne).mp rfl
  refine ⟨hpath, ⟨p, t, htext, hpayload, ((hspells _).mp hpath).1⟩, ?_⟩
  rintro ms ⟨w, u, w', hw, hu, -, heq⟩
  obtain ⟨inner, -, rfl⟩ := of_objectWritten hu
  have hhead := congrArg List.head? heq
  cases w with
  | nil => exact absurd hhead (by simp)
  | cons c w =>
    have hc := hw c List.mem_cons_self
    obtain rfl : '[' = c := Option.some.inj hhead
    exact absurd hc (by decide)

end QualityGate.Event
