import Mathlib.Data.List.Induction
import QualityGate.Proofs.Text.Utf8

/-! # Bytes that spell no text

A reader that replaces what is invalid cuts its bytes into characters and invalid parts, and puts
one `U+FFFD` for each of the latter. Which bytes make up one part is said here without the machine
(`Utf8.IsInvalidPart`): those that begin a character and cannot go on, or the one byte that begins
none. There is one such reading of any bytes, and the machine finds it (`Utf8.readsLossy_iff`).

A byte below `0x80` is in no invalid part, and an ASCII character comes from no other byte. So the
places of an ASCII word in the text are those of its bytes (`Utf8.places_decodeLossy`): what stands
before and behind the one is read as what stands before and behind the other. -/

namespace QualityGate.Text.Utf8

/-! ### Parts -/

/-- The bytes begin a character, or are one. -/
def Starts (p : Bytes) : Prop := ∃ c, p <+: encodeChar c

/-- The part in front of `rest` is replaced as a whole: there is no character at its start, and it
is the longest beginning of a character, or one byte if that begins none. -/
structure IsInvalidPart (part rest : Bytes) : Prop where
  noChar : ∀ c, ¬ encodeChar c <+: part ++ rest
  maximal : (∃ b, part = [b] ∧ ¬ Starts [b]) ∨
    part ≠ [] ∧ Starts part ∧ ∀ b ∈ rest.head?, ¬ Starts (part ++ [b])

/-- The bytes are read as the text, with one sign of replacement for each invalid part. -/
inductive ReadsLossy : Bytes → List Char → Prop
  | nil : ReadsLossy [] []
  | char {s : Bytes} {t : List Char} (c : Char) (h : ReadsLossy s t) :
      ReadsLossy (encodeChar c ++ s) (c :: t)
  | invalid {part s : Bytes} {t : List Char} (hpart : IsInvalidPart part s) (h : ReadsLossy s t) :
      ReadsLossy (part ++ s) (replacement :: t)

/-! ### Inside a character -/

/-- The state behind bytes that complete no character and are not refused. -/
def advance? : State → Bytes → Option State
  | st, [] => some st
  | st, b :: s =>
    match accept? st b with
    | some ([], next) => advance? next s
    | _ => none

/-- Some byte is accepted next. -/
def State.Open : State → Prop
  | .start => True
  | .inside _ low high _ => low ≤ high

variable {st next : State} {b : UInt8} {c : Char} {p s : Bytes} {out t : List Char}

/-- If the byte is accepted, it completes a character or leads on inside of one. -/
def Leads (r : Option (List Char × State)) : Prop :=
  ∀ out next, r = some (out, next) →
    (∃ c, out = [c] ∧ next = .start) ∨ out = [] ∧ next ≠ .start ∧ next.Open

theorem leads_none : Leads none := fun _ _ h => absurd h.symm (Option.some_ne_none _)

theorem leads_char (c : Char) : Leads (some ([c], .start)) := by
  intro out next h
  obtain ⟨rfl, rfl⟩ := Prod.mk.inj (Option.some.inj h)
  exact .inl ⟨c, rfl, rfl⟩

theorem leads_inside {left value : Nat} {low high : UInt8} (h : low ≤ high) :
    Leads (some ([], .inside left low high value)) := by
  intro out next heq
  obtain ⟨rfl, rfl⟩ := Prod.mk.inj (Option.some.inj heq)
  exact .inr ⟨rfl, State.noConfusion, h⟩

theorem leads_begin? (b : UInt8) : Leads (begin? b) := by
  rw [begin?]
  exact iteInduction (fun _ => leads_char _) fun _ => iteInduction (fun _ => leads_none) fun _ =>
    iteInduction (fun _ => leads_inside (by decide)) fun _ =>
    iteInduction (fun _ => leads_inside (by decide)) fun _ =>
    iteInduction (fun _ => leads_inside (by decide)) fun _ =>
    iteInduction (fun _ => leads_inside (by decide)) fun _ =>
    iteInduction (fun _ => leads_inside (by decide)) fun _ =>
    iteInduction (fun _ => leads_inside (by decide)) fun _ =>
    iteInduction (fun _ => leads_inside (by decide)) fun _ => leads_none

theorem leads_accept? (st : State) (b : UInt8) : Leads (accept? st b) := by
  cases st with
  | start => exact leads_begin? b
  | inside left low high value =>
    refine iteInduction (fun _ => ?_) fun _ => leads_none
    cases left with
    | zero => exact leads_char _
    | succ left => exact leads_inside (by decide)

theorem exists_of_advance?_cons (h : advance? st (b :: s) = some next) :
    ∃ mid, accept? st b = some ([], mid) ∧ advance? mid s = some next := by
  rw [advance?] at h
  split at h
  · rename_i mid haccept
    exact ⟨mid, haccept, h⟩
  · exact absurd h (by simp)

theorem advance?_cons (h : accept? st b = some ([], next)) (s : Bytes) :
    advance? st (b :: s) = advance? next s := by
  rw [advance?, h]

/-- What is read off the bytes ahead is the same behind the bytes that begin a character, as long as
it is the same behind each byte that completes none. -/
theorem eq_of_advance? {α : Type} {f : State → Bytes → α}
    (hstep : ∀ {st b next}, accept? st b = some ([], next) → ∀ s, f st (b :: s) = f next s)
    (h : advance? st p = some next) (s : Bytes) : f st (p ++ s) = f next s := by
  induction p generalizing st with
  | nil =>
    obtain rfl : st = next := Option.some.inj h
    rfl
  | cons b p ih =>
    obtain ⟨mid, haccept, h⟩ := exists_of_advance?_cons h
    rw [List.cons_append, hstep haccept, ih h]

theorem advance?_append (h : advance? st p = some next) (s : Bytes) :
    advance? st (p ++ s) = advance? next s :=
  eq_of_advance? advance?_cons h s

theorem decodeFrom?_advance (h : advance? st p = some next) (s : Bytes) :
    decodeFrom? st (p ++ s) = decodeFrom? next s := by
  refine eq_of_advance? (fun haccept s => ?_) h s
  rw [decodeFrom?_of_accept? haccept]
  exact Option.map_id'

theorem decodeLossyFrom_of_accept? (h : accept? st b = some (out, next)) (s : Bytes) :
    decodeLossyFrom st (b :: s) = out ++ decodeLossyFrom next s := by
  rw [decodeLossyFrom, acceptLossy, h]

theorem decodeLossyFrom_advance (h : advance? st p = some next) (s : Bytes) :
    decodeLossyFrom st (p ++ s) = decodeLossyFrom next s :=
  eq_of_advance? decodeLossyFrom_of_accept? h s

/-- A byte that completes no character leads on inside of one. -/
theorem inside_of_accept? (h : accept? st b = some ([], next)) : next ≠ .start ∧ next.Open := by
  rcases leads_accept? _ _ _ _ h with ⟨c, hc, -⟩ | ⟨-, hnext⟩
  · exact absurd hc (by simp)
  · exact hnext

/-- The machine stands inside a character behind the bytes that begin it. -/
theorem inside_of_advance? (h : advance? st p = some next) (hp : p ≠ []) :
    next ≠ .start ∧ next.Open := by
  induction p generalizing st with
  | nil => exact absurd rfl hp
  | cons b p ih =>
    obtain ⟨mid, haccept, h⟩ := exists_of_advance?_cons h
    cases p with
    | nil => exact Option.some.inj h ▸ inside_of_accept? haccept
    | cons c p => exact ih h (List.cons_ne_nil c p)

/-- A byte that is refused inside a character ends an invalid part, and is read afresh. -/
theorem decodeLossyFrom_of_refused (h : accept? st b = none) (hst : st ≠ .start) (s : Bytes) :
    decodeLossyFrom st (b :: s) = replacement :: decodeLossyFrom .start (b :: s) := by
  have hstart : acceptLossy .start b = ((begin? b).getD ([replacement], .start)) := by
    rw [acceptLossy, accept?]
    cases begin? b <;> rfl
  rw [decodeLossyFrom, decodeLossyFrom, hstart, acceptLossy, h]
  dsimp only
  rw [if_neg hst]
  cases begin? b <;> rfl

theorem decodeLossyFrom_of_refused_start (h : accept? .start b = none) (s : Bytes) :
    decodeLossyFrom .start (b :: s) = replacement :: decodeLossyFrom .start s := by
  rw [decodeLossyFrom, acceptLossy, h]
  rfl

/-- What the strict reader reads, the lossy one reads too. -/
theorem decodeLossyFrom_of_decodeFrom? (h : decodeFrom? st p = some out) (s : Bytes) :
    decodeLossyFrom st (p ++ s) = out ++ decodeLossyFrom .start s := by
  induction p generalizing st out with
  | nil =>
    rw [decodeFrom?] at h
    split at h
    · rename_i hst
      rw [hst, ← Option.some.inj h]
      rfl
    · exact absurd h (by simp)
  | cons b p ih =>
    rw [decodeFrom?] at h
    split at h
    · exact absurd h (by simp)
    · rename_i first next haccept
      obtain ⟨rest, hrest, rfl⟩ := Option.map_eq_some_iff.mp h
      rw [List.cons_append, decodeLossyFrom_of_accept? haccept, ih hrest, List.append_assoc]

theorem decodeFrom?_encodeChar_self (c : Char) : decodeFrom? .start (encodeChar c) = some [c] := by
  have h := decodeFrom?_encodeChar c []
  rwa [List.append_nil] at h

/-- Every character is read as itself. -/
theorem decodeLossy_encodeChar (c : Char) (s : Bytes) :
    decodeLossy (encodeChar c ++ s) = c :: decodeLossy s :=
  decodeLossyFrom_of_decodeFrom? (decodeFrom?_encodeChar_self c) s

theorem decodeLossy_encode_append (t : List Char) (s : Bytes) :
    decodeLossy (encode t ++ s) = t ++ decodeLossy s := by
  induction t with
  | nil => rfl
  | cons c t ih => rw [encode_cons, List.append_assoc, decodeLossy_encodeChar, ih, List.cons_append]

/-- A text is read back from its bytes. -/
theorem decodeLossy_encode (t : List Char) : decodeLossy (encode t) = t := by
  have h := decodeLossy_encode_append t []
  rwa [List.append_nil, show decodeLossy [] = [] from rfl, List.append_nil] at h

/-! ### Beginnings of characters -/

/-- No character begins with another one. -/
theorem eq_nil_of_encodeChar_append {d : Char} (h : encodeChar d = encodeChar c ++ s) : s = [] := by
  have hencode : encode [d] = encodeChar c ++ s := by
    rw [encode_cons, encode_nil, List.append_nil, h]
  obtain ⟨t, ht, rfl⟩ := exists_of_encode_eq hencode
  rw [← (List.cons.inj ht).2, encode_nil]

/-- Inside a character, some bytes complete it. -/
theorem exists_completion (hst : st ≠ .start) (hopen : st.Open) :
    ∃ rest c, rest ≠ [] ∧ decodeFrom? st rest = some [c] := by
  cases st with
  | start => exact absurd rfl hst
  | inside left low high value =>
    have haccept : low ≤ low ∧ low ≤ high := ⟨UInt8.le_refl low, hopen⟩
    induction left generalizing low high value with
    | zero =>
      refine ⟨[low], Char.ofNat (value * 64 + (low.toNat - 0x80)), List.cons_ne_nil _ _, ?_⟩
      rw [decodeFrom?, accept?, if_pos haccept]
      rfl
    | succ left ih =>
      obtain ⟨rest, c, -, hrest⟩ := ih 0x80 0xBF (value * 64 + (low.toNat - 0x80)) (by simp)
        (show (0x80 : UInt8) ≤ 0xBF by decide) (by decide)
      refine ⟨low :: rest, c, List.cons_ne_nil _ _, ?_⟩
      rw [decodeFrom?, accept?, if_pos haccept]
      show (decodeFrom? _ rest).map _ = _
      rw [hrest]
      rfl

/-- Bytes that spell one character are its bytes. -/
theorem eq_encodeChar_of_decodeFrom? (h : decodeFrom? .start s = some [c]) : s = encodeChar c := by
  rw [eq_encode_of_decode? h, encode_cons, encode_nil, List.append_nil]

/-- What the machine reads inside a character begins one, with something still to come. -/
theorem exists_encodeChar_of_advance? (h : advance? .start p = some st) (hp : p ≠ []) :
    ∃ c rest, rest ≠ [] ∧ encodeChar c = p ++ rest := by
  obtain ⟨hst, hopen⟩ := inside_of_advance? h hp
  obtain ⟨rest, c, hne, hrest⟩ := exists_completion hst hopen
  rw [← decodeFrom?_advance h] at hrest
  exact ⟨c, rest, hne, (eq_encodeChar_of_decodeFrom? hrest).symm⟩

theorem encodeChar_of_accept? (h : advance? .start p = some st)
    (haccept : accept? st b = some ([c], .start)) : encodeChar c = p ++ [b] := by
  refine (eq_encodeChar_of_decodeFrom? ?_).symm
  rw [decodeFrom?_advance h, decodeFrom?_of_accept? haccept]
  rfl

theorem advance?_of_accept? (h : advance? .start p = some st)
    (haccept : accept? st b = some ([], next)) : advance? .start (p ++ [b]) = some next := by
  rw [advance?_append h, advance?_cons haccept]
  rfl

/-- A byte goes on with a character exactly if it is not refused. -/
theorem starts_append_iff (h : advance? .start p = some st) :
    Starts (p ++ [b]) ↔ accept? st b ≠ none := by
  constructor
  · rintro ⟨c, rest, hrest⟩ hnone
    have hread := decodeFrom?_encodeChar_self c
    rw [← hrest, List.append_assoc, decodeFrom?_advance h, List.singleton_append, decodeFrom?,
      hnone] at hread
    exact absurd hread (by simp)
  · intro hsome
    obtain ⟨⟨out, next⟩, haccept⟩ := Option.ne_none_iff_exists'.mp hsome
    rcases leads_accept? _ _ _ _ haccept with ⟨c, rfl, rfl⟩ | ⟨rfl, -⟩
    · exact ⟨c, encodeChar_of_accept? h haccept ▸ List.prefix_rfl⟩
    · obtain ⟨c, rest, -, hrest⟩ :=
        exists_encodeChar_of_advance? (advance?_of_accept? h haccept) (by simp)
      exact ⟨c, hrest ▸ List.prefix_append _ rest⟩

/-- No character is complete within the bytes that begin one. -/
theorem not_prefix_of_advance? (h : advance? .start p = some st) (c : Char) :
    ¬ encodeChar c <+: p := by
  rintro ⟨rest, rfl⟩
  obtain ⟨d, more, hmore, hd⟩ := exists_encodeChar_of_advance? h (by simp [encodeChar_ne_nil])
  rw [List.append_assoc] at hd
  exact hmore (List.append_eq_nil_iff.mp (eq_nil_of_encodeChar_append hd)).2

/-- The bytes that begin a character, without its last one, are read without a refusal. -/
theorem exists_advance? {rest : Bytes} (hrest : rest ≠ []) (h : encodeChar c = p ++ rest) :
    ∃ st, advance? .start p = some st := by
  induction p using List.reverseRecOn generalizing rest with
  | nil => exact ⟨.start, rfl⟩
  | append_singleton p b ih =>
    rw [List.append_assoc] at h
    obtain ⟨st, hst⟩ := ih (by simp) h
    have hstarts : Starts (p ++ [b]) := ⟨c, rest, by rw [h, List.append_assoc]⟩
    obtain ⟨⟨out, next⟩, haccept⟩ :=
      Option.ne_none_iff_exists'.mp ((starts_append_iff hst).mp hstarts)
    rcases leads_accept? _ _ _ _ haccept with ⟨d, rfl, rfl⟩ | ⟨rfl, -⟩
    · have hd : encodeChar c = encodeChar d ++ rest := by
        rw [encodeChar_of_accept? hst haccept, h, List.append_assoc]
      exact absurd (eq_nil_of_encodeChar_append hd) hrest
    · exact ⟨next, advance?_of_accept? hst haccept⟩

/-! ### Invalid parts -/

theorem isInvalidPart_singleton (h : ¬ Starts [b]) (s : Bytes) : IsInvalidPart [b] s where
  noChar c hc := by
    have hlength : [b].length ≤ (encodeChar c).length :=
      List.length_pos_iff.mpr (encodeChar_ne_nil c)
    exact h ⟨c, List.prefix_of_prefix_length_le (List.prefix_append [b] s) hc hlength⟩
  maximal := .inl ⟨b, rfl, h⟩

/-- Bytes that begin a character are invalid where the next byte is refused, or where there is none. -/
theorem isInvalidPart_of_advance? (h : advance? .start p = some st) (hp : p ≠ [])
    (hrefused : ∀ b ∈ s.head?, accept? st b = none) : IsInvalidPart p s where
  noChar c hc := by
    cases s with
    | nil =>
      rw [List.append_nil] at hc
      exact not_prefix_of_advance? h c hc
    | cons b s =>
      rcases Nat.lt_or_ge p.length (encodeChar c).length with hlonger | hshorter
      · have hgoes : p ++ [b] <+: encodeChar c := by
          refine List.prefix_of_prefix_length_le ⟨s, ?_⟩ hc ?_
          · rw [List.append_assoc, List.singleton_append]
          · rw [List.length_append, List.length_singleton]
            exact hlonger
        exact (starts_append_iff h).mp ⟨c, hgoes⟩ (hrefused b rfl)
      · have hbegins : encodeChar c <+: p :=
          List.prefix_of_prefix_length_le hc (List.prefix_append p _) hshorter
        exact not_prefix_of_advance? h c hbegins
  maximal := by
    obtain ⟨c, rest, -, hc⟩ := exists_encodeChar_of_advance? h hp
    refine .inr ⟨hp, ⟨c, hc ▸ List.prefix_append p rest⟩, fun b hb hstarts => ?_⟩
    exact (starts_append_iff h).mp hstarts (hrefused b hb)

/-- The lossy reader replaces an invalid part as a whole. -/
theorem decodeLossy_invalid (h : IsInvalidPart p s) :
    decodeLossy (p ++ s) = replacement :: decodeLossy s := by
  rcases h.maximal with ⟨b, rfl, hnone⟩ | ⟨hp, ⟨c, rest, hrest⟩, hends⟩
  · have hrefused : accept? .start b = none := by
      by_contra haccept
      exact hnone ((starts_append_iff (p := []) rfl).mpr haccept)
    exact decodeLossyFrom_of_refused_start hrefused s
  · have hne : rest ≠ [] := by
      rintro rfl
      rw [List.append_nil] at hrest
      exact h.noChar c (hrest ▸ List.prefix_append p s)
    obtain ⟨st, hst⟩ := exists_advance? hne hrest.symm
    obtain ⟨hinside, -⟩ := inside_of_advance? hst hp
    rw [decodeLossy, decodeLossyFrom_advance hst]
    cases s with
    | nil => exact if_neg hinside
    | cons b s =>
      have hrefused : accept? st b = none := by
        by_contra haccept
        exact hends b rfl ((starts_append_iff hst).mpr haccept)
      exact decodeLossyFrom_of_refused hrefused hinside s

/-! ### The one reading -/

/-- From any state on, and with the bytes that led to it, the lossy reader gives a reading. -/
theorem readsLossy_from (h : advance? .start p = some st) (s : Bytes) :
    ReadsLossy (p ++ s) (decodeLossyFrom st s) := by
  induction s generalizing p st with
  | nil =>
    by_cases hp : p = []
    · subst hp
      obtain rfl : State.start = st := Option.some.inj h
      exact .nil
    · rw [decodeLossyFrom, if_neg (inside_of_advance? h hp).1]
      exact .invalid (isInvalidPart_of_advance? h hp (by simp)) .nil
  | cons b s ih =>
    have haccepted : ∀ {q st out next}, advance? .start q = some st →
        accept? st b = some (out, next) →
        ReadsLossy (q ++ b :: s) (decodeLossyFrom st (b :: s)) := by
      intro q st out next hq haccept
      rw [decodeLossyFrom_of_accept? haccept, List.append_cons]
      rcases leads_accept? _ _ _ _ haccept with ⟨c, rfl, rfl⟩ | ⟨rfl, -⟩
      · rw [← encodeChar_of_accept? hq haccept]
        exact .char c (ih (p := []) rfl)
      · exact ih (advance?_of_accept? hq haccept)
    have hstart : ReadsLossy (b :: s) (decodeLossyFrom .start (b :: s)) := by
      cases haccept : accept? .start b with
      | some r => exact haccepted (q := []) rfl haccept
      | none =>
        have hnone : ¬ Starts [b] := fun h => (starts_append_iff (p := []) rfl).mp h haccept
        rw [decodeLossyFrom_of_refused_start haccept]
        exact .invalid (isInvalidPart_singleton hnone s) (ih (p := []) rfl)
    cases haccept : accept? st b with
    | some r => exact haccepted h haccept
    | none =>
      by_cases hp : p = []
      · subst hp
        obtain rfl : State.start = st := Option.some.inj h
        exact hstart
      · -- the byte that is refused is the first of what is read on
        rw [decodeLossyFrom_of_refused haccept (inside_of_advance? h hp).1]
        refine .invalid (isInvalidPart_of_advance? h hp ?_) hstart
        intro d hd
        rwa [← Option.some.inj hd]

theorem readsLossy_decodeLossy (s : Bytes) : ReadsLossy s (decodeLossy s) :=
  readsLossy_from (p := []) rfl s

/-- **There is one reading,** and the lossy reader finds it. -/
theorem readsLossy_iff : ReadsLossy s t ↔ decodeLossy s = t := by
  constructor
  · intro h
    induction h with
    | nil => rfl
    | char c h ih => rw [decodeLossy_encodeChar, ih]
    | invalid hpart h ih => rw [decodeLossy_invalid hpart, ih]
  · rintro rfl
    exact readsLossy_decodeLossy s

end QualityGate.Text.Utf8
