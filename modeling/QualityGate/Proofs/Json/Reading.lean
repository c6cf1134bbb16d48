import Mathlib.Data.List.Forall2
import QualityGate.Proofs.Json.Series
import QualityGate.Proofs.Json.Strings

/-! # Reading values

The reader agrees with the grammar. What it takes from the bytes is the text of a tree that stands
for the value (`sound`), and it takes every such text, given fuel for it, if something ends the value
there (`complete`). Each of the two is an induction on the fuel, over values, items and members at
once. For a whole text this is `read_eq_ok_iff`. -/

namespace QualityGate.Json

open Text.Utf8 (encode encodeChar encode_nil encode_cons encode_append decode?_encode
  encode_injective)

/-! ### Words and names -/

theorem readWord_eq_ok_iff {v v' : Value} {letters s rest : Bytes} :
    readWord v letters s = .ok (v', rest) ↔ v' = v ∧ s = letters ++ rest := by
  induction letters generalizing s with
  | nil =>
    rw [readWord]
    constructor
    · intro h
      obtain ⟨rfl, rfl⟩ := Prod.mk.inj (Except.ok.inj h)
      exact ⟨rfl, rfl⟩
    · rintro ⟨rfl, rfl⟩
      rfl
  | cons l ls ih =>
    cases s with
    | nil => simp [readWord]
    | cons b s =>
      rw [readWord]
      by_cases hb : b = l
      · simp [hb, ih]
      · simp [hb]

theorem readColon_eq_ok_iff {s rest : Bytes} :
    readColon s = .ok rest ↔ ∃ w, IsBlanks w ∧ s = encode w ++ 0x3A :: rest := by
  have hskip : readColon s = .ok rest ↔ skipBlanks s = 0x3A :: rest := by
    rw [readColon]
    split
    · rename_i h
      simp [h]
    · rename_i t h
      simp [h]
    · rename_i b t hne h
      have hb : b ≠ 0x3A := hne
      simp [h, hb]
  rw [hskip, skipBlanks_eq_cons_iff]
  exact and_iff_right rfl

theorem readName_eq_ok_iff {lenient : Bool} {s rest : Bytes} {name : String} :
    readName lenient s = .ok (name, rest) ↔
      ∃ b w, Spells lenient b name.toList ∧ IsBlanks w ∧
        s = encode ('"' :: b ++ '"' :: w ++ [':']) ++ rest := by
  have hbytes : ∀ b w, encode ('"' :: b ++ '"' :: w ++ [':']) ++ rest =
      0x22 :: (encode b ++ 0x22 :: (encode w ++ 0x3A :: rest)) := by
    intro b w
    simp only [encode_append, encode_cons, List.append_assoc, encode_nil]
    rfl
  constructor
  · intro h
    unfold readName at h
    split at h
    · obtain ⟨⟨text, s'⟩, hstring, h⟩ := bind_eq_ok_iff.mp h
      obtain ⟨s'', hcolon, h⟩ := bind_eq_ok_iff.mp h
      obtain ⟨rfl, rfl⟩ := Prod.mk.inj (Except.ok.inj h)
      obtain ⟨b, hb, rfl⟩ := readString_eq_ok_iff.mp hstring
      obtain ⟨w, hw, rfl⟩ := readColon_eq_ok_iff.mp hcolon
      exact ⟨b, w, hb, hw, (hbytes b w).symm⟩
    · exact absurd h (by simp)
  · rintro ⟨b, w, hb, hw, rfl⟩
    rw [hbytes b w]
    exact bind_eq_ok_iff.mpr ⟨_, readString_eq_ok_iff.mpr ⟨b, hb, rfl⟩,
      bind_eq_ok_iff.mpr ⟨_, readColon_eq_ok_iff.mpr ⟨w, hw, rfl⟩, rfl⟩⟩

/-! ### One step of the reader -/

def readMember (lenient : Bool) (fuel depth : Nat) (s : Bytes) :
    Except Fault ((String × Value) × Bytes) := do
  let (name, s) ← readName lenient s
  let (v, s) ← readValue lenient fuel depth s
  .ok ((name, v), s)

theorem readItems_succ (lenient : Bool) (fuel depth : Nat) (first : Bool) (s : Bytes) :
    readItems lenient (fuel + 1) depth first s =
      readElements (readValue lenient fuel depth) (readItems lenient fuel depth false) 0x5D
        .endInList .noListComma first s := by
  rw [readItems]
  rfl

theorem readMembers_succ (lenient : Bool) (fuel depth : Nat) (first : Bool) (s : Bytes) :
    readMembers lenient (fuel + 1) depth first s =
      readElements (readMember lenient fuel depth) (readMembers lenient fuel depth false) 0x7D
        .endInObject .noObjectComma first s := by
  rw [readMembers, readElements]
  congr 1
  funext next
  cases next with
  | none => rfl
  | some s =>
    simp only [readMember, bind_assoc]
    rfl

/-- What a value can be, seen from its first byte: what is left to the other readers. -/
inductive ValueAt (lenient : Bool) (fuel depth : Nat) : Bytes → Value → Bytes → Prop
  | null {rest : Bytes} : ValueAt lenient fuel depth (encode "null".toList ++ rest) .null rest
  | true {rest : Bytes} :
      ValueAt lenient fuel depth (encode "true".toList ++ rest) (.bool true) rest
  | false {rest : Bytes} :
      ValueAt lenient fuel depth (encode "false".toList ++ rest) (.bool false) rest
  | string {s rest : Bytes} {text : String} (h : readString lenient s = .ok (text, rest)) :
      ValueAt lenient fuel depth (0x22 :: s) (.string text) rest
  | number {b : UInt8} {s rest : Bytes} {n : Number} (hb : b = 0x2D ∨ isDigit b = true)
      (h : readNumber lenient (b :: s) = .ok (n, rest)) :
      ValueAt lenient fuel depth (b :: s) (.number n) rest
  | array {s rest : Bytes} {vs : List Value} (hdepth : lenient = false → 0 < depth)
      (h : readItems lenient fuel (depth - 1) true s = .ok (vs, rest)) :
      ValueAt lenient fuel depth (0x5B :: s) (.array vs) rest
  | object {s rest : Bytes} {ms : List (String × Value)} (hdepth : lenient = false → 0 < depth)
      (h : readMembers lenient fuel (depth - 1) true s = .ok (ms, rest)) :
      ValueAt lenient fuel depth (0x7B :: s) (.object (lastOfEach ms)) rest

section

variable {lenient : Bool} {fuel depth : Nat} {s rest : Bytes} {v : Value}

theorem valueAt_of_readValue (h : readValue lenient (fuel + 1) depth s = .ok (v, rest)) :
    ValueAt lenient fuel depth (skipBlanks s) v rest := by
  rw [readValue] at h
  split at h
  · exact absurd h (by simp)
  rename_i b t hskip
  rw [hskip]
  by_cases hnull : b = 0x6E
  · rw [if_pos hnull] at h
    obtain ⟨rfl, rfl⟩ := readWord_eq_ok_iff.mp h
    subst hnull
    exact .null
  rw [if_neg hnull] at h
  by_cases htrue : b = 0x74
  · rw [if_pos htrue] at h
    obtain ⟨rfl, rfl⟩ := readWord_eq_ok_iff.mp h
    subst htrue
    exact .true
  rw [if_neg htrue] at h
  by_cases hfalse : b = 0x66
  · rw [if_pos hfalse] at h
    obtain ⟨rfl, rfl⟩ := readWord_eq_ok_iff.mp h
    subst hfalse
    exact .false
  rw [if_neg hfalse] at h
  by_cases hquote : b = 0x22
  · rw [if_pos hquote] at h
    obtain ⟨⟨text, s'⟩, hstring, h⟩ := bind_eq_ok_iff.mp h
    obtain ⟨rfl, rfl⟩ := Prod.mk.inj (Except.ok.inj h)
    subst hquote
    exact .string hstring
  rw [if_neg hquote] at h
  by_cases hnumber : b = 0x2D ∨ isDigit b = true
  · rw [if_pos hnumber] at h
    obtain ⟨⟨n, s'⟩, hn, h⟩ := bind_eq_ok_iff.mp h
    obtain ⟨rfl, rfl⟩ := Prod.mk.inj (Except.ok.inj h)
    exact .number hnumber hn
  rw [if_neg hnumber] at h
  by_cases hopen : b = 0x5B ∨ b = 0x7B
  · rw [if_pos hopen] at h
    split at h
    · exact absurd h (by simp)
    rename_i hlimit
    have hdepth : lenient = false → 0 < depth := by
      rintro rfl
      simpa [Nat.pos_iff_ne_zero] using hlimit
    by_cases hlist : b = 0x5B
    · rw [if_pos hlist] at h
      obtain ⟨⟨vs, s'⟩, hitems, h⟩ := bind_eq_ok_iff.mp h
      obtain ⟨rfl, rfl⟩ := Prod.mk.inj (Except.ok.inj h)
      subst hlist
      exact .array hdepth hitems
    · rw [if_neg hlist] at h
      obtain ⟨⟨ms, s'⟩, hmembers, h⟩ := bind_eq_ok_iff.mp h
      obtain ⟨rfl, rfl⟩ := Prod.mk.inj (Except.ok.inj h)
      obtain rfl := hopen.resolve_left hlist
      exact .object hdepth hmembers
  · rw [if_neg hopen] at h
    exact absurd h (by simp)

theorem readValue_of_valueAt (h : ValueAt lenient fuel depth (skipBlanks s) v rest) :
    readValue lenient (fuel + 1) depth s = .ok (v, rest) := by
  rw [readValue]
  generalize skipBlanks s = t at h ⊢
  have hlimit : (lenient = false → 0 < depth) → ¬ (!lenient && decide (depth = 0)) = true := by
    intro hdepth hlimit
    simp only [Bool.and_eq_true, Bool.not_eq_true', decide_eq_true_eq] at hlimit
    exact absurd hlimit.2 (Nat.ne_of_gt (hdepth hlimit.1))
  cases h with
  | null => exact readWord_eq_ok_iff.mpr ⟨rfl, rfl⟩
  | true => exact readWord_eq_ok_iff.mpr ⟨rfl, rfl⟩
  | false => exact readWord_eq_ok_iff.mpr ⟨rfl, rfl⟩
  | string h => exact bind_eq_ok_iff.mpr ⟨_, h, rfl⟩
  | @number b s rest n hb h =>
    -- The byte is asked about after the letters and the quote, and is none of them.
    have hne : ∀ x : UInt8, x ≠ 0x2D → isDigit x = false → b ≠ x := by
      rintro x hminus hdigit rfl
      rcases hb with rfl | hb
      · exact hminus rfl
      · exact absurd hb (by simp [hdigit])
    dsimp only
    rw [if_neg (hne 0x6E (by decide) (by decide)), if_neg (hne 0x74 (by decide) (by decide)),
      if_neg (hne 0x66 (by decide) (by decide)), if_neg (hne 0x22 (by decide) (by decide)),
      if_pos hb]
    exact bind_eq_ok_iff.mpr ⟨_, h, rfl⟩
  | array hdepth h =>
    refine Eq.trans (if_neg (hlimit hdepth)) ?_
    exact bind_eq_ok_iff.mpr ⟨_, h, rfl⟩
  | object hdepth h =>
    refine Eq.trans (if_neg (hlimit hdepth)) ?_
    exact bind_eq_ok_iff.mpr ⟨_, h, rfl⟩

theorem readValue_succ_eq_ok_iff :
    readValue lenient (fuel + 1) depth s = .ok (v, rest) ↔
      ValueAt lenient fuel depth (skipBlanks s) v rest :=
  ⟨valueAt_of_readValue, readValue_of_valueAt⟩

end

theorem readValue_zero {lenient : Bool} {depth : Nat} {s : Bytes} {r : Value × Bytes} :
    readValue lenient 0 depth s ≠ .ok r := by
  simp [readValue]

theorem readValue_blanks {lenient : Bool} {fuel depth : Nat} {w : List Char} {s rest : Bytes}
    {v : Value} (hw : IsBlanks w) :
    readValue lenient fuel depth (encode w ++ s) = .ok (v, rest) ↔
      readValue lenient fuel depth s = .ok (v, rest) := by
  cases fuel with
  | zero => simp [readValue]
  | succ fuel => rw [readValue_succ_eq_ok_iff, readValue_succ_eq_ok_iff, skipBlanks_append hw]

/-! ### Depths -/

namespace Tree

theorem itemsDepth_le_iff {ts : List Tree} {d : Nat} :
    itemsDepth ts ≤ d ↔ ∀ t ∈ ts, t.depth ≤ d := by
  induction ts with
  | nil => simp [itemsDepth]
  | cons t ts ih => simp [itemsDepth, ih]

theorem membersDepth_le_iff {ms : List (List Char × Tree)} {d : Nat} :
    membersDepth ms ≤ d ↔ ∀ m ∈ ms, m.2.depth ≤ d := by
  induction ms with
  | nil => simp [membersDepth]
  | cons m ms ih => simp [membersDepth, ih]

end Tree

/-! ### What is read -/

/-- The text is that of a tree for the value. A value that is kept may hold no more than so many
containers inside one another. -/
def Reads (lenient : Bool) (depth : Nat) (v : Value) (text : List Char) : Prop :=
  ∃ t : Tree, t.Written text ∧ (lenient = false → t.depth ≤ depth) ∧ t.Denotes lenient v

def ReadsMember (lenient : Bool) (depth : Nat) (m : String × Value) (text : List Char) : Prop :=
  ∃ x, MemberWritten x text ∧ (lenient = false → x.2.depth ≤ depth) ∧ MemberDenotes lenient x m

section

variable {lenient : Bool} {depth : Nat} {text : List Char}

theorem series_reads_iff {vs : List Value} :
    Series (Reads lenient depth) vs text ↔ ∃ ts, Series Tree.Written ts text ∧
      (∀ t ∈ ts, lenient = false → t.depth ≤ depth) ∧
        List.Forall₂ (Tree.Denotes lenient) ts vs := by
  refine series_exists_iff.trans (exists_congr fun ts => and_congr_right fun _ => ?_)
  exact List.forall₂_and_left _ _

theorem series_readsMember_iff {ms : List (String × Value)} :
    Series (ReadsMember lenient depth) ms text ↔ ∃ xs, Series MemberWritten xs text ∧
      (∀ x ∈ xs, lenient = false → x.2.depth ≤ depth) ∧
        List.Forall₂ (MemberDenotes lenient) xs ms := by
  refine series_exists_iff.trans (exists_congr fun xs => and_congr_right fun _ => ?_)
  exact List.forall₂_and_left _ _

theorem Reads.array {vs : List Value} (hdepth : lenient = false → 0 < depth)
    (h : Series (Reads lenient (depth - 1)) vs text) :
    Reads lenient depth (.array vs) ('[' :: text ++ [']']) := by
  obtain ⟨ts, hts, hdepths, hd⟩ := series_reads_iff.mp h
  refine ⟨.array ts, .array hts, fun hstrict => ?_, .array hd⟩
  have hle : Tree.itemsDepth ts ≤ depth - 1 :=
    Tree.itemsDepth_le_iff.mpr fun t ht => hdepths t ht hstrict
  have hpos := hdepth hstrict
  rw [Tree.depth]
  omega

theorem Reads.object {ms : List (String × Value)} (hdepth : lenient = false → 0 < depth)
    (h : Series (ReadsMember lenient (depth - 1)) ms text) :
    Reads lenient depth (.object (lastOfEach ms)) ('{' :: text ++ ['}']) := by
  obtain ⟨xs, hxs, hdepths, hd⟩ := series_readsMember_iff.mp h
  refine ⟨.object xs, .object hxs, fun hstrict => ?_, .object hd⟩
  have hle : Tree.membersDepth xs ≤ depth - 1 :=
    Tree.membersDepth_le_iff.mpr fun x hx => hdepths x hx hstrict
  have hpos := hdepth hstrict
  rw [Tree.depth]
  omega

end

/-- What spells a text can stand between quotes. The halves of a pair are escapes on their own. -/
theorem Spells.isBody {lenient : Bool} {b s : List Char} (h : Spells lenient b s) : IsBody b := by
  induction h with
  | nil => exact ⟨[], .nil⟩
  | plain hc _ ih =>
    obtain ⟨s, hs⟩ := ih
    exact ⟨_, .plain hc hs⟩
  | escape he _ ih =>
    obtain ⟨s, hs⟩ := ih
    cases he with
    | short h => exact ⟨_, .escape (.short h) hs⟩
    | code hu hn => exact ⟨_, .escape (.code hu hn) hs⟩
    | pair _ hu hhigh hv hlow =>
      have hsecond := Spells.escape (.lone rfl hv (by omega)) hs
      have hfirst := Spells.escape (.lone rfl hu (by omega)) hsecond
      refine ⟨Text.Utf8.replacement :: Text.Utf8.replacement :: s, ?_⟩
      simpa only [List.cons_append, List.append_assoc] using hfirst
    | lone _ hu hn => exact ⟨_, .escape (.lone rfl hu hn) hs⟩

theorem encode_enclosed {l r : Char} {a b : UInt8} (hl : encodeChar l = [a])
    (hr : encodeChar r = [b]) (text : List Char) (rest : Bytes) :
    encode (l :: text ++ [r]) ++ rest = a :: (encode text ++ b :: rest) := by
  simp [hl, hr]

/-- What the readers take is written there. -/
structure Sound (lenient : Bool) (fuel : Nat) : Prop where
  value : ∀ {depth s v rest}, readValue lenient fuel depth s = .ok (v, rest) →
    ∃ w text, IsBlanks w ∧ Reads lenient depth v text ∧ s = encode (w ++ text) ++ rest
  items : ∀ {depth first s vs rest}, readItems lenient fuel depth first s = .ok (vs, rest) →
    ∃ text, Chain (Reads lenient depth) first vs text ∧ s = encode text ++ 0x5D :: rest
  members : ∀ {depth first s ms rest}, readMembers lenient fuel depth first s = .ok (ms, rest) →
    ∃ text, Chain (ReadsMember lenient depth) first ms text ∧ s = encode text ++ 0x7D :: rest

theorem Sound.zero (lenient : Bool) : Sound lenient 0 where
  value h := absurd h readValue_zero
  items h := absurd h (by simp [readItems])
  members h := absurd h (by simp [readMembers])

theorem Sound.valueAt {lenient : Bool} {fuel depth : Nat} {s rest : Bytes} {v : Value}
    (hsound : Sound lenient fuel) (h : ValueAt lenient fuel depth s v rest) :
    ∃ text, Reads lenient depth v text ∧ s = encode text ++ rest := by
  cases h with
  | null => exact ⟨_, ⟨.null, .null, fun _ => Nat.zero_le _, .null⟩, rfl⟩
  | true => exact ⟨_, ⟨.bool true, .true, fun _ => Nat.zero_le _, .bool true⟩, rfl⟩
  | false => exact ⟨_, ⟨.bool false, .false, fun _ => Nat.zero_le _, .bool false⟩, rfl⟩
  | string h =>
    obtain ⟨b, hb, rfl⟩ := readString_eq_ok_iff.mp h
    exact ⟨_, ⟨.string b, .string hb.isBody, fun _ => Nat.zero_le _, .string hb⟩,
      (encode_enclosed rfl rfl b rest).symm⟩
  | number _ h =>
    obtain ⟨text, hn, hs⟩ := of_readNumber h
    exact ⟨text, ⟨.number text, .number hn.isNumber, fun _ => Nat.zero_le _, .number hn⟩, hs⟩
  | array hdepth h =>
    obtain ⟨text, hchain, rfl⟩ := hsound.items h
    exact ⟨_, .array hdepth (chain_iff_series.mp hchain), (encode_enclosed rfl rfl text rest).symm⟩
  | object hdepth h =>
    obtain ⟨text, hchain, rfl⟩ := hsound.members h
    exact ⟨_, .object hdepth (chain_iff_series.mp hchain), (encode_enclosed rfl rfl text rest).symm⟩

theorem Sound.member {lenient : Bool} {fuel depth : Nat} {s rest : Bytes} {m : String × Value}
    (hsound : Sound lenient fuel) (h : readMember lenient fuel depth s = .ok (m, rest)) :
    ∃ text, ReadsMember lenient depth m text ∧ s = encode text ++ rest := by
  obtain ⟨⟨name, s'⟩, hname, h⟩ := bind_eq_ok_iff.mp h
  obtain ⟨⟨v, s''⟩, hv, h⟩ := bind_eq_ok_iff.mp h
  obtain ⟨rfl, rfl⟩ := Prod.mk.inj (Except.ok.inj h)
  obtain ⟨b, w, hb, hw, rfl⟩ := readName_eq_ok_iff.mp hname
  obtain ⟨w', text, hw', ⟨t, ht, hdepth, hd⟩, rfl⟩ := hsound.value hv
  refine ⟨_, ⟨(b, t), .mk hb.isBody hw hw' ht, hdepth, .mk hb hd⟩, ?_⟩
  simp only [encode_append, encode_cons, List.append_assoc, encode_nil, List.cons_append,
    List.nil_append]

theorem Sound.succ {lenient : Bool} {fuel : Nat} (hsound : Sound lenient fuel) :
    Sound lenient (fuel + 1) where
  value := by
    intro depth s v rest h
    obtain ⟨text, hreads, hs⟩ := hsound.valueAt (readValue_succ_eq_ok_iff.mp h)
    obtain ⟨w, hw, hblanks⟩ := exists_blanks s
    rw [hs] at hblanks
    exact ⟨w, text, hw, hreads, by rw [hblanks, encode_append, List.append_assoc]⟩
  items := by
    intro depth first s vs rest h
    rw [readItems_succ] at h
    exact chain_of_readElements (by decide) hsound.value hsound.items h
  members := by
    intro depth first s ms rest h
    rw [readMembers_succ] at h
    refine chain_of_readElements (by decide) ?_ hsound.members h
    intro s s' m hm
    obtain ⟨text, hreads, hs⟩ := hsound.member hm
    exact ⟨[], text, isBlanks_nil, hreads, hs⟩

theorem sound (lenient : Bool) (fuel : Nat) : Sound lenient fuel := by
  induction fuel with
  | zero => exact .zero lenient
  | succ fuel ih => exact ih.succ

/-! ### What is written -/

theorem IsNumber.head {text : List Char} (h : IsNumber text) :
    ∃ b s, encode text = b :: s ∧ (b = 0x2D ∨ isDigit b = true) := by
  obtain ⟨n, @⟨negative, ds, fs, es, f, e, hds, -, -⟩⟩ := h
  cases negative with
  | true => exact ⟨0x2D, _, rfl, .inl rfl⟩
  | false =>
    obtain ⟨c, ds', rfl, hc⟩ := hds.exists_cons
    obtain ⟨b, hb, hnat⟩ := encodeChar_digit hc
    refine ⟨b, encode (ds' ++ fs ++ es), ?_, .inr ?_⟩
    · simp [Numeral.sign, hb]
    · rw [isDigit_iff, hnat]
      exact charIsDigit_iff.mp hc

/-- A value starts with a byte of its own. -/
theorem Tree.Written.opens {t : Tree} {text : List Char} (h : t.Written text) {close : UInt8}
    (hclose : close = 0x5D ∨ close = 0x7D) (s : Bytes) : Opens close (encode text ++ s) := by
  have hne : ∀ b : UInt8, b ≠ 0x5D → b ≠ 0x7D → b ≠ close := by
    rintro b hlist hobject rfl
    rcases hclose with rfl | rfl
    · exact hlist rfl
    · exact hobject rfl
  cases h with
  | null => exact ⟨0x6E, _, rfl, rfl, hne _ (by decide) (by decide)⟩
  | true => exact ⟨0x74, _, rfl, rfl, hne _ (by decide) (by decide)⟩
  | false => exact ⟨0x66, _, rfl, rfl, hne _ (by decide) (by decide)⟩
  | number h =>
    obtain ⟨b, u, hu, hb⟩ := h.head
    refine ⟨b, u ++ s, by rw [hu]; rfl, ?_, hne b ?_ ?_⟩
    · rcases hb with rfl | hb
      · rfl
      · have hrange := isDigit_iff.mp hb
        rw [← Bool.not_eq_true]
        intro hblank
        simp only [isBlank, Bool.or_eq_true, decide_eq_true_eq] at hblank
        rcases hblank with ((rfl | rfl) | rfl) | rfl <;> exact absurd hrange (by decide)
    · rintro rfl
      exact absurd hb (by decide)
    · rintro rfl
      exact absurd hb (by decide)
  | string _ => exact ⟨0x22, _, rfl, rfl, hne _ (by decide) (by decide)⟩
  | array _ => exact ⟨0x5B, _, rfl, rfl, hne _ (by decide) (by decide)⟩
  | object _ => exact ⟨0x7B, _, rfl, rfl, hne _ (by decide) (by decide)⟩

theorem MemberWritten.opens {m : List Char × Tree} {text : List Char} (h : MemberWritten m text)
    (s : Bytes) : Opens 0x7D (encode text ++ s) := by
  cases h with
  | mk => exact ⟨0x22, _, rfl, rfl, by decide⟩

/-- What is written is taken by the readers, if there is fuel for it. -/
structure Complete (lenient : Bool) (fuel : Nat) : Prop where
  -- Each byte costs two steps at most: one into the value, and one along the items around it.
  value : ∀ {depth v text rest}, Reads lenient depth v text → 2 * (encode text).length < fuel →
    Ends rest → readValue lenient fuel depth (encode text ++ rest) = .ok (v, rest)
  items : ∀ {depth first vs text rest}, Chain (Reads lenient depth) first vs text →
    2 * (encode text).length + 1 < fuel →
      readItems lenient fuel depth first (encode text ++ 0x5D :: rest) = .ok (vs, rest)
  members : ∀ {depth first ms text rest}, Chain (ReadsMember lenient depth) first ms text →
    2 * (encode text).length + 1 < fuel →
      readMembers lenient fuel depth first (encode text ++ 0x7D :: rest) = .ok (ms, rest)

theorem Complete.zero (lenient : Bool) : Complete lenient 0 where
  value _ h := absurd h (Nat.not_lt_zero _)
  items _ h := absurd h (Nat.not_lt_zero _)
  members _ h := absurd h (Nat.not_lt_zero _)

theorem Complete.valueAt {lenient : Bool} {fuel depth : Nat} {v : Value} {text : List Char}
    {rest : Bytes} (hcomplete : Complete lenient fuel) (h : Reads lenient depth v text)
    (hfuel : 2 * (encode text).length ≤ fuel) (hrest : Ends rest) :
    ValueAt lenient fuel depth (encode text ++ rest) v rest := by
  obtain ⟨t, ht, hdepth, hd⟩ := h
  cases ht with
  | null =>
    cases hd
    exact .null
  | true =>
    cases hd
    exact .true
  | false =>
    cases hd
    exact .false
  | number hn =>
    cases hd with
    | number hx =>
      obtain ⟨b, s, hs, hb⟩ := hn.head
      have hread := readNumber_of_numberValue hx hrest
      rw [hs, List.cons_append] at hread ⊢
      exact .number hb hread
  | string _ =>
    cases hd with
    | string hs =>
      rw [encode_enclosed rfl rfl]
      exact .string (readString_eq_ok_iff.mpr ⟨_, hs, rfl⟩)
  | @array ts inner hts =>
    cases hd with
    | array hvs =>
      rw [encode_enclosed (a := 0x5B) (b := 0x5D) rfl rfl]
      refine .array (fun hstrict => ?_) (hcomplete.items ?_ ?_)
      · exact Nat.lt_of_lt_of_le (Nat.succ_pos _) (hdepth hstrict)
      · refine Series.chain (series_reads_iff.mpr ⟨ts, hts, fun t ht hstrict => ?_, hvs⟩)
        have hle := hdepth hstrict
        rw [Tree.depth] at hle
        exact Tree.itemsDepth_le_iff.mp (Nat.le_sub_of_add_le hle) t ht
      · simp only [encode_append, encode_cons, List.length_append] at hfuel
        have hopen : (encodeChar '[').length = 1 := rfl
        omega
  | @object xs inner hxs =>
    cases hd with
    | object hms =>
      rw [encode_enclosed (a := 0x7B) (b := 0x7D) rfl rfl]
      refine .object (fun hstrict => ?_) (hcomplete.members ?_ ?_)
      · exact Nat.lt_of_lt_of_le (Nat.succ_pos _) (hdepth hstrict)
      · refine Series.chain (series_readsMember_iff.mpr ⟨xs, hxs, fun x hx hstrict => ?_, hms⟩)
        have hle := hdepth hstrict
        rw [Tree.depth] at hle
        exact Tree.membersDepth_le_iff.mp (Nat.le_sub_of_add_le hle) x hx
      · simp only [encode_append, encode_cons, List.length_append] at hfuel
        have hopen : (encodeChar '{').length = 1 := rfl
        omega

theorem Complete.member {lenient : Bool} {fuel depth : Nat} {m : String × Value}
    {text : List Char} {rest : Bytes} (hcomplete : Complete lenient fuel)
    (h : ReadsMember lenient depth m text) (hfuel : 2 * (encode text).length < fuel)
    (hrest : Ends rest) :
    readMember lenient fuel depth (encode text ++ rest) = .ok (m, rest) := by
  obtain ⟨x, hx, hdepth, hd⟩ := h
  obtain @⟨b, w, w', u, t, -, hw, hw', ht⟩ := hx
  obtain @⟨_, name, _, v, hb, hv⟩ := hd
  have hbytes : encode ('"' :: b ++ '"' :: w ++ ':' :: w' ++ u) ++ rest =
      encode ('"' :: b ++ '"' :: w ++ [':']) ++ (encode w' ++ (encode u ++ rest)) := by
    simp only [encode_append, encode_cons, List.append_assoc, encode_nil, List.nil_append]
  rw [hbytes]
  simp only [encode_append, List.length_append] at hfuel
  refine bind_eq_ok_iff.mpr ⟨_, readName_eq_ok_iff.mpr ⟨b, w, hb, hw, rfl⟩,
    bind_eq_ok_iff.mpr ⟨(v, rest), ?_, rfl⟩⟩
  rw [readValue_blanks hw']
  exact hcomplete.value ⟨t, ht, hdepth, hv⟩ (by omega) hrest

theorem Complete.succ {lenient : Bool} {fuel : Nat} (hcomplete : Complete lenient fuel) :
    Complete lenient (fuel + 1) where
  value := by
    intro depth v text rest h hfuel hrest
    have hopens : Opens 0x5D (encode text ++ rest) := by
      obtain ⟨t, ht, -⟩ := h
      exact ht.opens (.inl rfl) rest
    obtain ⟨b, s, hs, hb, -⟩ := hopens
    rw [readValue_succ_eq_ok_iff, hs, skipBlanks_cons hb, ← hs]
    exact hcomplete.valueAt h (by omega) hrest
  items := by
    intro depth first vs text rest h hfuel
    rw [readItems_succ]
    refine readElements_of_chain (.inl rfl) ?_ hcomplete.value hcomplete.items h (by omega)
    rintro v text ⟨t, ht, -⟩ s
    exact ht.opens (.inl rfl) s
  members := by
    intro depth first ms text rest h hfuel
    rw [readMembers_succ]
    refine readElements_of_chain (.inr rfl) ?_ hcomplete.member hcomplete.members h (by omega)
    rintro m text ⟨x, hx, -⟩ s
    exact hx.opens s

theorem complete (lenient : Bool) (fuel : Nat) : Complete lenient fuel := by
  induction fuel with
  | zero => exact .zero lenient
  | succ fuel ih => exact ih.succ

/-- Where a text ends, and what it is read as, does not depend on what is written behind it. -/
theorem span_of_read {α : Type} {read : Bytes → Except Fault (α × Bytes)} {x x' : α}
    {text text' : List Char} {s s' : Bytes} (h : read (encode text ++ s) = .ok (x, s))
    (h' : read (encode text' ++ s') = .ok (x', s')) (heq : encode text ++ s = encode text' ++ s') :
    x = x' ∧ text = text' := by
  rw [heq, h'] at h
  obtain ⟨rfl, rfl⟩ := Prod.mk.inj (Except.ok.inj h)
  exact ⟨rfl, encode_injective (List.append_cancel_right heq)⟩

theorem Reads.span {lenient : Bool} {depth : Nat} {v v' : Value} {text text' : List Char}
    {s s' : Bytes} (h : Reads lenient depth v text) (h' : Reads lenient depth v' text')
    (hs : Ends s) (hs' : Ends s') (heq : encode text ++ s = encode text' ++ s') :
    v = v' ∧ text = text' := by
  have hcomplete := complete lenient (2 * (encode text).length + 2 * (encode text').length + 1)
  exact span_of_read (hcomplete.value h (by omega) hs) (hcomplete.value h' (by omega) hs') heq

theorem ReadsMember.span {lenient : Bool} {depth : Nat} {m m' : String × Value}
    {text text' : List Char} {s s' : Bytes} (h : ReadsMember lenient depth m text)
    (h' : ReadsMember lenient depth m' text') (hs : Ends s) (hs' : Ends s')
    (heq : encode text ++ s = encode text' ++ s') : m = m' ∧ text = text' := by
  have hcomplete := complete lenient (2 * (encode text).length + 2 * (encode text').length + 1)
  exact span_of_read (hcomplete.member h (by omega) hs) (hcomplete.member h' (by omega) hs') heq

/-! ### Whole texts -/

theorem checkEnd_eq_ok_iff {s : Bytes} : checkEnd s = .ok () ↔ ∃ w, IsBlanks w ∧ s = encode w := by
  rw [← skipBlanks_eq_nil_iff, checkEnd]
  split
  · rename_i h
    simp [h]
  · rename_i h
    simp [h]

theorem ends_blanks {w : List Char} (hw : IsBlanks w) : Ends (encode w) :=
  fun b hb => .inl (encode_blanks hw b (List.mem_of_mem_head? hb))

/-- A text is read where it is written, whatever stands before and after it. -/
theorem readValue_of_reads {lenient : Bool} {depth : Nat} {v : Value} {w text : List Char}
    {rest : Bytes} (hw : IsBlanks w) (h : Reads lenient depth v text) (hrest : Ends rest) :
    readValue lenient (fuelFor (encode (w ++ text) ++ rest)) depth (encode (w ++ text) ++ rest) =
      .ok (v, rest) := by
  have hfuel : 2 * (encode text).length < fuelFor (encode (w ++ text) ++ rest) := by
    simp only [fuelFor, encode_append, List.length_append]
    omega
  generalize fuelFor (encode (w ++ text) ++ rest) = fuel at hfuel ⊢
  rw [encode_append, List.append_assoc, readValue_blanks hw]
  exact (complete lenient fuel).value h hfuel hrest

/-- Bytes are read as a value where they are the text of a tree that stands for it, and not too many
containers stand inside one another. -/
theorem read_eq_ok_iff {content : Bytes} {v : Value} :
    read content = .ok v ↔ ∃ text t, content = encode text ∧ Tree.IsTextOf t text ∧
      t.depth ≤ depthLimit ∧ t.Denotes false v := by
  rw [read, bind_eq_ok_iff]
  constructor
  · rintro ⟨⟨v', rest⟩, hv, h⟩
    obtain ⟨⟨⟩, hend, h⟩ := bind_eq_ok_iff.mp h
    obtain rfl := Except.ok.inj h
    obtain ⟨w, text, hw, ⟨t, ht, hdepth, hd⟩, rfl⟩ := (sound false _).value hv
    obtain ⟨w', hw', rfl⟩ := checkEnd_eq_ok_iff.mp hend
    exact ⟨w ++ text ++ w', t, by simp, ⟨w, text, w', hw, ht, hw', rfl⟩, hdepth rfl, hd⟩
  · rintro ⟨_, t, rfl, ⟨w, text, w', hw, ht, hw', rfl⟩, hdepth, hd⟩
    have hread := readValue_of_reads hw ⟨t, ht, fun _ => hdepth, hd⟩ (ends_blanks hw')
    rw [← encode_append] at hread
    exact ⟨_, hread, bind_eq_ok_iff.mpr ⟨(), checkEnd_eq_ok_iff.mpr ⟨w', hw', rfl⟩, rfl⟩⟩

end QualityGate.Json
