import QualityGate.Proofs.Json.Grammar
import QualityGate.Proofs.Text.Utf8

/-! # Reading strings

The reader of strings goes byte by byte and looks at the text only when it is at the closing quote;
the grammar goes character by character. `readString_eq_ok_iff` says that they agree: a string is
read as a text exactly where a body that spells the text stands in front of a quote. The first byte
of a character decides whether it is plain, and all others are passed on. An escape never starts
with a byte that goes on with a character, so it cannot stand inside one. -/

namespace QualityGate.Json

open Text.Utf8 (encode encodeChar encode_nil encode_cons encode_append decode?_encode
  decode?_eq_some_iff encodeChar_of_lt encodeChar_of_ge Continues)

/-! ### Escapes -/

theorem hexDigit?_of_mem {c : Char} {k : Nat} (h : (c, k) ∈ hexDigits) :
    ∃ b, encodeChar c = [b] ∧ hexDigit? b = some k := by
  have hall : ∀ p ∈ hexDigits, p.1.toNat < 0x80 ∧ hexDigit? (UInt8.ofNat p.1.toNat) = some p.2 := by
    decide
  obtain ⟨hlt, hk⟩ := hall _ h
  exact ⟨_, encodeChar_of_lt hlt, hk⟩

theorem exists_of_hexDigit? {b : UInt8} {k : Nat} (h : hexDigit? b = some k) :
    ∃ c, (c, k) ∈ hexDigits ∧ encodeChar c = [b] := by
  have hall : ∀ n < 256, ∀ k ∈ hexDigit? (UInt8.ofNat n),
      (Char.ofNat n, k) ∈ hexDigits ∧ encodeChar (Char.ofNat n) = [UInt8.ofNat n] := by
    decide +kernel
  obtain ⟨n, hn, rfl⟩ := Text.Utf8.exists_ofNat b
  exact ⟨_, hall n hn k h⟩

theorem readHex_eq_ok_iff {s rest : Bytes} {n : Nat} :
    readHex s = .ok (n, rest) ↔ ∃ u, CodeUnit u n ∧ s = encode u ++ rest := by
  constructor
  · intro h
    unfold readHex at h
    split at h
    · split at h
      · rename_i ha hb hc hd
        obtain ⟨a, ha, ha'⟩ := exists_of_hexDigit? ha
        obtain ⟨b, hb, hb'⟩ := exists_of_hexDigit? hb
        obtain ⟨c, hc, hc'⟩ := exists_of_hexDigit? hc
        obtain ⟨d, hd, hd'⟩ := exists_of_hexDigit? hd
        obtain ⟨rfl, rfl⟩ := Prod.mk.inj (Except.ok.inj h)
        refine ⟨_, .mk ha hb hc hd, ?_⟩
        simp [ha', hb', hc', hd']
      · exact absurd h (by simp)
    · exact absurd h (by simp)
  · rintro ⟨u, ⟨ha, hb, hc, hd⟩, rfl⟩
    obtain ⟨a, ha', ha⟩ := hexDigit?_of_mem ha
    obtain ⟨b, hb', hb⟩ := hexDigit?_of_mem hb
    obtain ⟨c, hc', hc⟩ := hexDigit?_of_mem hc
    obtain ⟨d, hd', hd⟩ := hexDigit?_of_mem hd
    simp [readHex, ha, hb, hc, hd, ha', hb', hc', hd']

theorem shortEscape?_of_mem {l c : Char} (h : (l, c) ∈ shortEscapes) :
    ∃ b a, encodeChar l = [b] ∧ encodeChar c = [a] ∧ b ≠ 0x75 ∧ shortEscape? b = some a := by
  have hall : ∀ p ∈ shortEscapes, p.1.toNat < 0x80 ∧ p.2.toNat < 0x80 ∧
      UInt8.ofNat p.1.toNat ≠ 0x75 ∧
      shortEscape? (UInt8.ofNat p.1.toNat) = some (UInt8.ofNat p.2.toNat) := by
    decide
  obtain ⟨hl, hc, hne, hs⟩ := hall _ h
  exact ⟨_, _, encodeChar_of_lt hl, encodeChar_of_lt hc, hne, hs⟩

theorem exists_of_shortEscape? {b a : UInt8} (h : shortEscape? b = some a) :
    ∃ l c, (l, c) ∈ shortEscapes ∧ encodeChar l = [b] ∧ encodeChar c = [a] := by
  have hall : ∀ n < 256, ∀ a ∈ shortEscape? (UInt8.ofNat n),
      (Char.ofNat n, Char.ofNat a.toNat) ∈ shortEscapes ∧
        encodeChar (Char.ofNat n) = [UInt8.ofNat n] ∧ encodeChar (Char.ofNat a.toNat) = [a] := by
    decide +kernel
  obtain ⟨n, hn, rfl⟩ := Text.Utf8.exists_ofNat b
  exact ⟨_, _, hall n hn a h⟩

theorem encodeChar_u : encodeChar 'u' = [0x75] := rfl
theorem encodeChar_backslash : encodeChar '\\' = [0x5C] := rfl

/-- The second half of a pair of surrogates. -/
theorem readPair_eq_ok_iff {high : Nat} {s cs rest : Bytes} :
    readPair high s = .ok (cs, rest) ↔ ∃ v low, CodeUnit v low ∧ (0xDC00 ≤ low ∧ low ≤ 0xDFFF) ∧
      s = encode ('\\' :: 'u' :: v) ++ rest ∧
      cs = encodeChar (Char.ofNat (0x10000 + (high - 0xD800) * 0x400 + (low - 0xDC00))) := by
  constructor
  · intro h
    unfold readPair at h
    split at h
    · obtain ⟨⟨low, s'⟩, hhex, hlow⟩ := bind_eq_ok_iff.mp h
      obtain ⟨v, hv, rfl⟩ := readHex_eq_ok_iff.mp hhex
      dsimp only at hlow
      split at hlow
      · rename_i hrange
        obtain ⟨rfl, rfl⟩ := Prod.mk.inj (Except.ok.inj hlow)
        exact ⟨v, low, hv, hrange, rfl, rfl⟩
      · exact absurd hlow (by simp)
    all_goals simp at h
  · rintro ⟨v, low, hv, hlow, rfl, hcs⟩
    rw [encode_cons, encode_cons, encodeChar_u, encodeChar_backslash, hcs]
    refine bind_eq_ok_iff.mpr ⟨(low, rest), readHex_eq_ok_iff.mpr ⟨v, hv, rfl⟩, ?_⟩
    exact if_pos hlow

theorem escape_of_readEscape {lenient : Bool} {s cs rest : Bytes}
    (h : readEscape lenient s = .ok (cs, rest)) :
    ∃ e c, Escape lenient e c ∧ s = encode e ++ rest ∧ cs = encodeChar c := by
  unfold readEscape at h
  split at h
  · exact absurd h (by simp)
  · obtain ⟨⟨n, s'⟩, hhex, hcode⟩ := bind_eq_ok_iff.mp h
    obtain ⟨u, hu, rfl⟩ := readHex_eq_ok_iff.mp hhex
    dsimp only at hcode
    by_cases hsurrogate : 0xD800 ≤ n ∧ n ≤ 0xDFFF
    · rw [if_pos hsurrogate] at hcode
      cases lenient with
      | true =>
        obtain ⟨rfl, rfl⟩ := Prod.mk.inj (Except.ok.inj hcode)
        exact ⟨_, _, .lone rfl hu hsurrogate, rfl, rfl⟩
      | false =>
        rw [if_neg Bool.false_ne_true] at hcode
        by_cases hlow : 0xDC00 ≤ n
        · rw [if_pos hlow] at hcode
          exact absurd hcode (by simp)
        · rw [if_neg hlow] at hcode
          obtain ⟨v, low, hv, hlow, rfl, hcs⟩ := readPair_eq_ok_iff.mp hcode
          refine ⟨_, _, .pair rfl hu (by omega) hv hlow, ?_, hcs⟩
          simp [encodeChar_u]
    · rw [if_neg hsurrogate] at hcode
      obtain ⟨rfl, rfl⟩ := Prod.mk.inj (Except.ok.inj hcode)
      exact ⟨_, _, .code hu (by omega), rfl, rfl⟩
  · split at h
    · rename_i hshort
      obtain ⟨rfl, rfl⟩ := Prod.mk.inj (Except.ok.inj h)
      obtain ⟨l, c, hmem, hl, hc⟩ := exists_of_shortEscape? hshort
      exact ⟨_, _, .short hmem, by simp [hl], hc.symm⟩
    · exact absurd h (by simp)

theorem readEscape_of_escape {lenient : Bool} {e : List Char} {c : Char}
    (he : Escape lenient e c) (rest : Bytes) :
    readEscape lenient (encode e ++ rest) = .ok (encodeChar c, rest) := by
  cases he with
  | short hmem =>
    obtain ⟨b, a, hb, ha, hne, hshort⟩ := shortEscape?_of_mem hmem
    rw [encode_cons, hb, ha, encode_nil]
    unfold readEscape
    split
    · rename_i heq
      exact absurd heq (by simp)
    · rename_i heq
      exact absurd (List.cons.inj heq).1 hne
    · rename_i heq
      obtain ⟨rfl, rfl⟩ := List.cons.inj heq
      rw [hshort]
      rfl
  | code hu hn =>
    rw [encode_cons, encodeChar_u]
    refine bind_eq_ok_iff.mpr ⟨_, readHex_eq_ok_iff.mpr ⟨_, hu, rfl⟩, ?_⟩
    exact if_neg (by omega)
  | pair hstrict hu hhigh hv hlow =>
    subst hstrict
    rw [List.cons_append, encode_cons, encodeChar_u, encode_append, List.append_assoc,
      List.append_assoc]
    refine bind_eq_ok_iff.mpr ⟨_, readHex_eq_ok_iff.mpr ⟨_, hu, rfl⟩, ?_⟩
    dsimp only
    rw [if_pos (by omega), if_neg Bool.false_ne_true, if_neg (by omega)]
    exact readPair_eq_ok_iff.mpr ⟨_, _, hv, hlow, rfl, rfl⟩
  | lone hlenient hu hn =>
    subst hlenient
    rw [encode_cons, encodeChar_u]
    refine bind_eq_ok_iff.mpr ⟨_, readHex_eq_ok_iff.mpr ⟨_, hu, rfl⟩, ?_⟩
    dsimp only
    rw [if_pos hn, if_pos rfl]

theorem readEscape_eq_ok_iff {lenient : Bool} {s cs rest : Bytes} :
    readEscape lenient s = .ok (cs, rest) ↔
      ∃ e c, Escape lenient e c ∧ s = encode e ++ rest ∧ cs = encodeChar c := by
  constructor
  · exact escape_of_readEscape
  · rintro ⟨e, c, he, rfl, rfl⟩
    exact readEscape_of_escape he rest

/-! ### Strings -/

/-- A byte that stands for itself in a string. -/
def IsPlainByte (b : UInt8) : Prop := b ≠ 0x22 ∧ b ≠ 0x5C ∧ 0x20 ≤ b.toNat

/-- What one byte of a string makes of the rest. -/
theorem readStringBytes_cons_eq_ok_iff {lenient : Bool} {fuel : Nat} {b : UInt8}
    {s text rest : Bytes} :
    readStringBytes lenient (fuel + 1) (b :: s) = .ok (text, rest) ↔
      b = 0x22 ∧ [] = text ∧ s = rest ∨
      (b = 0x5C ∧ ∃ c s' text', readEscape lenient s = .ok (c, s') ∧
        readStringBytes lenient fuel s' = .ok (text', rest) ∧ c ++ text' = text) ∨
      (IsPlainByte b ∧ ∃ text', readStringBytes lenient fuel s = .ok (text', rest) ∧
        b :: text' = text) := by
  rw [readStringBytes]
  by_cases hquote : b = 0x22
  · subst hquote
    rw [if_pos rfl]
    simp [IsPlainByte]
  rw [if_neg hquote]
  by_cases hslash : b = 0x5C
  · subst hslash
    rw [if_pos rfl]
    simp [IsPlainByte, bind_eq_ok_iff]
  rw [if_neg hslash]
  by_cases hcontrol : b < 0x20
  · rw [if_pos hcontrol]
    rw [UInt8.lt_iff_toNat_lt] at hcontrol
    have hno : ¬ IsPlainByte b := fun h => absurd h.2.2 (Nat.not_le.mpr hcontrol)
    simp [hquote, hslash, hno]
  · rw [if_neg hcontrol]
    rw [UInt8.lt_iff_toNat_lt] at hcontrol
    have hplain : IsPlainByte b := ⟨hquote, hslash, Nat.not_lt.mp hcontrol⟩
    simp [hquote, hslash, hplain, bind_eq_ok_iff]

theorem readStringBytes_zero {lenient : Bool} {s : Bytes} {r : Bytes × Bytes} :
    readStringBytes lenient 0 s ≠ .ok r := by
  cases s <;> simp [readStringBytes]

theorem readStringBytes_nil {lenient : Bool} {fuel : Nat} {r : Bytes × Bytes} :
    readStringBytes lenient fuel [] ≠ .ok r := by
  simp [readStringBytes]

theorem readStringBytes_plain {lenient : Bool} {bs : Bytes} (hbs : ∀ b ∈ bs, IsPlainByte b)
    {fuel : Nat} {s text rest : Bytes}
    (h : readStringBytes lenient fuel s = .ok (text, rest)) :
    readStringBytes lenient (fuel + bs.length) (bs ++ s) = .ok (bs ++ text, rest) := by
  induction bs with
  | nil => exact h
  | cons b bs ih =>
    have htail := ih fun x hx => hbs x (List.mem_cons_of_mem b hx)
    exact readStringBytes_cons_eq_ok_iff.mpr
      (.inr (.inr ⟨hbs b List.mem_cons_self, _, htail, rfl⟩))

/-- The bytes of a plain character are plain. -/
theorem IsPlain.isPlainByte {c : Char} (hc : IsPlain c) : ∀ b ∈ encodeChar c, IsPlainByte b := by
  intro b hb
  obtain ⟨hcontrol, hquote, hslash⟩ := hc
  by_cases hlt : c.toNat < 0x80
  · rw [encodeChar_of_lt hlt, List.mem_singleton] at hb
    have hmod : c.toNat % 2 ^ 8 = c.toNat := Nat.mod_eq_of_lt (by omega)
    have htoNat : b.toNat = c.toNat := by rw [hb, UInt8.toNat_ofNat', hmod]
    refine ⟨?_, ?_, by omega⟩
    · rintro rfl
      exact hquote (Char.toNat_inj.mp htoNat.symm)
    · rintro rfl
      exact hslash (Char.toNat_inj.mp htoNat.symm)
  · obtain ⟨b', tail, h, hb', htail⟩ := encodeChar_of_ge (Nat.not_lt.mp hlt)
    have hge : 0x80 ≤ b.toNat := by
      rw [h, List.mem_cons] at hb
      rcases hb with rfl | hb
      · omega
      · exact (htail b hb).1
    refine ⟨?_, ?_, by omega⟩
    · rintro rfl
      exact absurd hge (by decide)
    · rintro rfl
      exact absurd hge (by decide)

/-- A character that starts with a plain byte is plain. -/
theorem IsPlainByte.isPlain {b : UInt8} (h : IsPlainByte b) {c : Char} {tail : Bytes}
    (hc : encodeChar c = b :: tail) : IsPlain c := by
  obtain ⟨hquote, hslash, hcontrol⟩ := h
  have hne : ∀ d : Char, encodeChar d = [0x22] ∨ encodeChar d = [0x5C] → c ≠ d := by
    rintro d (hd | hd) rfl
    · exact hquote (List.cons.inj (hc.symm.trans hd)).1
    · exact hslash (List.cons.inj (hc.symm.trans hd)).1
  refine ⟨?_, hne '"' (.inl rfl), hne '\\' (.inr rfl)⟩
  by_cases hlt : c.toNat < 0x80
  · rw [encodeChar_of_lt hlt] at hc
    rw [← (List.cons.inj hc).1, UInt8.toNat_ofNat', Nat.mod_eq_of_lt (by omega)] at hcontrol
    exact hcontrol
  · omega

/-- What is spelled in front of a quote is read. -/
theorem readStringBytes_of_spells {lenient : Bool} {b text : List Char}
    (h : Spells lenient b text) (rest : Bytes) {fuel : Nat} (hfuel : (encode b).length < fuel) :
    readStringBytes lenient fuel (encode b ++ 0x22 :: rest) = .ok (encode text, rest) := by
  induction h generalizing fuel with
  | nil =>
    obtain ⟨fuel, rfl⟩ := Nat.exists_eq_add_one_of_ne_zero (Nat.ne_of_gt hfuel)
    exact readStringBytes_cons_eq_ok_iff.mpr (.inl ⟨rfl, rfl, rfl⟩)
  | @plain c b s hc _ ih =>
    rw [encode_cons, List.length_append] at hfuel
    obtain ⟨k, rfl⟩ := Nat.exists_eq_add_of_le' (Nat.le_of_lt (Nat.lt_of_le_of_lt
      (Nat.le_add_right _ _) hfuel))
    rw [encode_cons, List.append_assoc, encode_cons]
    exact readStringBytes_plain hc.isPlainByte (ih (by omega))
  | @escape e b s c he _ ih =>
    rw [List.cons_append, encode_cons, encodeChar_backslash, List.singleton_append,
      List.length_cons, encode_append, List.length_append] at hfuel
    obtain ⟨fuel, rfl⟩ := Nat.exists_eq_add_one_of_ne_zero (Nat.ne_of_gt (Nat.zero_lt_of_lt hfuel))
    rw [List.cons_append, encode_cons, encodeChar_backslash, List.singleton_append, encode_append,
      List.cons_append, List.append_assoc, encode_cons]
    refine readStringBytes_cons_eq_ok_iff.mpr (.inr (.inl ⟨rfl, _, _, _, ?_, ih (by omega), rfl⟩))
    exact readEscape_eq_ok_iff.mpr ⟨e, c, he, rfl, rfl⟩

/-- Bytes that go on with a character are read as they are. -/
theorem of_readStringBytes_continues {lenient : Bool} {tail : Bytes}
    (htail : ∀ b ∈ tail, Continues b) {fuel : Nat} {s text rest : Bytes}
    (h : readStringBytes lenient fuel s = .ok (tail ++ text, rest)) :
    ∃ fuel' ≤ fuel, ∃ s', s = tail ++ s' ∧ readStringBytes lenient fuel' s' = .ok (text, rest) := by
  induction tail generalizing fuel s with
  | nil => exact ⟨fuel, Nat.le_refl _, s, rfl, h⟩
  | cons x tail ih =>
    have hx := htail x List.mem_cons_self
    cases fuel with
    | zero => exact absurd h readStringBytes_zero
    | succ fuel =>
      cases s with
      | nil => exact absurd h readStringBytes_nil
      | cons b s =>
        rcases readStringBytes_cons_eq_ok_iff.mp h with
          ⟨-, htext, -⟩ | ⟨-, c, s', text', hescape, -, htext⟩ | ⟨-, text', hread, htext⟩
        · exact absurd htext.symm (List.cons_ne_nil _ _)
        · obtain ⟨e, c, -, -, rfl⟩ := readEscape_eq_ok_iff.mp hescape
          obtain ⟨y, ys, hc⟩ := List.exists_cons_of_ne_nil (Text.Utf8.encodeChar_ne_nil c)
          rw [hc, List.cons_append, List.cons_append] at htext
          rw [← (List.cons.inj htext).1] at hx
          exact absurd hx (Text.Utf8.of_encodeChar_eq_cons hc).1
        · obtain ⟨rfl, rfl⟩ := List.cons.inj htext
          obtain ⟨fuel', hle, s', rfl, hread'⟩ :=
            ih (fun y hy => htail y (List.mem_cons_of_mem _ hy)) hread
          exact ⟨fuel', Nat.le_succ_of_le hle, s', rfl, hread'⟩

/-- What is read as a text is spelled in front of a quote. -/
theorem exists_spells_of_readStringBytes {lenient : Bool} {fuel : Nat} {s rest : Bytes}
    {text : List Char} (h : readStringBytes lenient fuel s = .ok (encode text, rest)) :
    ∃ b, Spells lenient b text ∧ s = encode b ++ 0x22 :: rest := by
  -- A step of the grammar takes a whole character, which may be several steps of the reader.
  induction fuel using Nat.strongRecOn generalizing s text with
  | ind fuel ih =>
    cases fuel with
    | zero => exact absurd h readStringBytes_zero
    | succ fuel =>
      cases s with
      | nil => exact absurd h readStringBytes_nil
      | cons x s =>
        rcases readStringBytes_cons_eq_ok_iff.mp h with
          ⟨rfl, htext, rfl⟩ | ⟨rfl, c, s', text', hescape, hread, htext⟩ |
            ⟨hplain, text', hread, htext⟩
        · obtain rfl := Text.Utf8.encode_injective (encode_nil.trans htext)
          exact ⟨[], .nil, rfl⟩
        · obtain ⟨e, c, he, rfl, rfl⟩ := readEscape_eq_ok_iff.mp hescape
          obtain ⟨text, rfl, rfl⟩ := Text.Utf8.exists_of_encode_eq htext.symm
          obtain ⟨b, hb, rfl⟩ := ih fuel (Nat.lt_succ_self _) hread
          refine ⟨_, .escape he hb, ?_⟩
          simp [encodeChar_backslash]
        · cases text with
          | nil => exact absurd htext (List.cons_ne_nil _ _)
          | cons c text =>
            obtain ⟨y, tail, hc⟩ := List.exists_cons_of_ne_nil (Text.Utf8.encodeChar_ne_nil c)
            rw [encode_cons, hc, List.cons_append] at htext
            obtain ⟨rfl, rfl⟩ := List.cons.inj htext
            obtain ⟨fuel', hle, s', rfl, hread'⟩ :=
              of_readStringBytes_continues (Text.Utf8.of_encodeChar_eq_cons hc).2 hread
            obtain ⟨b, hb, rfl⟩ := ih fuel' (Nat.lt_succ_of_le hle) hread'
            exact ⟨c :: b, .plain (hplain.isPlain hc) hb, by simp [hc]⟩

theorem readString_eq_ok_iff {lenient : Bool} {s rest : Bytes} {text : String} :
    readString lenient s = .ok (text, rest) ↔
      ∃ b, Spells lenient b text.toList ∧ s = encode b ++ 0x22 :: rest := by
  rw [readString, bind_eq_ok_iff]
  constructor
  · rintro ⟨⟨bytes, s'⟩, hread, h⟩
    dsimp only at h
    split at h
    · rename_i t ht
      obtain ⟨rfl, rfl⟩ := Prod.mk.inj (Except.ok.inj h)
      obtain ⟨cs, hcs, rfl⟩ := Option.map_eq_some_iff.mp ht
      rw [decode?_eq_some_iff] at hcs
      subst hcs
      rw [String.toList_ofList]
      exact exists_spells_of_readStringBytes hread
    · exact absurd h (by simp)
  · rintro ⟨b, hb, rfl⟩
    refine ⟨_, readStringBytes_of_spells hb rest ?_, ?_⟩
    · rw [List.length_append]
      omega
    · have htext : (encode text.toList).toString? = some text := by
        rw [Bytes.toString?, decode?_encode, Option.map_some, String.ofList_toList]
      simp only [htext]

/-- A body is read on its own, in front of a quote and nothing else. -/
theorem spells_iff {lenient : Bool} {b s : List Char} :
    Spells lenient b s ↔
      readString lenient (encode b ++ [0x22]) = .ok (String.ofList s, []) := by
  rw [readString_eq_ok_iff, String.toList_ofList]
  constructor
  · intro h
    exact ⟨b, h, rfl⟩
  · rintro ⟨b', h, heq⟩
    rwa [Text.Utf8.encode_injective (List.append_cancel_right heq)]

instance (lenient : Bool) (b s : List Char) : Decidable (Spells lenient b s) :=
  decidable_of_iff _ spells_iff.symm

example : Spells false "\\ud83d\\ude00\\/".toList "😀/".toList := by decide +kernel

end QualityGate.Json
