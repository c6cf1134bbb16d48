import Mathlib.Data.List.Basic
import Mathlib.Data.List.Induction
import QualityGate.Json.Reading
import QualityGate.Proofs.Json.Scaling
import QualityGate.Proofs.Text.Utf8

/-! # Reading numbers

A number is read as far as digits, a fraction and an exponent go on, so it is read whole only in
front of something that ends it. `readNumber_of_numberValue` and `of_readNumber` say that there the
reader agrees with the grammar. Whole numbers are compared with their decimals, which have one form
only; any other number is kept if it fits. -/

namespace QualityGate.Json

open Text.Utf8 (encode encodeChar encode_nil encode_cons encode_append encode_injective
  encodeChar_of_lt eq_encode_of_lt)

/-! ### Digits -/

theorem isDigit_iff {b : UInt8} : isDigit b = true ↔ 0x30 ≤ b.toNat ∧ b.toNat ≤ 0x39 := by
  simp only [isDigit, Bool.and_eq_true, decide_eq_true_eq, UInt8.le_iff_toNat_le]
  exact Iff.rfl

/-- The bounds of `Char.isDigit_iff_toNat` as numbers. -/
theorem charIsDigit_iff {c : Char} :
    c.isDigit = true ↔ 0x30 ≤ c.toNat ∧ c.toNat ≤ 0x39 :=
  Char.isDigit_iff_toNat

/-- A digit is one byte with its own number. -/
theorem encodeChar_digit {c : Char} (h : c.isDigit = true) :
    ∃ b, encodeChar c = [b] ∧ b.toNat = c.toNat := by
  have hc := charIsDigit_iff.mp h
  refine ⟨_, encodeChar_of_lt (by omega), ?_⟩
  rw [UInt8.toNat_ofNat', Nat.mod_eq_of_lt (by omega)]

theorem isDigit_of_mem_encode {ds : List Char} (h : ∀ c ∈ ds, c.isDigit = true) :
    ∀ b ∈ encode ds, isDigit b = true := by
  intro b hb
  obtain ⟨c, hc, hb⟩ := List.mem_flatMap.mp hb
  obtain ⟨b', hb', hnat⟩ := encodeChar_digit (h c hc)
  rw [hb', List.mem_singleton] at hb
  subst hb
  rw [isDigit_iff, hnat]
  exact charIsDigit_iff.mp (h c hc)

theorem exists_digits {bs : Bytes} (h : ∀ b ∈ bs, isDigit b = true) :
    ∃ ds, (∀ c ∈ ds, c.isDigit = true) ∧ bs = encode ds := by
  have hlt : ∀ b ∈ bs, b.toNat < 0x80 := fun b hb => by
    have := isDigit_iff.mp (h b hb)
    omega
  refine ⟨_, ?_, eq_encode_of_lt hlt⟩
  intro c hc
  obtain ⟨b, hb, rfl⟩ := List.mem_map.mp hc
  have hd := isDigit_iff.mp (h b hb)
  rw [charIsDigit_iff, Text.Utf8.toNat_ofNat (.inl (by omega))]
  exact hd

theorem digitsValue_encode {ds : List Char} (h : ∀ c ∈ ds, c.isDigit = true) :
    digitsValue (encode ds) = Nat.ofDigitChars 10 ds 0 := by
  suffices hinit : ∀ n, (encode ds).foldl (fun n b => 10 * n + (b.toNat - 0x30)) n =
      Nat.ofDigitChars 10 ds n from hinit 0
  induction ds with
  | nil => exact fun n => rfl
  | cons c ds ih =>
    intro n
    obtain ⟨b, hb, hnat⟩ := encodeChar_digit (h c List.mem_cons_self)
    rw [encode_cons, hb, List.singleton_append, List.foldl_cons, hnat, Nat.ofDigitChars_cons,
      ih fun x hx => h x (List.mem_cons_of_mem c hx)]
    rfl

/-- No digit comes next. -/
def NoDigitAhead (s : Bytes) : Prop := ∀ b ∈ s.head?, isDigit b = false

theorem takeWhile_digits {ds : List Char} (h : ∀ c ∈ ds, c.isDigit = true) {rest : Bytes}
    (hrest : NoDigitAhead rest) :
    (encode ds ++ rest).takeWhile isDigit = encode ds ∧
      (encode ds ++ rest).dropWhile isDigit = rest := by
  have hds := isDigit_of_mem_encode h
  rw [List.takeWhile_append_of_pos hds, List.dropWhile_append_of_pos hds]
  cases rest with
  | nil => simp
  | cons b rest =>
    have hb : isDigit b = false := hrest b rfl
    simp [hb]

theorem readDigits_of_isDigits {ds : List Char} (h : IsDigits ds) {rest : Bytes}
    (hrest : NoDigitAhead rest) : readDigits (encode ds ++ rest) = .ok (encode ds, rest) := by
  obtain ⟨htake, hdrop⟩ := takeWhile_digits h.2 hrest
  obtain ⟨c, ds', rfl⟩ := List.exists_cons_of_ne_nil h.1
  obtain ⟨b, hb, -⟩ := encodeChar_digit (h.2 c List.mem_cons_self)
  have hd : isDigit b = true := isDigit_of_mem_encode h.2 b (by simp [hb])
  rw [encode_cons, hb, List.singleton_append, List.cons_append] at htake hdrop ⊢
  rw [readDigits, if_pos hd, htake, hdrop]

theorem of_readDigits {s bs rest : Bytes} (h : readDigits s = .ok (bs, rest)) :
    ∃ ds, IsDigits ds ∧ bs = encode ds ∧ s = encode ds ++ rest := by
  cases s with
  | nil => exact absurd h (by simp [readDigits])
  | cons b s =>
    rw [readDigits] at h
    split at h
    · rename_i hb
      obtain ⟨hbs, hrest⟩ := Prod.mk.inj (Except.ok.inj h)
      obtain ⟨ds, hds, heq⟩ := exists_digits fun x hx =>
        List.all_eq_true.mp List.all_takeWhile x hx
      refine ⟨ds, ⟨?_, hds⟩, hbs.symm.trans heq, ?_⟩
      · rintro rfl
        rw [List.takeWhile_cons_of_pos hb] at heq
        exact absurd heq (List.cons_ne_nil _ _)
      · rw [← heq, ← hrest, List.takeWhile_append_dropWhile]
    · exact absurd h (by simp)

theorem readWhole_of_isWhole {ds : List Char} (h : IsWhole ds) {rest : Bytes}
    (hrest : NoDigitAhead rest) : readWhole (encode ds ++ rest) = .ok (encode ds, rest) := by
  rcases h with rfl | ⟨h, hhead⟩
  · have hno : ¬ rest.head?.any isDigit = true := by
      cases rest with
      | nil => simp
      | cons b rest => simpa using hrest b rfl
    show readWhole (0x30 :: rest) = _
    rw [readWhole, if_pos rfl, if_neg hno]
    rfl
  · obtain ⟨htake, hdrop⟩ := takeWhile_digits h.2 hrest
    obtain ⟨c, ds', rfl⟩ := List.exists_cons_of_ne_nil h.1
    obtain ⟨b, hb, hnat⟩ := encodeChar_digit (h.2 c List.mem_cons_self)
    have hd : isDigit b = true := isDigit_of_mem_encode h.2 b (by simp [hb])
    have hzero : b ≠ 0x30 := by
      rintro rfl
      exact hhead (congrArg some (Char.toNat_inj.mp hnat.symm))
    rw [encode_cons, hb, List.singleton_append, List.cons_append] at htake hdrop ⊢
    rw [List.takeWhile_cons_of_pos hd] at htake
    rw [List.dropWhile_cons_of_pos hd] at hdrop
    rw [readWhole, if_neg hzero, if_pos hd, htake, hdrop]

theorem of_readWhole {s bs rest : Bytes} (h : readWhole s = .ok (bs, rest)) :
    ∃ ds, IsWhole ds ∧ bs = encode ds ∧ s = encode ds ++ rest := by
  cases s with
  | nil => exact absurd h (by simp [readWhole])
  | cons b s =>
    rw [readWhole] at h
    by_cases hzero : b = 0x30
    · rw [if_pos hzero] at h
      split at h
      · exact absurd h (by simp)
      · obtain ⟨rfl, rfl⟩ := Prod.mk.inj (Except.ok.inj h)
        subst hzero
        exact ⟨['0'], .inl rfl, rfl, rfl⟩
    · rw [if_neg hzero] at h
      by_cases hd : isDigit b = true
      · rw [if_pos hd] at h
        have hread : readDigits (b :: s) = .ok (bs, rest) := by
          rw [readDigits, if_pos hd, List.takeWhile_cons_of_pos hd, List.dropWhile_cons_of_pos hd,
            h]
        obtain ⟨ds, hds, rfl, hs⟩ := of_readDigits hread
        refine ⟨ds, .inr ⟨hds, fun hhead => hzero ?_⟩, rfl, hs⟩
        obtain ⟨ds', rfl⟩ := List.head?_eq_some_iff.mp hhead
        exact (List.cons.inj hs).1
      · rw [if_neg hd] at h
        exact absurd h (by simp)

theorem IsWhole.isDigit {ds : List Char} (h : IsWhole ds) : ∀ c ∈ ds, c.isDigit = true := by
  rcases h with rfl | h
  · exact List.forall_mem_singleton.mpr rfl
  · exact h.1.2

theorem IsWhole.exists_cons {ds : List Char} (h : IsWhole ds) :
    ∃ c ds', ds = c :: ds' ∧ c.isDigit = true := by
  have hne : ds ≠ [] := by
    rcases h with rfl | h
    · exact List.cons_ne_nil _ _
    · exact h.1.1
  obtain ⟨c, ds', rfl⟩ := List.exists_cons_of_ne_nil hne
  exact ⟨c, ds', rfl, h.isDigit c List.mem_cons_self⟩

/-! ### Fractions and exponents -/

/-- What may follow a value: nothing, a blank, a comma or a closing bracket. -/
def Ends (rest : Bytes) : Prop :=
  ∀ b ∈ rest.head?, isBlank b = true ∨ b = 0x2C ∨ b = 0x5D ∨ b = 0x7D

/-- Nothing that ends a value goes on with a number. -/
theorem Ends.head {rest : Bytes} (h : Ends rest) {b : UInt8} (hb : b ∈ rest.head?) :
    isDigit b = false ∧ b ≠ 0x2E ∧ b ≠ 0x65 ∧ b ≠ 0x45 := by
  rcases h b hb with hblank | rfl | rfl | rfl
  · simp only [isBlank, Bool.or_eq_true, decide_eq_true_eq] at hblank
    rcases hblank with ((rfl | rfl) | rfl) | rfl <;> decide
  all_goals decide

theorem ends_nil : Ends [] := fun b hb => absurd hb (by simp)

theorem Ends.noDigitAhead {rest : Bytes} (h : Ends rest) : NoDigitAhead rest :=
  fun _ hb => (h.head hb).1

theorem encodeChar_point : encodeChar '.' = [0x2E] := rfl

theorem encodeChar_exponent {e : Char} (he : e = 'e' ∨ e = 'E') :
    ∃ b, encodeChar e = [b] ∧ (b = 0x65 ∨ b = 0x45) := by
  rcases he with rfl | rfl
  · exact ⟨_, rfl, .inl rfl⟩
  · exact ⟨_, rfl, .inr rfl⟩

theorem exponent_of_byte {b : UInt8} (hb : b = 0x65 ∨ b = 0x45) :
    ∃ e, (e = 'e' ∨ e = 'E') ∧ encodeChar e = [b] := by
  rcases hb with rfl | rfl
  · exact ⟨'e', .inl rfl, rfl⟩
  · exact ⟨'E', .inr rfl, rfl⟩

namespace Numeral

theorem readFraction_of_written {f : Option Bytes} {fs : List Char} (h : FractionWritten f fs)
    {rest : Bytes} (hdigit : NoDigitAhead rest) (hpoint : ∀ b ∈ rest.head?, b ≠ 0x2E) :
    readFraction (encode fs ++ rest) = .ok (f, rest) := by
  cases h with
  | none =>
    rw [encode_nil, List.nil_append]
    unfold readFraction
    split
    · exact absurd rfl (hpoint _ rfl)
    · rfl
  | some h =>
    rw [encode_cons, encodeChar_point, List.singleton_append, List.cons_append, readFraction]
    exact bind_eq_ok_iff.mpr ⟨_, readDigits_of_isDigits h hdigit, rfl⟩

theorem of_readFraction {s rest : Bytes} {f : Option Bytes} (h : readFraction s = .ok (f, rest)) :
    ∃ fs, FractionWritten f fs ∧ s = encode fs ++ rest := by
  unfold readFraction at h
  split at h
  · obtain ⟨⟨bs, s'⟩, hdigits, h'⟩ := bind_eq_ok_iff.mp h
    obtain ⟨rfl, rfl⟩ := Prod.mk.inj (Except.ok.inj h')
    obtain ⟨ds, hds, rfl, rfl⟩ := of_readDigits hdigits
    exact ⟨_, .some hds, by simp [encodeChar_point]⟩
  · obtain ⟨rfl, rfl⟩ := Prod.mk.inj (Except.ok.inj h)
    exact ⟨[], .none, rfl⟩

/-- Whether a minus comes next, and what follows the sign if there is one. -/
def exponentSign (s : Bytes) : Bool × Bytes :=
  match s with
  | 0x2B :: s => (false, s)
  | 0x2D :: s => (true, s)
  | s => (false, s)

theorem exponentSign_of_isDigit {b : UInt8} (hb : isDigit b = true) (s : Bytes) :
    exponentSign (b :: s) = (false, b :: s) := by
  unfold exponentSign
  split
  · exact absurd hb (by simp_all [isDigit])
  · exact absurd hb (by simp_all [isDigit])
  · rfl

theorem exponentSign_cases (s : Bytes) :
    s = 0x2B :: (exponentSign s).2 ∧ (exponentSign s).1 = false ∨
      s = 0x2D :: (exponentSign s).2 ∧ (exponentSign s).1 = true ∨ exponentSign s = (false, s) := by
  unfold exponentSign
  split
  · exact .inl ⟨rfl, rfl⟩
  · exact .inr (.inl ⟨rfl, rfl⟩)
  · exact .inr (.inr rfl)

theorem readExponent_cons (b : UInt8) (s : Bytes) :
    readExponent (b :: s) =
      if b = 0x65 ∨ b = 0x45 then do
        let (ds, rest) ← readDigits (exponentSign s).2
        .ok (some (if (exponentSign s).1 then -(digitsValue ds : Int) else digitsValue ds), rest)
      else
        .ok (none, b :: s) := rfl

theorem readExponent_eq_ok_iff {b : UInt8} (hb : b = 0x65 ∨ b = 0x45) {s rest : Bytes}
    {e : Option Int} :
    readExponent (b :: s) = .ok (e, rest) ↔
      ∃ ds, readDigits (exponentSign s).2 = .ok (ds, rest) ∧
        some (if (exponentSign s).1 then -(digitsValue ds : Int) else digitsValue ds) = e := by
  rw [readExponent_cons, if_pos hb]
  simp [bind_eq_ok_iff]

theorem readExponent_of_written {e : Option Int} {es : List Char} (h : ExponentWritten e es)
    {rest : Bytes} (hrest : Ends rest) : readExponent (encode es ++ rest) = .ok (e, rest) := by
  cases h with
  | none =>
    cases rest with
    | nil => rfl
    | cons b rest =>
      obtain ⟨-, -, hlower, hupper⟩ := hrest.head rfl
      rw [encode_nil, List.nil_append, readExponent_cons,
        if_neg (by simp [hlower, hupper])]
  | @plain e ds he hds =>
    obtain ⟨b, hb, hletter⟩ := encodeChar_exponent he
    obtain ⟨c, ds', rfl⟩ := List.exists_cons_of_ne_nil hds.1
    obtain ⟨x, hx, -⟩ := encodeChar_digit (hds.2 c List.mem_cons_self)
    have hsign : exponentSign (encode (c :: ds') ++ rest) = (false, encode (c :: ds') ++ rest) := by
      rw [encode_cons, hx, List.singleton_append, List.cons_append]
      exact exponentSign_of_isDigit (isDigit_of_mem_encode hds.2 x (by simp [hx])) _
    rw [encode_cons, hb, List.singleton_append, List.cons_append, readExponent_eq_ok_iff hletter,
      hsign]
    exact ⟨_, readDigits_of_isDigits hds hrest.noDigitAhead, rfl⟩
  | plus he hds =>
    obtain ⟨b, hb, hletter⟩ := encodeChar_exponent he
    rw [encode_cons, hb, List.singleton_append, List.cons_append, readExponent_eq_ok_iff hletter]
    exact ⟨_, readDigits_of_isDigits hds hrest.noDigitAhead, rfl⟩
  | minus he hds =>
    obtain ⟨b, hb, hletter⟩ := encodeChar_exponent he
    rw [encode_cons, hb, List.singleton_append, List.cons_append, readExponent_eq_ok_iff hletter]
    exact ⟨_, readDigits_of_isDigits hds hrest.noDigitAhead, rfl⟩

theorem of_readExponent {s rest : Bytes} {e : Option Int} (h : readExponent s = .ok (e, rest)) :
    ∃ es, ExponentWritten e es ∧ s = encode es ++ rest := by
  cases s with
  | nil =>
    obtain ⟨rfl, rfl⟩ := Prod.mk.inj (Except.ok.inj h)
    exact ⟨[], .none, rfl⟩
  | cons b s =>
    by_cases hb : b = 0x65 ∨ b = 0x45
    · obtain ⟨letter, hletter, hbyte⟩ := exponent_of_byte hb
      obtain ⟨bs, hdigits, rfl⟩ := (readExponent_eq_ok_iff hb).mp h
      obtain ⟨ds, hds, rfl, hs⟩ := of_readDigits hdigits
      rcases exponentSign_cases s with ⟨hsign, hplus⟩ | ⟨hsign, hminus⟩ | hsign
      · refine ⟨letter :: '+' :: ds, ?_, ?_⟩
        · rw [hplus]
          exact .plus hletter hds
        · rw [hsign, hs, encode_cons, hbyte]
          rfl
      · refine ⟨letter :: '-' :: ds, ?_, ?_⟩
        · rw [hminus]
          exact .minus hletter hds
        · rw [hsign, hs, encode_cons, hbyte]
          rfl
      · rw [hsign] at hs ⊢
        replace hs : s = encode ds ++ rest := hs
        refine ⟨letter :: ds, .plain hletter hds, ?_⟩
        rw [encode_cons, hbyte, hs]
        rfl
    · rw [readExponent_cons, if_neg hb] at h
      obtain ⟨rfl, rfl⟩ := Prod.mk.inj (Except.ok.inj h)
      exact ⟨[], .none, rfl⟩

/-! ### Numerals -/

def signAhead (s : Bytes) : Bool × Bytes :=
  match s with
  | 0x2D :: s => (true, s)
  | s => (false, s)

theorem readNumeral_eq_ok_iff {s rest : Bytes} {n : Numeral} :
    readNumeral s = .ok (n, rest) ↔
      ∃ ds s₁ f s₂ e, readWhole (signAhead s).2 = .ok (ds, s₁) ∧ readFraction s₁ = .ok (f, s₂) ∧
        readExponent s₂ = .ok (e, rest) ∧ ⟨(signAhead s).1, ds, f, e⟩ = n := by
  have hread : readNumeral s = (do
      let whole ← readWhole (signAhead s).2
      let fraction ← readFraction whole.2
      let exponent ← readExponent fraction.2
      .ok (⟨(signAhead s).1, whole.1, fraction.1, exponent.1⟩, exponent.2)) := rfl
  rw [hread]
  simp [bind_eq_ok_iff]

theorem ExponentWritten.head {e : Option Int} {es : List Char} (h : ExponentWritten e es)
    {rest : Bytes} (hrest : Ends rest) {b : UInt8} (hb : b ∈ (encode es ++ rest).head?) :
    isDigit b = false ∧ b ≠ 0x2E := by
  have hletter : ∀ {e : Char} {t : List Char}, e = 'e' ∨ e = 'E' →
      b ∈ (encode (e :: t) ++ rest).head? → isDigit b = false ∧ b ≠ 0x2E := by
    rintro e t (rfl | rfl) hb
    · obtain rfl : 0x65 = b := Option.some.inj hb
      decide
    · obtain rfl : 0x45 = b := Option.some.inj hb
      decide
  cases h with
  | none => exact ⟨(hrest.head hb).1, (hrest.head hb).2.1⟩
  | plain he _ => exact hletter he hb
  | plus he _ => exact hletter he hb
  | minus he _ => exact hletter he hb

theorem FractionWritten.noDigitAhead {f : Option Bytes} {fs : List Char} (h : FractionWritten f fs)
    {rest : Bytes} (hrest : NoDigitAhead rest) : NoDigitAhead (encode fs ++ rest) := by
  cases h with
  | none => exact hrest
  | some _ =>
    intro b hb
    obtain rfl : 0x2E = b := Option.some.inj hb
    decide

/-- A digit is no minus. -/
theorem signAhead_whole {ds : List Char} (h : IsWhole ds) (rest : Bytes) :
    signAhead (encode ds ++ rest) = (false, encode ds ++ rest) := by
  obtain ⟨c, ds', rfl, hc⟩ := h.exists_cons
  obtain ⟨b, hb, hnat⟩ := encodeChar_digit hc
  rw [encode_cons, hb, List.singleton_append, List.cons_append]
  unfold signAhead
  split
  · rename_i heq
    rw [(List.cons.inj heq).1] at hnat
    have hrange := charIsDigit_iff.mp hc
    rw [← hnat] at hrange
    exact absurd hrange (by decide)
  · rfl

theorem readNumeral_of_written {n : Numeral} {text : List Char} (h : n.Written text) {rest : Bytes}
    (hrest : Ends rest) : readNumeral (encode text ++ rest) = .ok (n, rest) := by
  obtain @⟨negative, ds, fs, es, f, e, hds, hfs, hes⟩ := h
  have hahead : NoDigitAhead (encode es ++ rest) := fun b hb => (hes.head hrest hb).1
  have hpoint : ∀ b ∈ (encode es ++ rest).head?, b ≠ 0x2E := fun b hb => (hes.head hrest hb).2
  simp only [encode_append, List.append_assoc]
  refine readNumeral_eq_ok_iff.mpr ⟨encode ds, _, f, _, e, ?_,
    readFraction_of_written hfs hahead hpoint, readExponent_of_written hes hrest, ?_⟩
  · cases negative with
    | true => exact readWhole_of_isWhole hds (hfs.noDigitAhead hahead)
    | false =>
      rw [sign, if_neg Bool.false_ne_true, encode_nil, List.nil_append, signAhead_whole hds]
      exact readWhole_of_isWhole hds (hfs.noDigitAhead hahead)
  · cases negative with
    | true => rfl
    | false =>
      rw [sign, if_neg Bool.false_ne_true, encode_nil, List.nil_append, signAhead_whole hds]

theorem of_readNumeral {s rest : Bytes} {n : Numeral} (h : readNumeral s = .ok (n, rest)) :
    ∃ text, n.Written text ∧ s = encode text ++ rest := by
  obtain ⟨bs, s₁, f, s₂, e, hwhole, hfraction, hexponent, rfl⟩ := readNumeral_eq_ok_iff.mp h
  obtain ⟨ds, hds, rfl, hs⟩ := of_readWhole hwhole
  obtain ⟨fs, hfs, rfl⟩ := of_readFraction hfraction
  obtain ⟨es, hes, rfl⟩ := of_readExponent hexponent
  refine ⟨_, .mk hds hfs hes, ?_⟩
  have hsign : s = encode (sign (signAhead s).1) ++ (signAhead s).2 := by
    unfold signAhead
    split <;> rfl
  refine hsign.trans ?_
  rw [hs]
  simp only [encode_append, List.append_assoc]

/-- A number is written in one way at most. -/
theorem Written.unique {n m : Numeral} {text : List Char} (hn : n.Written text)
    (hm : m.Written text) : n = m := by
  have hread := readNumeral_of_written hn ends_nil
  rw [readNumeral_of_written hm ends_nil] at hread
  exact (Prod.mk.inj (Except.ok.inj hread)).1.symm

/-- A number is read on its own, with nothing behind it. -/
theorem isNumber_iff {text : List Char} :
    IsNumber text ↔ (readNumeral (encode text)).toOption.map Prod.snd = some [] := by
  constructor
  · rintro ⟨n, hn⟩
    have hread := readNumeral_of_written hn ends_nil
    rw [List.append_nil] at hread
    rw [hread]
    rfl
  · intro h
    cases hread : readNumeral (encode text) with
    | error f =>
      rw [hread] at h
      exact absurd h (by simp [Except.toOption])
    | ok r =>
      obtain ⟨n, rest⟩ := r
      rw [hread] at h
      obtain rfl : rest = [] := Option.some.inj h
      obtain ⟨u, hu, heq⟩ := of_readNumeral hread
      rw [List.append_nil] at heq
      rw [encode_injective heq]
      exact ⟨n, hu⟩

instance : DecidablePred IsNumber := fun _ => decidable_of_iff _ isNumber_iff.symm

end Numeral

/-! ### Whole numbers -/

theorem head?_toDigits {m : Nat} (h : m ≠ 0) : (Nat.toDigits 10 m).head? ≠ some '0' := by
  induction m using Nat.strongRecOn with
  | ind m ih =>
    by_cases hlt : m < 10
    · rw [Nat.toDigits_of_lt_base hlt]
      have hall : ∀ d < 10, d ≠ 0 → [d.digitChar].head? ≠ some '0' := by decide
      exact hall m hlt h
    · rw [Nat.toDigits_of_base_le (by decide) (Nat.not_lt.mp hlt),
        List.head?_append_of_ne_nil _ Nat.toDigits_ne_nil]
      exact ih (m / 10) (by omega) (by omega)

theorem isWhole_toDigits (m : Nat) : IsWhole (Nat.toDigits 10 m) := by
  by_cases h : m = 0
  · subst h
    exact .inl rfl
  · refine .inr ⟨⟨Nat.toDigits_ne_nil, fun c hc => ?_⟩, head?_toDigits h⟩
    exact Nat.isDigit_of_mem_toDigits (by decide) (by decide) hc

theorem digitChar_of_isDigit {c : Char} (h : c.isDigit = true) :
    c.toNat - '0'.toNat < 10 ∧ (c.toNat - '0'.toNat).digitChar = c := by
  have hc := charIsDigit_iff.mp h
  have hlt : c.toNat - '0'.toNat < 10 := by
    show c.toNat - 0x30 < 10
    omega
  refine ⟨hlt, Char.toNat_inj.mp ?_⟩
  rw [Nat.toNat_digitChar_of_lt_ten hlt]
  exact Nat.add_sub_cancel' hc.1

/-- Digits that start with no zero are the decimal of the number that they write. -/
theorem toDigits_ofDigitChars {ds : List Char} (h : IsWhole ds) :
    Nat.toDigits 10 (Nat.ofDigitChars 10 ds 0) = ds := by
  induction ds using List.reverseRecOn with
  | nil =>
    rcases h with h | h
    · exact absurd h (by decide)
    · exact absurd rfl h.1.1
  | append_singleton ds c ih =>
    obtain ⟨hlt, hchar⟩ := digitChar_of_isDigit (h.isDigit c (by simp))
    rw [Nat.ofDigitChars_append, Nat.ofDigitChars_cons]
    generalize c.toNat - '0'.toNat = d at *
    rw [show Nat.ofDigitChars 10 [] (10 * Nat.ofDigitChars 10 ds 0 + d) =
      10 * Nat.ofDigitChars 10 ds 0 + d from rfl]
    by_cases hnil : ds = []
    · subst hnil
      rw [show 10 * Nat.ofDigitChars 10 [] 0 + d = d from Nat.zero_add d,
        Nat.toDigits_of_lt_base hlt, hchar]
      rfl
    · have hds : IsDigits ds ∧ ds.head? ≠ some '0' := by
        rcases h with h | ⟨⟨-, hdigits⟩, hhead⟩
        · have hlength := congrArg List.length h
          rw [List.length_append] at hlength
          exact absurd (List.length_eq_zero_iff.mp (Nat.succ.inj hlength)) hnil
        · rw [List.head?_append_of_ne_nil _ hnil] at hhead
          exact ⟨⟨hnil, fun x hx => hdigits x (List.mem_append_left _ hx)⟩, hhead⟩
      have hpos : Nat.ofDigitChars 10 ds 0 ≠ 0 := by
        intro hzero
        have hds' := ih (.inr hds)
        rw [hzero] at hds'
        exact hds.2 (hds' ▸ rfl)
      rw [Nat.toDigits_of_base_le (by decide) (by omega),
        show (10 * Nat.ofDigitChars 10 ds 0 + d) / 10 = Nat.ofDigitChars 10 ds 0 by omega,
        show (10 * Nat.ofDigitChars 10 ds 0 + d) % 10 = d by omega, ih (.inr hds), hchar]

theorem digitsValue_toDigits (m : Nat) : digitsValue (encode (Nat.toDigits 10 m)) = m := by
  rw [digitsValue_encode fun c hc => Nat.isDigit_of_mem_toDigits (by decide) (by decide) hc]
  exact Nat.ofDigitChars_ten_toDigits

theorem toList_toString (k : Int) :
    (toString k).toList = Numeral.sign (k < 0) ++ Nat.toDigits 10 k.natAbs := by
  cases k with
  | ofNat m =>
    have hsign : Numeral.sign (decide (Int.ofNat m < 0)) = [] := by
      rw [decide_eq_false (Int.not_lt.mpr (Int.natCast_nonneg m) : ¬ Int.ofNat m < 0)]
      rfl
    rw [hsign]
    show (Nat.repr m).toList = _
    rw [Nat.repr_eq_ofList_toDigits, String.toList_ofList]
    rfl
  | negSucc m =>
    have hsign : Numeral.sign (decide (Int.negSucc m < 0)) = ['-'] := by
      rw [decide_eq_true (Int.negSucc_lt_zero m)]
      rfl
    rw [hsign]
    show ("-" ++ Nat.repr (m + 1)).toList = ['-'] ++ Nat.toDigits 10 (m + 1)
    rw [String.toList_append, Nat.repr_eq_ofList_toDigits]
    exact congrArg ('-' :: ·) String.toList_ofList

def Numeral.ofInt (k : Int) : Numeral := ⟨k < 0, encode (Nat.toDigits 10 k.natAbs), none, none⟩

theorem Numeral.written_ofInt (k : Int) : (ofInt k).Written (toString k).toList := by
  have h : (ofInt k).Written (sign (k < 0) ++ Nat.toDigits 10 k.natAbs ++ [] ++ []) :=
    .mk (isWhole_toDigits k.natAbs) .none .none
  rw [List.append_nil, List.append_nil] at h
  rw [toList_toString]
  exact h

theorem Numeral.number_ofInt {k : Int} (hlow : -2 ^ 63 ≤ k) (hhigh : k < 2 ^ 64) :
    (ofInt k).number = .whole k := by
  have hpow₁ : Nat.pow 2 63 = 2 ^ 63 := rfl
  have hpow₂ : Nat.pow 2 64 = 2 ^ 64 := rfl
  simp only [number, ofInt, Option.isSome_none, Bool.false_eq_true, or_self, if_false,
    digitsValue_toDigits, decide_eq_true_eq, hpow₁, hpow₂]
  by_cases hneg : k < 0
  · rw [if_pos hneg, if_pos (by omega)]
    congr
    omega
  · rw [if_neg hneg, if_pos (by omega)]
    congr
    omega

theorem Numeral.number_cases (n : Numeral) :
    n.number = .real n.real ∨ ∃ k, n.number = .whole k := by
  rw [number]
  split
  · exact .inl rfl
  · split
    · split
      · exact .inr ⟨_, rfl⟩
      · exact .inl rfl
    · split
      · exact .inr ⟨_, rfl⟩
      · exact .inl rfl

/-- A number is kept whole only as the decimal of one that a word can hold. -/
theorem Numeral.Written.number_cases {n : Numeral} {text : List Char} (h : n.Written text) :
    n.number = .real n.real ∨ ∃ k, n.number = .whole k ∧ IsWordDecimal text k := by
  obtain @⟨negative, ds, fs, es, f, e, hds, hfs, hes⟩ := h
  have hpow₁ : Nat.pow 2 63 = 2 ^ 63 := rfl
  have hpow₂ : Nat.pow 2 64 = 2 ^ 64 := rfl
  have hdigits : Nat.toDigits 10 (digitsValue (encode ds)) = ds := by
    rw [digitsValue_encode hds.isDigit, toDigits_ofDigitChars hds]
  rw [number]
  dsimp only
  by_cases hreal : f.isSome = true ∨ e.isSome = true
  · rw [if_pos hreal]
    exact .inl rfl
  rw [if_neg hreal]
  obtain ⟨hf, he⟩ := not_or.mp hreal
  obtain rfl : f = none := by simpa using hf
  obtain rfl : e = none := by simpa using he
  cases hfs
  cases hes
  rw [List.append_nil, List.append_nil]
  generalize digitsValue (encode ds) = m at *
  cases negative with
  | true =>
    rw [if_pos rfl]
    by_cases hm : 0 < m ∧ m ≤ Nat.pow 2 63
    · rw [if_pos hm]
      refine .inr ⟨-(m : Int), rfl, by omega, by omega, ?_⟩
      rw [toList_toString, decide_eq_true (by omega), Int.natAbs_neg, Int.natAbs_natCast, hdigits]
    · rw [if_neg hm]
      exact .inl rfl
  | false =>
    rw [if_neg Bool.false_ne_true]
    by_cases hm : m < Nat.pow 2 64
    · rw [if_pos hm]
      refine .inr ⟨(m : Int), rfl, by omega, by omega, ?_⟩
      rw [toList_toString, decide_eq_false (by omega), Int.natAbs_natCast, hdigits]
    · rw [if_neg hm]
      exact .inl rfl

/-! ### Numbers -/

/-- A decimal that a word can hold is kept whole. -/
theorem Numeral.Written.number_of_isWordDecimal {n : Numeral} {text : List Char} {k : Int}
    (h : n.Written text) (hk : IsWordDecimal text k) : n.number = .whole k := by
  obtain ⟨hlow, hhigh, rfl⟩ := hk
  rw [h.unique (written_ofInt k), number_ofInt hlow hhigh]

theorem NumberValue.isNumber {lenient : Bool} {text : List Char} {x : Number}
    (h : NumberValue lenient text x) : IsNumber text := by
  cases h with
  | whole h =>
    obtain ⟨-, -, rfl⟩ := h
    exact ⟨_, Numeral.written_ofInt _⟩
  | real h _ _ => exact ⟨_, h⟩

theorem numberValue_of_written {lenient : Bool} {n : Numeral} {text : List Char}
    (h : n.Written text) (hfits : lenient = false → n.Fits) :
    NumberValue lenient text n.number := by
  by_cases hword : ∃ k, IsWordDecimal text k
  · obtain ⟨k, hk⟩ := hword
    rw [h.number_of_isWordDecimal hk]
    exact .whole hk
  · rcases h.number_cases with hreal | ⟨k, -, hk⟩
    · rw [hreal]
      exact .real h (fun k hk => hword ⟨k, hk⟩) hfits
    · exact absurd ⟨k, hk⟩ hword

theorem readNumber_eq_ok_iff {lenient : Bool} {s rest : Bytes} {x : Number} :
    readNumber lenient s = .ok (x, rest) ↔ ∃ n, readNumeral s = .ok (n, rest) ∧ n.number = x ∧
      (n.number = .real n.real → lenient = false → n.Fits) := by
  rw [readNumber, bind_eq_ok_iff]
  simp only [Prod.exists]
  constructor
  · rintro ⟨n, s', hnumeral, h⟩
    rcases n.number_cases with hreal | ⟨k, hwhole⟩
    · rw [hreal] at h
      dsimp only at h
      split at h
      · exact absurd h (by simp)
      · rename_i hfits
        obtain ⟨rfl, rfl⟩ := Prod.mk.inj (Except.ok.inj h)
        refine ⟨n, hnumeral, hreal, fun _ hstrict => ?_⟩
        rw [n.fits_iff]
        simpa [hstrict] using hfits
    · rw [hwhole] at h
      obtain ⟨rfl, rfl⟩ := Prod.mk.inj (Except.ok.inj h)
      exact ⟨n, hnumeral, hwhole, fun hreal => absurd (hwhole.symm.trans hreal) (by simp)⟩
  · rintro ⟨n, hnumeral, rfl, hfits⟩
    refine ⟨n, rest, hnumeral, ?_⟩
    rcases n.number_cases with hreal | ⟨k, hwhole⟩
    · rw [hreal]
      dsimp only
      rw [if_neg]
      rw [Bool.and_eq_true, Bool.not_eq_true', decide_eq_true_eq]
      rintro ⟨hstrict, hlarge⟩
      exact n.fits_iff.mp (hfits hreal hstrict) hlarge
    · rw [hwhole]

/-- A number is read in front of what ends it. -/
theorem readNumber_of_numberValue {lenient : Bool} {text : List Char} {x : Number}
    (h : NumberValue lenient text x) {rest : Bytes} (hrest : Ends rest) :
    readNumber lenient (encode text ++ rest) = .ok (x, rest) := by
  cases h with
  | @whole k h =>
    obtain ⟨n, hn⟩ := (show NumberValue lenient text (.whole k) from .whole h).isNumber
    have hnumber := hn.number_of_isWordDecimal h
    refine readNumber_eq_ok_iff.mpr ⟨n, Numeral.readNumeral_of_written hn hrest, hnumber, ?_⟩
    intro hreal
    rw [hnumber] at hreal
    exact absurd hreal (by simp)
  | real hn hno hfits =>
    refine readNumber_eq_ok_iff.mpr ⟨_, Numeral.readNumeral_of_written hn hrest, ?_, fun _ => hfits⟩
    rcases hn.number_cases with hreal | ⟨k, -, hk⟩
    · exact hreal
    · exact absurd hk (hno k)

/-- What is read as a number is one by the grammar. -/
theorem of_readNumber {lenient : Bool} {s rest : Bytes} {x : Number}
    (h : readNumber lenient s = .ok (x, rest)) :
    ∃ text, NumberValue lenient text x ∧ s = encode text ++ rest := by
  obtain ⟨n, hnumeral, rfl, hfits⟩ := readNumber_eq_ok_iff.mp h
  obtain ⟨text, hn, rfl⟩ := Numeral.of_readNumeral hnumeral
  refine ⟨text, ?_, rfl⟩
  rcases hn.number_cases with hreal | ⟨k, hwhole, hk⟩
  · exact numberValue_of_written hn (hfits hreal)
  · rw [hwhole]
    exact .whole hk

end QualityGate.Json
