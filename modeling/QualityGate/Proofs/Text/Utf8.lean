import QualityGate.Text.Utf8

/-! # Bytes and the texts that they spell

Reading undoes writing, and there is one way to write: `decode?_eq_some_iff`. The machine that reads
is followed through the one to four bytes of a character in both directions. A byte below `0x80` is
a character of its own; all bytes of any other character are above, and only its first one is from
`0xC0` on. -/

namespace QualityGate.Text.Utf8

@[simp]
theorem encode_nil : encode [] = [] := rfl

@[simp]
theorem encode_cons (c : Char) (s : List Char) : encode (c :: s) = encodeChar c ++ encode s :=
  List.flatMap_cons

@[simp]
theorem encode_append (s t : List Char) : encode (s ++ t) = encode s ++ encode t :=
  List.flatMap_append

/-! ### One byte of the machine -/

theorem encodeChar_of_lt {c : Char} (h : c.toNat < 0x80) :
    encodeChar c = [UInt8.ofNat c.toNat] := by
  simp [encodeChar, h]

theorem begin?_ofNat {k : Nat} (hk : k < 256) :
    begin? (UInt8.ofNat k) =
      if k < 0x80 then some ([Char.ofNat k], .start)
      else if k < 0xC2 then none
      else if k < 0xE0 then some ([], .inside 0 0x80 0xBF (k - 0xC0))
      else if k = 0xE0 then some ([], .inside 1 0xA0 0xBF 0)
      else if k = 0xED then some ([], .inside 1 0x80 0x9F 13)
      else if k < 0xF0 then some ([], .inside 1 0x80 0xBF (k - 0xE0))
      else if k = 0xF0 then some ([], .inside 2 0x90 0xBF 0)
      else if k < 0xF4 then some ([], .inside 2 0x80 0xBF (k - 0xF0))
      else if k = 0xF4 then some ([], .inside 2 0x80 0x8F 4)
      else none := by
  have hk' : k % 2 ^ 8 = k := Nat.mod_eq_of_lt hk
  simp only [begin?, UInt8.lt_iff_toNat_lt, ← UInt8.toNat_inj, UInt8.toNat_ofNat', hk']
  rfl

theorem accept?_inside_zero {low high : UInt8} {value k : Nat} (hk : k < 64)
    (hlow : low.toNat ≤ 0x80 + k) (hhigh : 0x80 + k ≤ high.toNat) :
    accept? (.inside 0 low high value) (UInt8.ofNat (0x80 + k)) =
      some ([Char.ofNat (value * 64 + k)], .start) := by
  have hk' : (0x80 + k) % 2 ^ 8 = 0x80 + k := Nat.mod_eq_of_lt (by omega)
  simp only [accept?, UInt8.le_iff_toNat_le, UInt8.toNat_ofNat', hk', hlow, hhigh, and_self,
    if_true, Nat.add_sub_cancel_left]

theorem accept?_inside_succ {low high : UInt8} {left value k : Nat} (hk : k < 64)
    (hlow : low.toNat ≤ 0x80 + k) (hhigh : 0x80 + k ≤ high.toNat) :
    accept? (.inside (left + 1) low high value) (UInt8.ofNat (0x80 + k)) =
      some ([], .inside left 0x80 0xBF (value * 64 + k)) := by
  have hk' : (0x80 + k) % 2 ^ 8 = 0x80 + k := Nat.mod_eq_of_lt (by omega)
  simp only [accept?, UInt8.le_iff_toNat_le, UInt8.toNat_ofNat', hk', hlow, hhigh, and_self,
    if_true, Nat.add_sub_cancel_left]

theorem decodeFrom?_of_accept? {st next : State} {b : UInt8} {out : List Char}
    (h : accept? st b = some (out, next)) (s : Bytes) :
    decodeFrom? st (b :: s) = (decodeFrom? next s).map (out ++ ·) := by
  simp only [decodeFrom?, h]

/-! ### What is written is read -/

/-- The code points are those below the surrogates and those above them. -/
theorem toNat_lt_or (c : Char) : c.toNat < 0xD800 ∨ 0xDFFF < c.toNat ∧ c.toNat < 0x110000 :=
  c.valid

/-- The first of two bytes. -/
theorem accept?_two {n : Nat} (h₁ : 0x80 ≤ n) (h₂ : n < 0x800) :
    accept? .start (UInt8.ofNat (0xC0 + n / 64)) = some ([], .inside 0 0x80 0xBF (n / 64)) := by
  rw [accept?, begin?_ofNat (by omega), if_neg (by omega), if_neg (by omega), if_pos (by omega),
    Nat.add_sub_cancel_left]

/-- The first of three bytes. The bounds that it sets let the second one pass. -/
theorem accept?_three {n : Nat} (h₁ : 0x800 ≤ n) (h₂ : n < 0x10000)
    (hrange : n < 0xD800 ∨ 0xDFFF < n) :
    ∃ low high,
      accept? .start (UInt8.ofNat (0xE0 + n / 4096)) = some ([], .inside 1 low high (n / 4096)) ∧
      low.toNat ≤ 0x80 + n / 64 % 64 ∧ 0x80 + n / 64 % 64 ≤ high.toNat := by
  rw [accept?, begin?_ofNat (by omega), if_neg (by omega), if_neg (by omega), if_neg (by omega)]
  by_cases hlow : n / 4096 = 0
  · rw [if_pos (by omega), hlow]
    exact ⟨_, _, rfl, show 0xA0 ≤ _ by omega, show _ ≤ 0xBF by omega⟩
  · rw [if_neg (by omega)]
    by_cases hhigh : n / 4096 = 13
    · rw [if_pos (by omega), hhigh]
      exact ⟨_, _, rfl, show 0x80 ≤ _ by omega, show _ ≤ 0x9F by omega⟩
    · rw [if_neg (by omega), if_pos (by omega), Nat.add_sub_cancel_left]
      exact ⟨_, _, rfl, show 0x80 ≤ _ by omega, show _ ≤ 0xBF by omega⟩

/-- The first of four bytes. The bounds that it sets let the second one pass. -/
theorem accept?_four {n : Nat} (h₁ : 0x10000 ≤ n) (h₂ : n < 0x110000) :
    ∃ low high,
      accept? .start (UInt8.ofNat (0xF0 + n / 262144)) = some ([], .inside 2 low high (n / 262144)) ∧
      low.toNat ≤ 0x80 + n / 4096 % 64 ∧ 0x80 + n / 4096 % 64 ≤ high.toNat := by
  rw [accept?, begin?_ofNat (by omega), if_neg (by omega), if_neg (by omega), if_neg (by omega),
    if_neg (by omega), if_neg (by omega), if_neg (by omega)]
  by_cases hlow : n / 262144 = 0
  · rw [if_pos (by omega), hlow]
    exact ⟨_, _, rfl, show 0x90 ≤ _ by omega, show _ ≤ 0xBF by omega⟩
  · rw [if_neg (by omega)]
    by_cases hhigh : n / 262144 = 4
    · rw [if_neg (by omega), if_pos (by omega), hhigh]
      exact ⟨_, _, rfl, show 0x80 ≤ _ by omega, show _ ≤ 0x8F by omega⟩
    · rw [if_pos (by omega), Nat.add_sub_cancel_left]
      exact ⟨_, _, rfl, show 0x80 ≤ _ by omega, show _ ≤ 0xBF by omega⟩

theorem decodeFrom?_encodeChar (c : Char) (s : Bytes) :
    decodeFrom? .start (encodeChar c ++ s) = (decodeFrom? .start s).map (c :: ·) := by
  have hrange := toNat_lt_or c
  have hchar := Char.ofNat_toNat c
  have hnil : ∀ o : Option (List Char), o.map ([] ++ ·) = o := fun o => by simp
  generalize hn : c.toNat = n at hrange hchar
  simp only [encodeChar, hn]
  split
  · rename_i h
    have hfirst : accept? .start (UInt8.ofNat n) = some ([Char.ofNat n], .start) := by
      rw [accept?, begin?_ofNat (by omega), if_pos h]
    rw [List.cons_append, decodeFrom?_of_accept? hfirst, hchar]
    rfl
  · split
    · rename_i h₁ h₂
      have hvalue : n / 64 * 64 + n % 64 = n := by omega
      rw [List.cons_append, decodeFrom?_of_accept? (accept?_two (by omega) h₂), hnil,
        List.cons_append,
        decodeFrom?_of_accept? (accept?_inside_zero (by omega) (by simp) (by simp; omega)),
        hvalue, hchar]
      rfl
    · split
      · rename_i h₁ h₂ h₃
        obtain ⟨low, high, hfirst, hlow, hhigh⟩ := accept?_three (n := n) (by omega) h₃ (by omega)
        have hvalue : (n / 4096 * 64 + n / 64 % 64) * 64 + n % 64 = n := by omega
        rw [List.cons_append, decodeFrom?_of_accept? hfirst, hnil, List.cons_append,
          decodeFrom?_of_accept? (accept?_inside_succ (by omega) hlow hhigh), hnil,
          List.cons_append,
          decodeFrom?_of_accept? (accept?_inside_zero (by omega) (by simp) (by simp; omega)),
          hvalue, hchar]
        rfl
      · rename_i h₁ h₂ h₃
        obtain ⟨low, high, hfirst, hlow, hhigh⟩ := accept?_four (n := n) (by omega) (by omega)
        have hvalue : ((n / 262144 * 64 + n / 4096 % 64) * 64 + n / 64 % 64) * 64 + n % 64 = n := by
          omega
        rw [List.cons_append, decodeFrom?_of_accept? hfirst, hnil, List.cons_append,
          decodeFrom?_of_accept? (accept?_inside_succ (by omega) hlow hhigh), hnil,
          List.cons_append,
          decodeFrom?_of_accept? (accept?_inside_succ (by omega) (by simp) (by simp; omega)), hnil,
          List.cons_append,
          decodeFrom?_of_accept? (accept?_inside_zero (by omega) (by simp) (by simp; omega)),
          hvalue, hchar]
        rfl

theorem decode?_encode (s : List Char) : decode? (encode s) = some s := by
  rw [decode?]
  induction s with
  | nil => rfl
  | cons c s ih => rw [encode_cons, decodeFrom?_encodeChar, ih, Option.map_some]

theorem encode_injective {s t : List Char} (h : encode s = encode t) : s = t := by
  have hs := decode?_encode s
  rw [h, decode?_encode t] at hs
  exact (Option.some.inj hs).symm

/-! ### What a text was spelled with -/

theorem toNat_ofNat {n : Nat} (h : n < 0xD800 ∨ 0xDFFF < n ∧ n < 0x110000) :
    (Char.ofNat n).toNat = n := by
  rw [Char.ofNat, dif_pos h]
  rfl

theorem encodeChar_ofNat_one {n : Nat} (h : n < 0x80) :
    encodeChar (Char.ofNat n) = [UInt8.ofNat n] := by
  have hn := toNat_ofNat (n := n) (.inl (by omega))
  rw [encodeChar_of_lt (by rw [hn]; exact h), hn]

theorem encodeChar_ofNat_two {n : Nat} (h₁ : 0x80 ≤ n) (h₂ : n < 0x800) :
    encodeChar (Char.ofNat n) = [UInt8.ofNat (0xC0 + n / 64), UInt8.ofNat (0x80 + n % 64)] := by
  simp only [encodeChar, toNat_ofNat (n := n) (.inl (by omega))]
  rw [if_neg (by omega), if_pos h₂]

theorem encodeChar_ofNat_three {n : Nat} (h₁ : 0x800 ≤ n) (h₂ : n < 0x10000)
    (h : n < 0xD800 ∨ 0xDFFF < n) :
    encodeChar (Char.ofNat n) = [UInt8.ofNat (0xE0 + n / 4096),
      UInt8.ofNat (0x80 + n / 64 % 64), UInt8.ofNat (0x80 + n % 64)] := by
  simp only [encodeChar, toNat_ofNat (n := n) (by omega)]
  rw [if_neg (by omega), if_neg (by omega), if_pos h₂]

theorem encodeChar_ofNat_four {n : Nat} (h₁ : 0x10000 ≤ n) (h₂ : n < 0x110000) :
    encodeChar (Char.ofNat n) = [UInt8.ofNat (0xF0 + n / 262144),
      UInt8.ofNat (0x80 + n / 4096 % 64), UInt8.ofNat (0x80 + n / 64 % 64),
      UInt8.ofNat (0x80 + n % 64)] := by
  simp only [encodeChar, toNat_ofNat (n := n) (.inr (by omega))]
  rw [if_neg (by omega), if_neg (by omega), if_neg (by omega)]

theorem exists_ofNat (b : UInt8) : ∃ k < 256, b = UInt8.ofNat k :=
  ⟨b.toNat, b.toNat_lt, (UInt8.ofNat_toNat).symm⟩

/-- A byte that goes on is one of sixty-four. -/
theorem exists_of_between {low high b : UInt8} (hlow : 0x80 ≤ low.toNat) (hhigh : high.toNat < 0xC0)
    (h : low ≤ b ∧ b ≤ high) :
    ∃ k < 64, b = UInt8.ofNat (0x80 + k) ∧ low.toNat ≤ 0x80 + k ∧ 0x80 + k ≤ high.toNat := by
  simp only [UInt8.le_iff_toNat_le] at h
  refine ⟨b.toNat - 0x80, by omega, ?_, by omega, by omega⟩
  rw [Nat.add_sub_cancel' (by omega)]
  exact (UInt8.ofNat_toNat).symm

theorem of_decodeFrom?_last {low high : UInt8} {value : Nat} {s : Bytes} {cs : List Char}
    (hlow : 0x80 ≤ low.toNat) (hhigh : high.toNat < 0xC0)
    (h : decodeFrom? (.inside 0 low high value) s = some cs) :
    ∃ k < 64, ∃ s' cs', s = UInt8.ofNat (0x80 + k) :: s' ∧ low.toNat ≤ 0x80 + k ∧
      0x80 + k ≤ high.toNat ∧ cs = Char.ofNat (value * 64 + k) :: cs' ∧
      decodeFrom? .start s' = some cs' := by
  cases s with
  | nil => simp [decodeFrom?] at h
  | cons b s =>
    by_cases hb : low ≤ b ∧ b ≤ high
    · obtain ⟨k, hk, rfl, hl, hh⟩ := exists_of_between hlow hhigh hb
      rw [decodeFrom?_of_accept? (accept?_inside_zero hk hl hh)] at h
      obtain ⟨cs', hcs', rfl⟩ := Option.map_eq_some_iff.mp h
      exact ⟨k, hk, s, cs', rfl, hl, hh, rfl, hcs'⟩
    · simp [decodeFrom?, accept?, hb] at h

theorem of_decodeFrom?_inside {low high : UInt8} {left value : Nat} {s : Bytes} {cs : List Char}
    (hlow : 0x80 ≤ low.toNat) (hhigh : high.toNat < 0xC0)
    (h : decodeFrom? (.inside (left + 1) low high value) s = some cs) :
    ∃ k < 64, ∃ s', s = UInt8.ofNat (0x80 + k) :: s' ∧ low.toNat ≤ 0x80 + k ∧
      0x80 + k ≤ high.toNat ∧
      decodeFrom? (.inside left 0x80 0xBF (value * 64 + k)) s' = some cs := by
  cases s with
  | nil => simp [decodeFrom?] at h
  | cons b s =>
    by_cases hb : low ≤ b ∧ b ≤ high
    · obtain ⟨k, hk, rfl, hl, hh⟩ := exists_of_between hlow hhigh hb
      rw [decodeFrom?_of_accept? (accept?_inside_succ hk hl hh)] at h
      obtain ⟨cs', hcs', rfl⟩ := Option.map_eq_some_iff.mp h
      exact ⟨k, hk, s, rfl, hl, hh, hcs'⟩
    · simp [decodeFrom?, accept?, hb] at h

/-- What the bytes spell starts with a character, and the bytes start with its bytes. -/
def StartsWithChar (s : Bytes) (cs : List Char) : Prop :=
  ∃ c s' cs', s = encodeChar c ++ s' ∧ cs = c :: cs' ∧ decodeFrom? .start s' = some cs'

theorem startsWithChar_two {v : Nat} {s : Bytes} {cs : List Char} (h₁ : 2 ≤ v) (h₂ : v < 32)
    (h : decodeFrom? (.inside 0 0x80 0xBF v) s = some cs) :
    StartsWithChar (UInt8.ofNat (0xC0 + v) :: s) cs := by
  obtain ⟨k, hk, s, cs', rfl, -, -, rfl, hcs'⟩ := of_decodeFrom?_last (by decide) (by decide) h
  refine ⟨_, s, cs', ?_, rfl, hcs'⟩
  rw [encodeChar_ofNat_two (by omega) (by omega), show (v * 64 + k) / 64 = v by omega,
    show (v * 64 + k) % 64 = k by omega]
  rfl

theorem startsWithChar_three {low high : UInt8} {v : Nat} {s : Bytes} {cs : List Char}
    (hlow : 0x80 ≤ low.toNat) (hhigh : high.toNat < 0xC0)
    (hvalid : ∀ k < 64, low.toNat ≤ 0x80 + k → 0x80 + k ≤ high.toNat →
      32 ≤ v * 64 + k ∧ (v * 64 + k < 0x360 ∨ 0x37F < v * 64 + k) ∧ v * 64 + k < 0x400)
    (h : decodeFrom? (.inside 1 low high v) s = some cs) :
    StartsWithChar (UInt8.ofNat (0xE0 + v) :: s) cs := by
  obtain ⟨k, hk, s, rfl, hl, hh, h⟩ := of_decodeFrom?_inside hlow hhigh h
  obtain ⟨h₁, h₂, h₃⟩ := hvalid k hk hl hh
  obtain ⟨j, hj, s, cs', rfl, -, -, rfl, hcs'⟩ := of_decodeFrom?_last (by decide) (by decide) h
  refine ⟨_, s, cs', ?_, rfl, hcs'⟩
  rw [encodeChar_ofNat_three (by omega) (by omega) (by omega),
    show ((v * 64 + k) * 64 + j) / 4096 = v by omega,
    show ((v * 64 + k) * 64 + j) / 64 % 64 = k by omega,
    show ((v * 64 + k) * 64 + j) % 64 = j by omega]
  rfl

theorem startsWithChar_four {low high : UInt8} {v : Nat} {s : Bytes} {cs : List Char}
    (hlow : 0x80 ≤ low.toNat) (hhigh : high.toNat < 0xC0)
    (hvalid : ∀ k < 64, low.toNat ≤ 0x80 + k → 0x80 + k ≤ high.toNat →
      16 ≤ v * 64 + k ∧ v * 64 + k < 0x110)
    (h : decodeFrom? (.inside 2 low high v) s = some cs) :
    StartsWithChar (UInt8.ofNat (0xF0 + v) :: s) cs := by
  obtain ⟨k, hk, s, rfl, hl, hh, h⟩ := of_decodeFrom?_inside hlow hhigh h
  obtain ⟨h₁, h₂⟩ := hvalid k hk hl hh
  obtain ⟨j, hj, s, rfl, -, -, h⟩ := of_decodeFrom?_inside (by decide) (by decide) h
  obtain ⟨i, hi, s, cs', rfl, -, -, rfl, hcs'⟩ := of_decodeFrom?_last (by decide) (by decide) h
  refine ⟨_, s, cs', ?_, rfl, hcs'⟩
  rw [encodeChar_ofNat_four (by omega) (by omega),
    show (((v * 64 + k) * 64 + j) * 64 + i) / 262144 = v by omega,
    show (((v * 64 + k) * 64 + j) * 64 + i) / 4096 % 64 = k by omega,
    show (((v * 64 + k) * 64 + j) * 64 + i) / 64 % 64 = j by omega,
    show (((v * 64 + k) * 64 + j) * 64 + i) % 64 = i by omega]
  rfl

theorem startsWithChar_of_decodeFrom? {b : UInt8} {s : Bytes} {cs : List Char}
    (h : decodeFrom? .start (b :: s) = some cs) : StartsWithChar (b :: s) cs := by
  obtain ⟨k, hk, rfl⟩ := exists_ofNat b
  have hfirst : accept? .start (UInt8.ofNat k) = _ := begin?_ofNat hk
  -- What is read between characters is read on behind the first byte.
  have hinside : ∀ {next}, accept? .start (UInt8.ofNat k) = some ([], next) →
      decodeFrom? next s = some cs := by
    intro next hnext
    rw [decodeFrom?_of_accept? hnext] at h
    simpa using h
  by_cases h₁ : k < 0x80
  · rw [if_pos h₁] at hfirst
    rw [decodeFrom?_of_accept? hfirst] at h
    obtain ⟨cs', hcs', rfl⟩ := Option.map_eq_some_iff.mp h
    exact ⟨Char.ofNat k, s, cs', by rw [encodeChar_ofNat_one h₁]; rfl, rfl, hcs'⟩
  rw [if_neg h₁] at hfirst
  by_cases h₂ : k < 0xC2
  · rw [if_pos h₂] at hfirst
    simp [decodeFrom?, hfirst] at h
  rw [if_neg h₂] at hfirst
  by_cases h₃ : k < 0xE0
  · rw [if_pos h₃] at hfirst
    have hstarts := startsWithChar_two (by omega) (by omega) (hinside hfirst)
    rwa [Nat.add_sub_cancel' (by omega)] at hstarts
  rw [if_neg h₃] at hfirst
  by_cases h₄ : k = 0xE0
  · rw [if_pos h₄] at hfirst
    subst h₄
    refine startsWithChar_three (by decide) (by decide) ?_ (hinside hfirst)
    exact fun k _ (hl : 0xA0 ≤ 0x80 + k) (hh : 0x80 + k ≤ 0xBF) => by omega
  rw [if_neg h₄] at hfirst
  by_cases h₅ : k = 0xED
  · rw [if_pos h₅] at hfirst
    subst h₅
    refine startsWithChar_three (by decide) (by decide) ?_ (hinside hfirst)
    exact fun k _ (hl : 0x80 ≤ 0x80 + k) (hh : 0x80 + k ≤ 0x9F) => by omega
  rw [if_neg h₅] at hfirst
  by_cases h₆ : k < 0xF0
  · rw [if_pos h₆] at hfirst
    have hstarts := startsWithChar_three (by decide) (by decide) (fun k _ _ _ => by omega)
      (hinside hfirst)
    rwa [Nat.add_sub_cancel' (by omega)] at hstarts
  rw [if_neg h₆] at hfirst
  by_cases h₇ : k = 0xF0
  · rw [if_pos h₇] at hfirst
    subst h₇
    refine startsWithChar_four (by decide) (by decide) ?_ (hinside hfirst)
    exact fun k _ (hl : 0x90 ≤ 0x80 + k) (hh : 0x80 + k ≤ 0xBF) => by omega
  rw [if_neg h₇] at hfirst
  by_cases h₈ : k < 0xF4
  · rw [if_pos h₈] at hfirst
    have hstarts := startsWithChar_four (by decide) (by decide) (fun k _ _ _ => by omega)
      (hinside hfirst)
    rwa [Nat.add_sub_cancel' (by omega)] at hstarts
  rw [if_neg h₈] at hfirst
  by_cases h₉ : k = 0xF4
  · rw [if_pos h₉] at hfirst
    subst h₉
    refine startsWithChar_four (by decide) (by decide) ?_ (hinside hfirst)
    exact fun k _ (hl : 0x80 ≤ 0x80 + k) (hh : 0x80 + k ≤ 0x8F) => by omega
  rw [if_neg h₉] at hfirst
  simp [decodeFrom?, hfirst] at h

theorem encodeChar_ne_nil (c : Char) : encodeChar c ≠ [] := by
  simp only [encodeChar]
  split
  · exact List.cons_ne_nil _ _
  · split
    · exact List.cons_ne_nil _ _
    · split <;> exact List.cons_ne_nil _ _

theorem eq_encode_of_decode? {s : Bytes} {cs : List Char} (h : decode? s = some cs) :
    s = encode cs := by
  rw [decode?] at h
  induction hlen : s.length using Nat.strongRecOn generalizing s cs with
  | ind n ih =>
    cases s with
    | nil =>
      obtain rfl : [] = cs := Option.some.inj h
      rfl
    | cons b s =>
      obtain ⟨c, s', cs', hs, rfl, hcs'⟩ := startsWithChar_of_decodeFrom? h
      have hlt : s'.length < n := by
        have hpos := List.length_pos_iff.mpr (encodeChar_ne_nil c)
        rw [← hlen, hs, List.length_append]
        omega
      rw [hs, ih _ hlt hcs' rfl, encode_cons]

theorem decode?_eq_some_iff {s : Bytes} {cs : List Char} : decode? s = some cs ↔ s = encode cs :=
  ⟨eq_encode_of_decode?, fun h => h ▸ decode?_encode cs⟩

/-! ### The bytes of one character -/

/-- A byte that goes on with a character. -/
def Continues (b : UInt8) : Prop := 0x80 ≤ b.toNat ∧ b.toNat < 0xC0

theorem continues_ofNat {k : Nat} (h : k < 64) : Continues (UInt8.ofNat (0x80 + k)) := by
  rw [Continues, UInt8.toNat_ofNat', Nat.mod_eq_of_lt (by omega)]
  omega

/-- The bytes of a character outside ASCII. -/
theorem encodeChar_of_ge {c : Char} (h : 0x80 ≤ c.toNat) :
    ∃ b tail, encodeChar c = b :: tail ∧ 0xC0 ≤ b.toNat ∧ ∀ x ∈ tail, Continues x := by
  have hrange := toNat_lt_or c
  have hfirst : ∀ k < 256, (UInt8.ofNat k).toNat = k := fun k hk => by
    rw [UInt8.toNat_ofNat', Nat.mod_eq_of_lt hk]
  have hmod : ∀ n : Nat, n % 64 < 64 := fun n => Nat.mod_lt n (by decide)
  simp only [encodeChar, if_neg (Nat.not_lt.mpr h)]
  split
  · refine ⟨_, _, rfl, by rw [hfirst _ (by omega)]; omega, ?_⟩
    simp only [List.mem_singleton, forall_eq]
    exact continues_ofNat (hmod _)
  · split
    · refine ⟨_, _, rfl, by rw [hfirst _ (by omega)]; omega, ?_⟩
      simp only [List.mem_cons, List.not_mem_nil, or_false, forall_eq_or_imp, forall_eq]
      exact ⟨continues_ofNat (hmod _), continues_ofNat (hmod _)⟩
    · refine ⟨_, _, rfl, by rw [hfirst _ (by omega)]; omega, ?_⟩
      simp only [List.mem_cons, List.not_mem_nil, or_false, forall_eq_or_imp, forall_eq]
      exact ⟨continues_ofNat (hmod _), continues_ofNat (hmod _), continues_ofNat (hmod _)⟩

/-- The first byte of a character does not go on with one, and all others do. -/
theorem of_encodeChar_eq_cons {c : Char} {b : UInt8} {tail : Bytes} (h : encodeChar c = b :: tail) :
    ¬ Continues b ∧ ∀ x ∈ tail, Continues x := by
  by_cases hc : c.toNat < 0x80
  · rw [encodeChar_of_lt hc] at h
    obtain ⟨rfl, rfl⟩ := List.cons.inj h
    refine ⟨fun hb => ?_, fun x hx => absurd hx List.not_mem_nil⟩
    have hmod : c.toNat % 2 ^ 8 = c.toNat := Nat.mod_eq_of_lt (by omega)
    rw [Continues, UInt8.toNat_ofNat', hmod] at hb
    omega
  · obtain ⟨b', tail', h', hb', htail⟩ := encodeChar_of_ge (Nat.not_lt.mp hc)
    obtain ⟨rfl, rfl⟩ := List.cons.inj (h.symm.trans h')
    exact ⟨fun hb => absurd hb.2 (by omega), htail⟩

/-- The text that starts with the bytes of a character starts with the character. -/
theorem exists_of_encode_eq {c : Char} {s : List Char} {t : Bytes}
    (h : encode s = encodeChar c ++ t) : ∃ s', s = c :: s' ∧ t = encode s' := by
  have hs := decode?_encode s
  rw [h, decode?, decodeFrom?_encodeChar] at hs
  obtain ⟨s', hs', rfl⟩ := Option.map_eq_some_iff.mp hs
  exact ⟨s', rfl, eq_encode_of_decode? hs'⟩

/-- Bytes below `0x80` spell a text of as many characters. -/
theorem eq_encode_of_lt {s : Bytes} (h : ∀ b ∈ s, b.toNat < 0x80) :
    s = encode (s.map fun b => Char.ofNat b.toNat) := by
  induction s with
  | nil => rfl
  | cons b s ih =>
    have hb := h b List.mem_cons_self
    rw [List.map_cons, encode_cons, encodeChar_ofNat_one hb, UInt8.ofNat_toNat, List.singleton_append,
      ← ih fun x hx => h x (List.mem_cons_of_mem b hx)]

end QualityGate.Text.Utf8
