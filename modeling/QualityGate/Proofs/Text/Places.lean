import QualityGate.Proofs.Text.Lossy

/-! # Places of an ASCII word

Bytes are read as a text, and the text is searched for ASCII words. What is invalid in the bytes can
neither hide such a word nor make one up: no byte below `0x80` is in an invalid part or inside a
character, and the sign of replacement is not ASCII. So each place of the word in the bytes is one
in the text, in the same order, and there are no others (`Utf8.places_decodeLossy`). -/

namespace QualityGate.Text

/-! ### Places of a word -/

section Places

variable {α : Type} [DecidableEq α]

/-- Where a word stands, from left to right: what is in front of it and what is behind it, for each
place. -/
def places (w : List α) : List α → List (List α × List α)
  | [] => if w = [] then [([], [])] else []
  | c :: s =>
    let behind := (places w s).map (Prod.map (c :: ·) id)
    if w.isPrefixOf (c :: s) then ([], (c :: s).drop w.length) :: behind else behind

variable {w s a b : List α} {c : α}

theorem places_cons_of_not_begins (h : ¬ w <+: c :: s) :
    places w (c :: s) = (places w s).map (Prod.map (c :: ·) id) :=
  if_neg fun h' => h (List.isPrefixOf_iff_prefix.mp h')

theorem mem_places_cons_iff :
    (a, b) ∈ places w (c :: s) ↔
      a = [] ∧ c :: s = w ++ b ∨ ∃ a', a = c :: a' ∧ (a', b) ∈ places w s := by
  have hbehind : (a, b) ∈ (places w s).map (Prod.map (c :: ·) id) ↔
      ∃ a', a = c :: a' ∧ (a', b) ∈ places w s := by
    rw [List.mem_map]
    constructor
    · rintro ⟨⟨a', b'⟩, hmem, heq⟩
      obtain ⟨rfl, rfl⟩ := Prod.mk.inj heq
      exact ⟨a', rfl, hmem⟩
    · rintro ⟨a', rfl, hmem⟩
      exact ⟨(a', b), hmem, rfl⟩
  by_cases h : w <+: c :: s
  · have hhere : c :: s = w ++ b ↔ b = (c :: s).drop w.length := by
      obtain ⟨r, hr⟩ := h
      rw [← hr, List.drop_left, List.append_right_inj]
      exact eq_comm
    rw [places, if_pos (List.isPrefixOf_iff_prefix.mpr h), List.mem_cons, hbehind, hhere,
      Prod.mk.injEq]
  · have hnone : ¬ c :: s = w ++ b := fun heq => h ⟨b, heq.symm⟩
    rw [places_cons_of_not_begins h, hbehind]
    simp [hnone]

/-- The places are the ways to take the word out of the text. -/
theorem mem_places_iff (hw : w ≠ []) : (a, b) ∈ places w s ↔ s = a ++ (w ++ b) := by
  induction s generalizing a with
  | nil => simp [places, hw]
  | cons c s ih =>
    rw [mem_places_cons_iff]
    cases a with
    | nil => simp
    | cons d a =>
      simp only [List.cons_ne_nil, false_and, false_or, List.cons.injEq, List.cons_append]
      constructor
      · rintro ⟨a', ⟨rfl, rfl⟩, hmem⟩
        exact ⟨rfl, ih.mp hmem⟩
      · rintro ⟨rfl, hs⟩
        exact ⟨a, ⟨rfl, rfl⟩, ih.mpr hs⟩

/-- They are listed from left to right. -/
theorem pairwise_places (w s : List α) :
    (places w s).Pairwise fun x y => x.1.length < y.1.length := by
  induction s with
  | nil =>
    rw [places]
    split <;> simp
  | cons c s ih =>
    have hbehind : ((places w s).map (Prod.map (c :: ·) id)).Pairwise
        fun x y => x.1.length < y.1.length := by
      rw [List.pairwise_map]
      exact ih.imp fun h => Nat.succ_lt_succ h
    rw [places]
    split
    · refine List.pairwise_cons.mpr ⟨fun x hx => ?_, hbehind⟩
      obtain ⟨y, -, rfl⟩ := List.mem_map.mp hx
      exact Nat.succ_pos _
    · exact hbehind

/-- There is no place in what lacks the first letter of the word. -/
theorem places_append_of_notMem {p : List α} (h : c ∉ p) (w s : List α) :
    places (c :: w) (p ++ s) = (places (c :: w) s).map (Prod.map (p ++ ·) id) := by
  induction p with
  | nil =>
    show _ = (places (c :: w) s).map (Prod.map id id)
    rw [Prod.map_id, List.map_id, List.nil_append]
  | cons d p ih =>
    have hne : ¬ c :: w <+: d :: (p ++ s) := fun hbegins =>
      List.ne_of_not_mem_cons h (List.cons_prefix_cons.mp hbegins).1
    rw [List.cons_append, places_cons_of_not_begins hne, ih (List.not_mem_of_not_mem_cons h),
      List.map_map]
    rfl

end Places

namespace Utf8

/-! ### Bytes outside ASCII -/

variable {c : Char} {w t : List Char} {part s : Bytes}

theorem ge_of_mem_encodeChar (hc : 0x80 ≤ c.toNat) : ∀ b ∈ encodeChar c, 0x80 ≤ b.toNat := by
  obtain ⟨b, tail, hbytes, hfirst, htail⟩ := encodeChar_of_ge hc
  rw [hbytes]
  intro x hx
  rcases List.mem_cons.mp hx with rfl | hx
  · omega
  · exact (htail x hx).1

/-- No byte below `0x80` is in an invalid part. -/
theorem IsInvalidPart.ge_of_mem (h : IsInvalidPart part s) : ∀ b ∈ part, 0x80 ≤ b.toNat := by
  rcases h.maximal with ⟨b, rfl, hnone⟩ | ⟨hpart, ⟨c, hc⟩, -⟩
  · intro x hx
    obtain rfl := List.mem_singleton.mp hx
    by_contra hlt
    have hbyte : encodeChar (Char.ofNat x.toNat) = [x] := by
      rw [encodeChar_ofNat_one (Nat.lt_of_not_le hlt), UInt8.ofNat_toNat]
    exact hnone ⟨Char.ofNat x.toNat, hbyte ▸ List.prefix_rfl⟩
  · by_cases hascii : c.toNat < 0x80
    · -- the one byte of an ASCII character would be the whole part
      have hlength : (encodeChar c).length ≤ part.length := by
        rw [encodeChar_of_lt hascii]
        exact List.length_pos_iff.mpr hpart
      have heq : part = encodeChar c := hc.eq_of_length_le hlength
      exact absurd (heq ▸ List.prefix_append part s) (h.noChar c)
    · exact fun b hb => ge_of_mem_encodeChar (Nat.le_of_not_lt hascii) b (hc.subset hb)

/-- A part that is invalid in front of some bytes is so in front of the first of them. -/
theorem IsInvalidPart.of_shorter (h : IsInvalidPart part s) {a : Bytes} (ha : a <+: s) :
    IsInvalidPart part a where
  noChar c hc := h.noChar c (hc.trans ((List.prefix_append_right_inj part).mpr ha))
  maximal := by
    refine h.maximal.imp_right fun ⟨hpart, hstarts, hends⟩ => ⟨hpart, hstarts, fun b hb => ?_⟩
    obtain ⟨rest, rfl⟩ := ha
    cases a with
    | nil => exact absurd hb (by simp)
    | cons x a => exact hends b hb

/-- ASCII at the start of a text comes from its own bytes. -/
theorem exists_of_decodeLossy_append (hascii : ∀ c ∈ w, c.toNat < 0x80)
    (h : decodeLossy s = w ++ t) : ∃ s', s = encode w ++ s' ∧ decodeLossy s' = t := by
  induction w generalizing s with
  | nil => exact ⟨s, rfl, h⟩
  | cons c w ih =>
    have hread := readsLossy_iff.mpr h
    rw [List.cons_append] at hread
    generalize hu : c :: (w ++ t) = u at hread
    cases hread with
    | nil => exact absurd hu (by simp)
    | @char s u d hread =>
      obtain ⟨rfl, rfl⟩ := List.cons.inj hu
      obtain ⟨s', rfl, ht⟩ := ih (fun x hx => hascii x (List.mem_cons_of_mem c hx))
        (readsLossy_iff.mp hread)
      exact ⟨s', by rw [encode_cons, List.append_assoc], ht⟩
    | invalid hpart hread =>
      have hc := hascii c List.mem_cons_self
      rw [(List.cons.inj hu).1] at hc
      exact absurd hc (by decide)

/-! ### Places in bytes and in the text -/

/-- A place in the bytes as one in the text: what is in front and what is behind is read. -/
def readAround (x : Bytes × Bytes) : List Char × List Char := x.map decodeLossy decodeLossy

theorem encode_ne_nil (hw : w ≠ []) : encode w ≠ [] := by
  obtain ⟨c, w, rfl⟩ := List.exists_cons_of_ne_nil hw
  simp [encodeChar_ne_nil]

/-- Where a character in front is not ASCII, nor the bytes that it comes from, no place is added. -/
theorem places_append_other {d : Char} (hw : w ≠ []) (hascii : ∀ c ∈ w, c.toNat < 0x80)
    (hd : 0x80 ≤ d.toNat) (hpart : ∀ b ∈ part, 0x80 ≤ b.toNat)
    (hread : ∀ a, a <+: s → decodeLossy (part ++ a) = d :: decodeLossy a)
    (ih : (places (encode w) s).map readAround = places w t) :
    (places (encode w) (part ++ s)).map readAround = places w (d :: t) := by
  have hbegins : ∀ x ∈ places (encode w) s, x.1 <+: s := by
    rintro ⟨a, b⟩ hx
    rw [mem_places_iff (encode_ne_nil hw)] at hx
    exact ⟨encode w ++ b, hx.symm⟩
  obtain ⟨c, w, rfl⟩ := List.exists_cons_of_ne_nil hw
  have hc : c.toNat < 0x80 := hascii c List.mem_cons_self
  have hbytes : encode (c :: w) = UInt8.ofNat c.toNat :: encode w := by
    rw [encode_cons, encodeChar_of_lt hc, List.singleton_append]
  have hbyte : UInt8.ofNat c.toNat ∉ part := by
    intro hmem
    have hge := hpart _ hmem
    rw [UInt8.toNat_ofNat', Nat.mod_eq_of_lt (by omega)] at hge
    omega
  have hchar : c ∉ [d] := by
    intro hmem
    rw [List.mem_singleton.mp hmem] at hc
    omega
  have htext : places (c :: w) (d :: t) = (places (c :: w) t).map (Prod.map ([d] ++ ·) id) :=
    places_append_of_notMem hchar w t
  rw [htext, ← ih]
  rw [hbytes] at hbegins ⊢
  rw [places_append_of_notMem hbyte, List.map_map, List.map_map]
  apply List.map_congr_left
  intro x hx
  exact Prod.ext (hread x.1 (hbegins x hx)) rfl

/-- An ASCII character in front is one byte, and adds a place in both or in none. -/
theorem places_cons_ascii {c : Char} (hascii : ∀ c ∈ w, c.toNat < 0x80) (hc : c.toNat < 0x80)
    (ih : (places (encode w) s).map readAround = places w (decodeLossy s)) :
    (places (encode w) (encodeChar c ++ s)).map readAround = places w (c :: decodeLossy s) := by
  have hread : ∀ a, decodeLossy (UInt8.ofNat c.toNat :: a) = c :: decodeLossy a := by
    intro a
    rw [← decodeLossy_encodeChar, encodeChar_of_lt hc, List.singleton_append]
  rw [encodeChar_of_lt hc, List.singleton_append]
  have hbehind : ((places (encode w) s).map
      (Prod.map (UInt8.ofNat c.toNat :: ·) id)).map readAround =
        (places w (decodeLossy s)).map (Prod.map (c :: ·) id) := by
    rw [← ih, List.map_map, List.map_map]
    apply List.map_congr_left
    intro x _
    exact Prod.ext (hread x.1) rfl
  by_cases h : w <+: c :: decodeLossy s
  · obtain ⟨r, hr⟩ := h
    obtain ⟨s', hs', rfl⟩ := exists_of_decodeLossy_append hascii ((hread s).trans hr.symm)
    rw [places, places, hs', ← hr, List.drop_left, List.drop_left,
      if_pos (List.isPrefixOf_iff_prefix.mpr (List.prefix_append _ _)),
      if_pos (List.isPrefixOf_iff_prefix.mpr (List.prefix_append _ _)), List.map_cons, hbehind]
    rfl
  · have h' : ¬ encode w <+: UInt8.ofNat c.toNat :: s := by
      rintro ⟨s', hs'⟩
      apply h
      rw [← hread, ← hs', decodeLossy_encode_append]
      exact List.prefix_append _ _
    rw [places_cons_of_not_begins h', places_cons_of_not_begins h, hbehind]

/-- **The places of an ASCII word in the text are those of its bytes,** one by one from left to
right. -/
theorem places_decodeLossy (hw : w ≠ []) (hascii : ∀ c ∈ w, c.toNat < 0x80) (s : Bytes) :
    (places (encode w) s).map readAround = places w (decodeLossy s) := by
  have hplaces : ∀ {t}, ReadsLossy s t → (places (encode w) s).map readAround = places w t := by
    intro t h
    induction h with
    | nil => simp [places, hw, encode_ne_nil hw]
    | @char s t c h ih =>
      rw [← readsLossy_iff.mp h] at ih ⊢
      rcases Nat.lt_or_ge c.toNat 0x80 with hc | hc
      · exact places_cons_ascii hascii hc ih
      · exact places_append_other hw hascii hc (ge_of_mem_encodeChar hc)
          (fun a _ => decodeLossy_encodeChar c a) ih
    | invalid hpart h ih =>
      exact places_append_other hw hascii (by decide) hpart.ge_of_mem
        (fun a ha => decodeLossy_invalid (hpart.of_shorter ha)) ih
  exact hplaces (readsLossy_decodeLossy s)

end Utf8

end QualityGate.Text
