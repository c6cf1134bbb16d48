import QualityGate.Proofs.Json.Numbers

/-! # Reading series

A container is read one element at a time, each with the comma in front of it. `Chain` is the
grammar of a series cut in the same places: `chain_iff_series` says that the two agree. What one step
of the reader does is stated for any kind of element (`readElements`), since items and members differ
in nothing else. -/

namespace QualityGate.Json

open Text.Utf8 (encode encodeChar encode_nil encode_cons encode_append)

/-! ### Blanks -/

theorem isBlanks_nil : IsBlanks [] := fun _ hc => absurd hc List.not_mem_nil

theorem IsBlanks.append {w w' : List Char} (h : IsBlanks w) (h' : IsBlanks w') :
    IsBlanks (w ++ w') := by
  intro c hc
  rcases List.mem_append.mp hc with hc | hc
  · exact h c hc
  · exact h' c hc

/-- Blanks are one byte each. -/
theorem encode_blanks {w : List Char} (h : IsBlanks w) : ∀ b ∈ encode w, isBlank b = true := by
  have hall : ([' ', '\t', '\n', '\r'].all fun c => (encodeChar c).all isBlank) = true := by decide
  intro b hb
  obtain ⟨c, hc, hb⟩ := List.mem_flatMap.mp hb
  exact List.all_eq_true.mp (List.all_eq_true.mp hall c (h c hc)) b hb

theorem exists_encode_blanks {bs : Bytes} (h : ∀ b ∈ bs, isBlank b = true) :
    ∃ w, IsBlanks w ∧ bs = encode w := by
  induction bs with
  | nil => exact ⟨[], isBlanks_nil, rfl⟩
  | cons b bs ih =>
    obtain ⟨w, hw, rfl⟩ := ih fun x hx => h x (List.mem_cons_of_mem b hx)
    have hb := h b List.mem_cons_self
    simp only [isBlank, Bool.or_eq_true, decide_eq_true_eq] at hb
    have hblank : ∃ c ∈ [' ', '\t', '\n', '\r'], encodeChar c = [b] := by
      rcases hb with ((rfl | rfl) | rfl) | rfl
      · exact ⟨' ', by decide, rfl⟩
      · exact ⟨'\t', by decide, rfl⟩
      · exact ⟨'\n', by decide, rfl⟩
      · exact ⟨'\r', by decide, rfl⟩
    obtain ⟨c, hc, hcb⟩ := hblank
    refine ⟨c :: w, ?_, by rw [encode_cons, hcb]; rfl⟩
    intro x hx
    rcases List.mem_cons.mp hx with rfl | hx
    · exact hc
    · exact hw x hx

theorem skipBlanks_append {w : List Char} (h : IsBlanks w) (s : Bytes) :
    skipBlanks (encode w ++ s) = skipBlanks s :=
  List.dropWhile_append_of_pos (encode_blanks h)

theorem skipBlanks_cons {b : UInt8} (h : isBlank b = false) (s : Bytes) :
    skipBlanks (b :: s) = b :: s :=
  List.dropWhile_cons_of_neg (by simp [h])

theorem exists_blanks (s : Bytes) : ∃ w, IsBlanks w ∧ s = encode w ++ skipBlanks s := by
  obtain ⟨w, hw, heq⟩ :=
    exists_encode_blanks fun b hb => List.all_eq_true.mp (List.all_takeWhile (l := s)) b hb
  exact ⟨w, hw, by rw [← heq, skipBlanks, List.takeWhile_append_dropWhile]⟩

theorem skipBlanks_eq_nil_iff {s : Bytes} : skipBlanks s = [] ↔ ∃ w, IsBlanks w ∧ s = encode w := by
  constructor
  · intro h
    obtain ⟨w, hw, hs⟩ := exists_blanks s
    rw [h, List.append_nil] at hs
    exact ⟨w, hw, hs⟩
  · rintro ⟨w, hw, rfl⟩
    rw [← List.append_nil (encode w), skipBlanks_append hw]
    rfl

theorem skipBlanks_eq_cons_iff {s t : Bytes} {b : UInt8} :
    skipBlanks s = b :: t ↔ isBlank b = false ∧ ∃ w, IsBlanks w ∧ s = encode w ++ b :: t := by
  constructor
  · intro h
    obtain ⟨w, hw, hs⟩ := exists_blanks s
    rw [h] at hs
    refine ⟨?_, w, hw, hs⟩
    have hhead := List.head_dropWhile_not isBlank (l := s) (by
      rw [skipBlanks] at h
      rw [h]
      exact List.cons_ne_nil b t)
    simpa [show s.dropWhile isBlank = b :: t from h] using hhead
  · rintro ⟨hb, w, hw, rfl⟩
    rw [skipBlanks_append hw, skipBlanks_cons hb]

/-! ### Series in the order in which they are read -/

/-- What stands in front of an element: blanks, and a comma unless it is the first. -/
inductive Lead : Bool → List Char → Prop
  | first {w : List Char} (hw : IsBlanks w) : Lead true w
  | comma {w w' : List Char} (hw : IsBlanks w) (hw' : IsBlanks w') : Lead false (w ++ ',' :: w')

theorem Lead.append {first : Bool} {l w : List Char} (h : Lead first l) (hw : IsBlanks w) :
    Lead first (l ++ w) := by
  cases h with
  | first hl => exact .first (hl.append hw)
  | comma hl hl' =>
    rw [List.append_assoc]
    exact .comma hl (hl'.append hw)

/-- The rest of a series, from one of its elements on or behind the last one. -/
inductive Chain {α : Type} (R : α → List Char → Prop) : Bool → List α → List Char → Prop
  | done {first : Bool} {w : List Char} (hw : IsBlanks w) : Chain R first [] w
  | next {first : Bool} {x : α} {xs : List α} {l text rest : List Char} (hl : Lead first l)
      (h : R x text) (hrest : Chain R false xs rest) : Chain R first (x :: xs) (l ++ text ++ rest)

section

variable {α : Type} {R : α → List Char → Prop}

theorem Series.chain {xs : List α} {text : List Char} (h : Series R xs text) :
    Chain R true xs text := by
  induction h with
  | none hw => exact .done hw
  | last hw h hw' => exact .next (.first hw) h (.done hw')
  | @more x y xs w text w' rest hw h hw' _ ih =>
    obtain _ | @⟨_, _, _, l, t, u, hl, hy, hrest⟩ := ih
    obtain ⟨hl⟩ := hl
    rw [List.append_assoc]
    refine .next (.first hw) h ?_
    have hnext : Chain R false (y :: xs) ((w' ++ ',' :: l) ++ t ++ u) :=
      .next (.comma hw' hl) hy hrest
    rwa [List.append_assoc, List.append_assoc, List.cons_append, ← List.append_assoc l] at hnext

theorem Chain.series {first : Bool} {xs : List α} {text : List Char} (h : Chain R first xs text)
    {w : List Char} {x : α} {u : List Char} (hw : IsBlanks w) (hx : R x u) :
    first = false → Series R (x :: xs) (w ++ u ++ text) := by
  induction h generalizing w x u with
  | done hw' => exact fun _ => .last hw hx hw'
  | @next first y ys l t rest hl hy _ ih =>
    rintro rfl
    obtain _ | ⟨hl, hl'⟩ := hl
    have htail := ih hl' hy rfl
    have hseries := Series.more hw hx hl htail
    simpa using hseries

/-- The two grammars of a series agree. -/
theorem chain_iff_series {xs : List α} {text : List Char} :
    Chain R true xs text ↔ Series R xs text := by
  constructor
  · intro h
    obtain hw | ⟨⟨hw⟩, hx, hrest⟩ := h
    · exact .none hw
    · exact hrest.series hw hx rfl
  · exact Series.chain

theorem Series.exists_text {xs : List α} {text : List Char} (h : Series R xs text) :
    ∀ x ∈ xs, ∃ t, R x t := by
  induction h with
  | none => exact fun x hx => absurd hx List.not_mem_nil
  | last _ h _ =>
    intro x hx
    obtain rfl := List.mem_singleton.mp hx
    exact ⟨_, h⟩
  | more _ h _ _ ih =>
    intro x hx
    rcases List.mem_cons.mp hx with rfl | hx
    · exact ⟨_, h⟩
    · exact ih x hx

/-- Elements that are written and each of which stands for something. -/
theorem series_exists_iff {β : Type} {D : α → β → Prop} {ys : List β} {text : List Char} :
    Series (fun y t => ∃ x, R x t ∧ D x y) ys text ↔
      ∃ xs, Series R xs text ∧ List.Forall₂ D xs ys := by
  constructor
  · intro h
    induction h with
    | none hw => exact ⟨[], .none hw, .nil⟩
    | last hw h hw' =>
      obtain ⟨x, hx, hd⟩ := h
      exact ⟨[x], .last hw hx hw', .cons hd .nil⟩
    | more hw h hw' _ ih =>
      obtain ⟨x, hx, hd⟩ := h
      obtain ⟨xs, hxs, hds⟩ := ih
      cases hds with
      | cons hd' hds => exact ⟨_, .more hw hx hw' hxs, .cons hd (.cons hd' hds)⟩
  · rintro ⟨xs, hxs, hds⟩
    induction hxs generalizing ys with
    | none hw =>
      cases hds
      exact .none hw
    | last hw h hw' =>
      obtain _ | ⟨hd, ⟨⟩⟩ := hds
      exact .last hw ⟨_, h, hd⟩ hw'
    | more hw h hw' _ ih =>
      obtain _ | ⟨hd, _ | ⟨hd', hds⟩⟩ := hds
      exact .more hw ⟨_, h, hd⟩ hw' (ih (.cons hd' hds))

end

/-! ### One step -/

/-- An element starts here, and not the end of the container. -/
def Opens (close : UInt8) (s : Bytes) : Prop :=
  ∃ b t, s = b :: t ∧ isBlank b = false ∧ b ≠ close

theorem length_pos_of_opens {close : UInt8} {text : List Char}
    (h : ∀ s, Opens close (encode text ++ s)) : 0 < (encode text).length := by
  obtain ⟨b, t, hbt, -⟩ := h []
  rw [List.append_nil] at hbt
  rw [hbt]
  exact Nat.succ_pos _

section

variable {first : Bool} {close : UInt8} {atEnd noComma : Reason} {s s' : Bytes}

theorem readComma_eq_none_iff :
    readComma first close atEnd noComma s = .ok none ↔ ∃ t, skipBlanks s = close :: t := by
  rw [readComma]
  split
  · rename_i h
    simp [h]
  · rename_i b t h
    rw [h]
    by_cases hb : b = close
    · simp [hb]
    · rw [if_neg hb]
      constructor
      · intro hread
        split at hread
        · simp at hread
        · split at hread
          · split at hread
            · simp at hread
            · split at hread <;> simp at hread
          · simp at hread
      · rintro ⟨t', ht'⟩
        exact absurd (List.cons.inj ht').1 hb

theorem readComma_eq_some_iff (hclose : close ≠ 0x2C) :
    readComma first close atEnd noComma s = .ok (some s') ↔
      Opens close s' ∧ ∃ l, Lead first l ∧ s = encode l ++ s' := by
  constructor
  · intro h
    rw [readComma] at h
    split at h
    · exact absurd h (by simp)
    rename_i b t hskip
    obtain ⟨hb, w, hw, rfl⟩ := skipBlanks_eq_cons_iff.mp hskip
    split at h
    · exact absurd h (by simp)
    rename_i hne
    cases first with
    | true =>
      obtain rfl := Option.some.inj (Except.ok.inj h)
      exact ⟨⟨b, t, rfl, hb, hne⟩, w, .first hw, rfl⟩
    | false =>
      rw [if_neg Bool.false_ne_true] at h
      split at h
      · rename_i hcomma
        subst hcomma
        split at h
        · exact absurd h (by simp)
        · rename_i c u hskip'
          obtain ⟨hc, w', hw', rfl⟩ := skipBlanks_eq_cons_iff.mp hskip'
          split at h
          · exact absurd h (by simp)
          · rename_i hne'
            obtain rfl := Option.some.inj (Except.ok.inj h)
            refine ⟨⟨c, u, rfl, hc, hne'⟩, _, .comma hw hw', ?_⟩
            rw [encode_append, encode_cons, List.append_assoc, List.append_assoc]
            rfl
      · exact absurd h (by simp)
  · rintro ⟨⟨b, t, rfl, hb, hne⟩, l, hl, rfl⟩
    rw [readComma]
    cases hl with
    | first hw =>
      rw [skipBlanks_append hw, skipBlanks_cons hb]
      dsimp only
      rw [if_neg hne, if_pos rfl]
    | @comma w w' hw hw' =>
      have hskip : skipBlanks (encode (w ++ ',' :: w') ++ b :: t) =
          0x2C :: (encode w' ++ b :: t) := by
        rw [encode_append, List.append_assoc, skipBlanks_append hw]
        rfl
      rw [hskip]
      dsimp only
      rw [if_neg hclose.symm, if_neg Bool.false_ne_true, if_pos rfl, skipBlanks_append hw',
        skipBlanks_cons hb]
      dsimp only
      rw [if_neg hne]

theorem skipClose_of_skipBlanks {t : Bytes} (h : skipBlanks s = close :: t) : skipClose s = t := by
  rw [skipClose, h]
  rfl

end

section

variable {α : Type} {readElement : Bytes → Except Fault (α × Bytes)}
  {readMore : Bytes → Except Fault (List α × Bytes)} {close : UInt8} {atEnd noComma : Reason}
  {first : Bool}

/-- Reads an element and what follows it in the container, or sees the container's end. -/
def readElements (readElement : Bytes → Except Fault (α × Bytes))
    (readMore : Bytes → Except Fault (List α × Bytes)) (close : UInt8) (atEnd noComma : Reason)
    (first : Bool) (s : Bytes) : Except Fault (List α × Bytes) := do
  match ← readComma first close atEnd noComma s with
  | none => .ok ([], skipClose s)
  | some s =>
    let (x, s) ← readElement s
    let (xs, s) ← readMore s
    .ok (x :: xs, s)

theorem readElements_eq_ok_iff {s rest : Bytes} {xs : List α} :
    readElements readElement readMore close atEnd noComma first s = .ok (xs, rest) ↔
      (xs = [] ∧ skipBlanks s = close :: rest) ∨
        ∃ s₁ x s₂ ys, readComma first close atEnd noComma s = .ok (some s₁) ∧
          readElement s₁ = .ok (x, s₂) ∧ readMore s₂ = .ok (ys, rest) ∧ x :: ys = xs := by
  rw [readElements, bind_eq_ok_iff]
  constructor
  · rintro ⟨next, hcomma, h⟩
    cases next with
    | none =>
      obtain ⟨rfl, rfl⟩ := Prod.mk.inj (Except.ok.inj h)
      obtain ⟨t, ht⟩ := readComma_eq_none_iff.mp hcomma
      exact .inl ⟨rfl, by rw [skipClose_of_skipBlanks ht, ht]⟩
    | some s₁ =>
      obtain ⟨⟨x, s₂⟩, hx, h⟩ := bind_eq_ok_iff.mp h
      obtain ⟨⟨ys, s₃⟩, hys, h⟩ := bind_eq_ok_iff.mp h
      obtain ⟨rfl, rfl⟩ := Prod.mk.inj (Except.ok.inj h)
      exact .inr ⟨s₁, x, s₂, ys, hcomma, hx, hys, rfl⟩
  · rintro (⟨rfl, hs⟩ | ⟨s₁, x, s₂, ys, hcomma, hx, hys, rfl⟩)
    · exact ⟨none, readComma_eq_none_iff.mpr ⟨rest, hs⟩, by rw [skipClose_of_skipBlanks hs]⟩
    · exact ⟨some s₁, hcomma, bind_eq_ok_iff.mpr ⟨_, hx, bind_eq_ok_iff.mpr ⟨_, hys, rfl⟩⟩⟩

variable {R : α → List Char → Prop}

/-- What is read is written there, if that is so for one element and for the rest. -/
theorem chain_of_readElements (hclose : close ≠ 0x2C)
    (helement : ∀ {s s' x}, readElement s = .ok (x, s') →
      ∃ w text, IsBlanks w ∧ R x text ∧ s = encode (w ++ text) ++ s')
    (hmore : ∀ {s rest xs}, readMore s = .ok (xs, rest) →
      ∃ text, Chain R false xs text ∧ s = encode text ++ close :: rest)
    {s rest : Bytes} {xs : List α}
    (h : readElements readElement readMore close atEnd noComma first s = .ok (xs, rest)) :
    ∃ text, Chain R first xs text ∧ s = encode text ++ close :: rest := by
  rcases readElements_eq_ok_iff.mp h with ⟨rfl, hs⟩ | ⟨s₁, x, s₂, ys, hcomma, hx, hys, rfl⟩
  · obtain ⟨-, w, hw, rfl⟩ := skipBlanks_eq_cons_iff.mp hs
    exact ⟨w, .done hw, rfl⟩
  · obtain ⟨-, l, hl, rfl⟩ := (readComma_eq_some_iff hclose).mp hcomma
    obtain ⟨w, text, hw, hr, rfl⟩ := helement hx
    obtain ⟨u, hu, rfl⟩ := hmore hys
    exact ⟨_, .next (hl.append hw) hr hu, by simp only [encode_append, List.append_assoc]⟩

/-- In front of a closing bracket or of the next comma an element ends. -/
theorem Chain.ends {xs : List α} {text : List Char} (h : Chain R false xs text)
    (hclose : close = 0x5D ∨ close = 0x7D) (rest : Bytes) :
    Ends (encode text ++ close :: rest) := by
  have hblanks : ∀ {w : List Char} {b : UInt8} {t : Bytes}, IsBlanks w →
      (b = 0x2C ∨ b = 0x5D ∨ b = 0x7D) → Ends (encode w ++ b :: t) := by
    intro w b t hw hb x hx
    cases hbytes : encode w with
    | nil =>
      rw [hbytes] at hx
      obtain rfl : b = x := Option.some.inj hx
      exact .inr hb
    | cons y ys =>
      rw [hbytes] at hx
      obtain rfl : y = x := Option.some.inj hx
      exact .inl (encode_blanks hw y (by rw [hbytes]; exact List.mem_cons_self))
  cases h with
  | done hw => exact hblanks hw (.inr hclose)
  | next hl _ _ =>
    obtain _ | ⟨hw, -⟩ := hl
    simp only [encode_append, encode_cons, List.append_assoc]
    exact hblanks hw (.inl rfl)

/-- What is written is read, if that is so for one element and for the rest. Each step takes fuel,
of which an element needs two units for each of its bytes. -/
theorem readElements_of_chain {fuel : Nat} (hclose : close = 0x5D ∨ close = 0x7D)
    (hopens : ∀ {x text}, R x text → ∀ s, Opens close (encode text ++ s))
    (helement : ∀ {x text s}, R x text → 2 * (encode text).length < fuel → Ends s →
      readElement (encode text ++ s) = .ok (x, s))
    {rest : Bytes}
    (hmore : ∀ {xs text}, Chain R false xs text → 2 * (encode text).length + 1 < fuel →
      readMore (encode text ++ close :: rest) = .ok (xs, rest))
    {xs : List α} {text : List Char} (h : Chain R first xs text)
    (hfuel : 2 * (encode text).length < fuel) :
    readElements readElement readMore close atEnd noComma first (encode text ++ close :: rest) =
      .ok (xs, rest) := by
  have hcomma : close ≠ 0x2C := by rcases hclose with rfl | rfl <;> decide
  have hblank : isBlank close = false := by rcases hclose with rfl | rfl <;> decide
  rw [readElements_eq_ok_iff]
  cases h with
  | done hw => exact .inl ⟨rfl, skipBlanks_eq_cons_iff.mpr ⟨hblank, _, hw, rfl⟩⟩
  | @next _ x xs l text u hl hx hu =>
    simp only [encode_append, List.length_append, List.append_assoc] at hfuel ⊢
    have hlength := length_pos_of_opens (hopens hx)
    refine .inr ⟨_, x, _, xs, (readComma_eq_some_iff hcomma).mpr ⟨hopens hx _, l, hl, rfl⟩,
      helement hx (by omega) (hu.ends hclose rest), hmore hu (by omega), rfl⟩

end

end QualityGate.Json
