import QualityGate.Proofs.Json.Meaning

/-! # A text has one tree

Two trees that are written alike are the same (`written_unique`), and so a text is that of one tree
(`Tree.IsTextOf.unique`). The reader already tells where each element of a container ends, since it
takes any text that is written; and what it reads tells of which kind a tree is. What is left is to
compare the elements. -/

namespace QualityGate.Json

open Text.Utf8 (encode encodeChar encode_cons encode_append encode_injective)

/-! ### Series -/

section

variable {α : Type} {R : α → List Char → Prop} {close : UInt8}

/-- A series has one list of elements, if that is so for each of them. -/
theorem Chain.unique (hclose : close = 0x5D ∨ close = 0x7D)
    (hopens : ∀ {x text}, R x text → ∀ s, Opens close (encode text ++ s))
    (hspan : ∀ {x x' text text' s s'}, R x text → R x' text' → Ends s → Ends s' →
      encode text ++ s = encode text' ++ s' → text = text')
    {first : Bool} {xs xs' : List α} {text text' : List Char} (h : Chain R first xs text)
    (h' : Chain R first xs' text') (heq : text = text')
    (helement : ∀ x ∈ xs, ∀ {x' text}, R x text → R x' text → x = x') : xs = xs' := by
  have hcomma : close ≠ 0x2C := by rcases hclose with rfl | rfl <;> decide
  have hblank : isBlank close = false := by rcases hclose with rfl | rfl <;> decide
  have hdone : ∀ {first w}, IsBlanks w →
      readComma first close .endInList .noListComma (encode w ++ [close]) = .ok none := by
    intro first w hw
    exact readComma_eq_none_iff.mpr ⟨[], skipBlanks_eq_cons_iff.mpr ⟨hblank, w, hw, rfl⟩⟩
  have hnext : ∀ {first x l text} (u), Lead first l → R x text →
      readComma first close .endInList .noListComma (encode (l ++ text ++ u) ++ [close]) =
        .ok (some (encode text ++ (encode u ++ [close]))) := by
    intro first x l text u hl hx
    refine (readComma_eq_some_iff hcomma).mpr ⟨hopens hx _, l, hl, ?_⟩
    simp only [encode_append, List.append_assoc]
  induction h generalizing xs' text' with
  | done hw =>
    cases h' with
    | done _ => rfl
    | @next _ _ _ _ _ u hl hx _ =>
      have hread := hnext u hl hx
      rw [← heq, hdone hw] at hread
      exact absurd (Except.ok.inj hread) (by simp)
  | @next first x xs l text u hl hx hu ih =>
    have hread := hnext u hl hx
    cases h' with
    | done hw =>
      rw [heq, hdone hw] at hread
      exact absurd (Except.ok.inj hread) (by simp)
    | @next _ x' xs' l' text' u' hl' hx' hu' =>
      rw [heq, hnext u' hl' hx'] at hread
      have hbytes := (Option.some.inj (Except.ok.inj hread)).symm
      obtain rfl := hspan hx hx' (hu.ends hclose []) (hu'.ends hclose []) hbytes
      obtain rfl := helement x List.mem_cons_self hx hx'
      have hrest := encode_injective (List.append_cancel_right (List.append_cancel_left hbytes))
      rw [ih hu' hrest fun y hy => helement y (List.mem_cons_of_mem _ hy)]

end

/-! ### Trees -/

/-- Trees that are written alike can be passed over as the same value. -/
theorem exists_denotes_both {t t' : Tree} {text : List Char} (h : t.Written text)
    (h' : t'.Written text) : ∃ v, t.Denotes true v ∧ t'.Denotes true v := by
  obtain ⟨v, hv⟩ := exists_denotes_of_written h
  obtain ⟨v', hv'⟩ := exists_denotes_of_written h'
  have hreads : Reads true 0 v text := ⟨t, h, nofun, hv⟩
  have hreads' : Reads true 0 v' text := ⟨t', h', nofun, hv'⟩
  obtain rfl := (hreads.span hreads' ends_nil ends_nil rfl).1
  exact ⟨v, hv, hv'⟩

theorem Tree.Written.span {t t' : Tree} {text text' : List Char} {s s' : Bytes}
    (h : t.Written text) (h' : t'.Written text') (hs : Ends s) (hs' : Ends s')
    (heq : encode text ++ s = encode text' ++ s') : text = text' := by
  obtain ⟨v, hreads⟩ := h.exists_reads
  obtain ⟨v', hreads'⟩ := h'.exists_reads
  exact (hreads.span hreads' hs hs' heq).2

theorem MemberWritten.exists_reads {m : List Char × Tree} {text : List Char}
    (h : MemberWritten m text) : ∃ x, ReadsMember true 0 x text := by
  obtain ⟨b, t⟩ := m
  obtain ⟨hb, hw, hw', ht⟩ := h
  obtain ⟨v, hv⟩ := exists_denotes_of_written ht
  obtain ⟨s, hs⟩ := hb
  refine ⟨(String.ofList s, v), (b, t), .mk ⟨s, hs⟩ hw hw' ht, nofun, .mk ?_ hv⟩
  rwa [String.toList_ofList]

theorem MemberWritten.span {m m' : List Char × Tree} {text text' : List Char} {s s' : Bytes}
    (h : MemberWritten m text) (h' : MemberWritten m' text') (hs : Ends s) (hs' : Ends s')
    (heq : encode text ++ s = encode text' ++ s') : text = text' := by
  obtain ⟨x, hreads⟩ := h.exists_reads
  obtain ⟨x', hreads'⟩ := h'.exists_reads
  exact (hreads.span hreads' hs hs' heq).2

theorem of_arrayWritten {ts : List Tree} {text : List Char} (h : (Tree.array ts).Written text) :
    ∃ inner, Chain Tree.Written true ts inner ∧ text = '[' :: inner ++ [']'] := by
  cases h with
  | array h => exact ⟨_, h.chain, rfl⟩

theorem of_objectWritten {ms : List (List Char × Tree)} {text : List Char}
    (h : (Tree.object ms).Written text) :
    ∃ inner, Chain MemberWritten true ms inner ∧ text = '{' :: inner ++ ['}'] := by
  cases h with
  | object h => exact ⟨_, h.chain, rfl⟩

theorem IsBody.span {b b' : List Char} {s s' : Bytes} (h : IsBody b) (h' : IsBody b')
    (heq : encode b ++ 0x22 :: s = encode b' ++ 0x22 :: s') : b = b' ∧ s = s' := by
  have hread : ∀ {b s}, IsBody b →
      ∃ text, readString true (encode b ++ 0x22 :: s) = .ok (text, s) := by
    rintro b s ⟨text, hb⟩
    exact ⟨String.ofList text, readString_eq_ok_iff.mpr ⟨b, by rwa [String.toList_ofList], rfl⟩⟩
  obtain ⟨text, hs⟩ := hread h
  obtain ⟨text', hs'⟩ := hread h'
  rw [heq, hs'] at hs
  obtain ⟨-, rfl⟩ := Prod.mk.inj (Except.ok.inj hs)
  exact ⟨encode_injective (List.append_cancel_right heq), rfl⟩

theorem Tree.Written.skipBlanks {t : Tree} {text : List Char} (h : t.Written text) (s : Bytes) :
    Json.skipBlanks (encode text ++ s) = encode text ++ s := by
  obtain ⟨b, u, hu, hb, -⟩ := h.opens (.inl rfl) s
  rw [hu, skipBlanks_cons hb]

/-- Members that are written alike have the same name, and values that are written alike. -/
theorem memberWritten_parts {m m' : List Char × Tree} {text : List Char} (h : MemberWritten m text)
    (h' : MemberWritten m' text) : m.1 = m'.1 ∧ ∃ u, m.2.Written u ∧ m'.2.Written u := by
  obtain @⟨b, w, x, u, t, hb, hw, hx, hu⟩ := h
  have hparts : ∀ {m'} {text' : List Char}, MemberWritten m' text' →
      '"' :: b ++ '"' :: w ++ ':' :: x ++ u = text' →
        b = m'.1 ∧ ∃ u, t.Written u ∧ m'.2.Written u := by
    rintro _ _ @⟨b', w', x', u', t', hb', hw', hx', hu'⟩ heq
    have hbytes := congrArg encode heq
    have hquote : encodeChar '"' = [0x22] := rfl
    have hcolon : encodeChar ':' = [0x3A] := rfl
    simp only [encode_append, encode_cons, List.append_assoc, List.cons_append, hquote, hcolon,
      List.nil_append] at hbytes
    obtain ⟨rfl, hrest⟩ := hb.span hb' (List.cons.inj hbytes).2
    have hread : ∀ {w x u}, IsBlanks w →
        readColon (encode w ++ 0x3A :: (encode x ++ encode u)) = .ok (encode x ++ encode u) :=
      fun hw => readColon_eq_ok_iff.mpr ⟨_, hw, rfl⟩
    have hcolons := hread hw (x := x) (u := u)
    rw [hrest, hread hw'] at hcolons
    have hvalues := congrArg Json.skipBlanks (Except.ok.inj hcolons)
    rw [skipBlanks_append hx, skipBlanks_append hx', ← List.append_nil (encode u),
      ← List.append_nil (encode u'), hu.skipBlanks, hu'.skipBlanks, List.append_nil,
      List.append_nil] at hvalues
    obtain rfl := encode_injective hvalues
    exact ⟨rfl, u', hu, hu'⟩
  exact hparts h' rfl

/-- What stands between the first and the last character. -/
theorem enclosed_injective {l r : Char} {s s' : List Char} (h : l :: s ++ [r] = l :: s' ++ [r]) :
    s = s' :=
  List.append_cancel_right (List.cons.inj h).2

mutual

theorem written_unique : (t : Tree) → {t' : Tree} → {text : List Char} → t.Written text →
    t'.Written text → t = t'
  | .null, t', _, h, h' => by
    obtain ⟨v, hv, hv'⟩ := exists_denotes_both h h'
    cases hv
    cases hv'
    rfl
  | .bool b, t', _, h, h' => by
    obtain ⟨v, hv, hv'⟩ := exists_denotes_both h h'
    cases hv
    cases hv'
    rfl
  | .number n, t', text, h, h' => by
    obtain ⟨v, hv, hv'⟩ := exists_denotes_both h h'
    cases hv
    obtain @⟨_, _, _⟩ := hv'
    cases h
    cases h'
    rfl
  | .string b, t', text, h, h' => by
    obtain ⟨v, hv, hv'⟩ := exists_denotes_both h h'
    have hbody : ∀ {b}, (Tree.string b).Written text → text = '"' :: b ++ ['"'] := by
      rintro b ⟨⟩
      rfl
    cases hv
    cases hv'
    rw [enclosed_injective ((hbody h).symm.trans (hbody h'))]
  | .array ts, t', text, h, h' => by
    obtain ⟨v, hv, hv'⟩ := exists_denotes_both h h'
    cases hv
    cases hv' with
    | @array ts' =>
      obtain ⟨inner, hchain, htext⟩ := of_arrayWritten h
      obtain ⟨inner', hchain', htext'⟩ := of_arrayWritten h'
      have hinner := enclosed_injective (htext.symm.trans htext')
      have heq := hchain.unique (.inl rfl) (fun hx s => hx.opens (.inl rfl) s) Tree.Written.span
        hchain' hinner (itemsWritten_unique ts)
      rw [heq]
  | .object ms, t', text, h, h' => by
    obtain ⟨v, hv, hv'⟩ := exists_denotes_both h h'
    cases hv with
    | @object _ vs _ =>
      generalize hmembers : Value.object (lastOfEach vs) = v at hv'
      cases hv' with
      | @object ms' =>
        obtain ⟨inner, hchain, htext⟩ := of_objectWritten h
        obtain ⟨inner', hchain', htext'⟩ := of_objectWritten h'
        have hinner := enclosed_injective (htext.symm.trans htext')
        have heq := hchain.unique (.inr rfl) MemberWritten.opens MemberWritten.span hchain' hinner
          (membersWritten_unique ms)
        rw [heq]
      | _ => exact Value.noConfusion hmembers

theorem itemsWritten_unique : (ts : List Tree) → ∀ t ∈ ts, ∀ {t' : Tree} {text : List Char},
    t.Written text → t'.Written text → t = t'
  | [] => fun _ ht => absurd ht List.not_mem_nil
  | t :: ts =>
    List.forall_mem_cons.mpr ⟨fun h h' => written_unique t h h', itemsWritten_unique ts⟩

theorem membersWritten_unique : (ms : List (List Char × Tree)) → ∀ m ∈ ms,
    ∀ {m' : List Char × Tree} {text : List Char}, MemberWritten m text → MemberWritten m' text →
      m = m'
  | [] => fun _ hm => absurd hm List.not_mem_nil
  | (b, t) :: ms => by
    refine List.forall_mem_cons.mpr ⟨fun h h' => ?_, membersWritten_unique ms⟩
    obtain ⟨hb, u, hu, hu'⟩ := memberWritten_parts h h'
    exact Prod.ext hb (written_unique t hu hu')

end

/-- A text is that of one tree only. -/
theorem Tree.IsTextOf.unique {t t' : Tree} {text : List Char} (h : t.IsTextOf text)
    (h' : t'.IsTextOf text) : t = t' := by
  obtain ⟨w, u, x, hw, hu, hx, rfl⟩ := h
  obtain ⟨w', u', x', hw', hu', hx', heq⟩ := h'
  have hbytes := congrArg (fun s => skipBlanks (encode s)) heq
  simp only [encode_append, List.append_assoc, skipBlanks_append hw, skipBlanks_append hw',
    hu.skipBlanks, hu'.skipBlanks] at hbytes
  obtain rfl := hu.span hu' (ends_blanks hx) (ends_blanks hx') hbytes
  exact written_unique t hu hu'

end QualityGate.Json
