import QualityGate.Proofs.Json.Reading

/-! # What trees stand for

A tree stands for a value exactly if its numbers and strings do (`exists_denotes_iff`). For values
that are passed over, that is so for all trees that can be written; for those that are kept, it is
what makes a tree legible. A tree stands for one value only, and of the members of an object with
one name the last counts. -/

namespace QualityGate.Json

open Text.Utf8 (encode)

/-! ### Numbers and strings -/

/-- A whole number that a word can hold keeps its digits, without a power of ten. -/
theorem Numeral.fits_ofInt {k : Int} (hlow : -2 ^ 63 ≤ k) (hhigh : k < 2 ^ 64) :
    (ofInt k).Fits := by
  have hdigits : digitsValue (encode (Nat.toDigits 10 k.natAbs) ++ []) < 2 ^ 64 := by
    rw [List.append_nil, digitsValue_toDigits]
    omega
  have hparts : (ofInt k).parts = _ := parts_of_lt hdigits
  exact fits_of_power_eq_zero (congrArg Prod.snd hparts)

theorem inRange_iff {text : List Char} : InRange text ↔ ∃ x, NumberValue false text x := by
  constructor
  · rintro ⟨n, hn, hfits⟩
    exact ⟨_, numberValue_of_written hn fun _ => hfits⟩
  · rintro ⟨x, hx⟩
    cases hx with
    | whole h =>
      obtain ⟨hlow, hhigh, rfl⟩ := h
      exact ⟨_, Numeral.written_ofInt _, Numeral.fits_ofInt hlow hhigh⟩
    | real hn _ hfits => exact ⟨_, hn, hfits rfl⟩

theorem IsNumber.exists_value {text : List Char} (h : IsNumber text) :
    ∃ x, NumberValue true text x := by
  obtain ⟨n, hn⟩ := h
  exact ⟨_, numberValue_of_written hn nofun⟩

/-- A body spells one text at most. -/
theorem Spells.unique {lenient : Bool} {b s s' : List Char} (h : Spells lenient b s)
    (h' : Spells lenient b s') : s = s' := by
  have heq := (spells_iff.mp h).symm.trans (spells_iff.mp h')
  exact String.ofList_injective (Prod.mk.inj (Except.ok.inj heq)).1

/-! ### Trees -/

def Mean (lenient : Bool) (numbers strings : List (List Char)) : Prop :=
  (∀ n ∈ numbers, ∃ x, NumberValue lenient n x) ∧ ∀ b ∈ strings, ∃ s, Spells lenient b s

section

variable {lenient : Bool}

theorem mean_nil : Mean lenient [] [] :=
  ⟨fun _ h => absurd h List.not_mem_nil, fun _ h => absurd h List.not_mem_nil⟩

theorem mean_append_iff {ns ns' ss ss' : List (List Char)} :
    Mean lenient (ns ++ ns') (ss ++ ss') ↔ Mean lenient ns ss ∧ Mean lenient ns' ss' := by
  simp only [Mean, List.forall_mem_append]
  exact and_and_and_comm

theorem mean_cons_iff {b : List Char} {ns ss : List (List Char)} :
    Mean lenient ns (b :: ss) ↔ (∃ s, Spells lenient b s) ∧ Mean lenient ns ss := by
  simp only [Mean, List.forall_mem_cons]
  exact and_left_comm

mutual

theorem exists_denotes_iff :
    (t : Tree) → ((∃ v, t.Denotes lenient v) ↔ Mean lenient t.numbers t.strings)
  | .null => ⟨fun _ => mean_nil, fun _ => ⟨_, .null⟩⟩
  | .bool b => ⟨fun _ => mean_nil, fun _ => ⟨_, .bool b⟩⟩
  | .number n => by
    constructor
    · rintro ⟨_, h⟩
      cases h with
      | number h =>
        refine ⟨fun m hm => ?_, fun _ h => absurd h List.not_mem_nil⟩
        obtain rfl := List.mem_singleton.mp hm
        exact ⟨_, h⟩
    · rintro ⟨h, -⟩
      obtain ⟨x, hx⟩ := h n List.mem_cons_self
      exact ⟨_, .number hx⟩
  | .string b => by
    constructor
    · rintro ⟨_, h⟩
      cases h with
      | string h => exact mean_cons_iff.mpr ⟨⟨_, h⟩, mean_nil⟩
    · intro h
      obtain ⟨s, hs⟩ := (mean_cons_iff.mp h).1
      exact ⟨.string (String.ofList s), .string (by rwa [String.toList_ofList])⟩
  | .array ts => by
    rw [Tree.numbers, Tree.strings, ← exists_itemsDenote_iff ts]
    constructor
    · rintro ⟨_, h⟩
      cases h with
      | array h => exact ⟨_, h⟩
    · rintro ⟨vs, h⟩
      exact ⟨_, .array h⟩
  | .object ms => by
    rw [Tree.numbers, Tree.strings, ← exists_membersDenote_iff ms]
    constructor
    · rintro ⟨_, h⟩
      cases h with
      | object h => exact ⟨_, h⟩
    · rintro ⟨vs, h⟩
      exact ⟨_, .object h⟩

theorem exists_itemsDenote_iff :
    (ts : List Tree) → ((∃ vs, List.Forall₂ (Tree.Denotes lenient) ts vs) ↔
      Mean lenient (Tree.itemsNumbers ts) (Tree.itemsStrings ts))
  | [] => ⟨fun _ => mean_nil, fun _ => ⟨[], .nil⟩⟩
  | t :: ts => by
    rw [Tree.itemsNumbers, Tree.itemsStrings, mean_append_iff, ← exists_denotes_iff t,
      ← exists_itemsDenote_iff ts]
    constructor
    · rintro ⟨_, _ | ⟨h, hs⟩⟩
      exact ⟨⟨_, h⟩, _, hs⟩
    · rintro ⟨⟨v, h⟩, vs, hs⟩
      exact ⟨v :: vs, .cons h hs⟩

theorem exists_membersDenote_iff :
    (ms : List (List Char × Tree)) → ((∃ vs, List.Forall₂ (MemberDenotes lenient) ms vs) ↔
      Mean lenient (Tree.membersNumbers ms) (Tree.membersStrings ms))
  | [] => ⟨fun _ => mean_nil, fun _ => ⟨[], .nil⟩⟩
  | (b, t) :: ms => by
    rw [Tree.membersNumbers, Tree.membersStrings, List.cons_append, mean_cons_iff, mean_append_iff,
      ← exists_denotes_iff t, ← exists_membersDenote_iff ms]
    constructor
    · rintro ⟨_, _ | ⟨⟨hb, h⟩, hs⟩⟩
      exact ⟨⟨_, hb⟩, ⟨_, h⟩, _, hs⟩
    · rintro ⟨⟨s, hb⟩, ⟨v, h⟩, vs, hs⟩
      exact ⟨(String.ofList s, v) :: vs, .cons (.mk (by rwa [String.toList_ofList]) h) hs⟩

end

end

theorem Tree.legible_iff {t : Tree} : t.Legible ↔ ∃ v, t.Denotes false v := by
  rw [exists_denotes_iff]
  constructor
  · rintro ⟨hnumber, hstring⟩
    exact ⟨fun n hn => inRange_iff.mp (hnumber n hn), hstring⟩
  · rintro ⟨hnumber, hstring⟩
    exact ⟨fun n hn => inRange_iff.mpr (hnumber n hn), hstring⟩

mutual

theorem mean_of_written : (t : Tree) → {text : List Char} → t.Written text →
    Mean true t.numbers t.strings
  | .null, _, _ => mean_nil
  | .bool _, _, _ => mean_nil
  | .number n, _, h => by
    cases h with
    | number h =>
      refine ⟨fun m hm => ?_, fun _ h => absurd h List.not_mem_nil⟩
      obtain rfl := List.mem_singleton.mp hm
      exact h.exists_value
  | .string b, _, h => by
    cases h with
    | string h => exact mean_cons_iff.mpr ⟨h, mean_nil⟩
  | .array ts, _, h => by
    cases h with
    | array h => exact mean_of_itemsWritten ts h.exists_text
  | .object ms, _, h => by
    cases h with
    | object h => exact mean_of_membersWritten ms h.exists_text

theorem mean_of_itemsWritten : (ts : List Tree) → (∀ t ∈ ts, ∃ text, t.Written text) →
    Mean true (Tree.itemsNumbers ts) (Tree.itemsStrings ts)
  | [], _ => mean_nil
  | t :: ts, h => by
    obtain ⟨text, ht⟩ := h t List.mem_cons_self
    exact mean_append_iff.mpr ⟨mean_of_written t ht,
      mean_of_itemsWritten ts fun x hx => h x (List.mem_cons_of_mem t hx)⟩

theorem mean_of_membersWritten :
    (ms : List (List Char × Tree)) → (∀ m ∈ ms, ∃ text, MemberWritten m text) →
      Mean true (Tree.membersNumbers ms) (Tree.membersStrings ms)
  | [], _ => mean_nil
  | (b, t) :: ms, h => by
    obtain ⟨text, hm⟩ := h (b, t) List.mem_cons_self
    obtain ⟨hb, -, -, ht⟩ := hm
    exact mean_cons_iff.mpr ⟨hb, mean_append_iff.mpr ⟨mean_of_written t ht,
      mean_of_membersWritten ms fun x hx => h x (List.mem_cons_of_mem _ hx)⟩⟩

end

/-- Any tree that can be written can be passed over. -/
theorem exists_denotes_of_written {t : Tree} {text : List Char} (h : t.Written text) :
    ∃ v, t.Denotes true v :=
  (exists_denotes_iff t).mpr (mean_of_written t h)

theorem Tree.Written.exists_reads {t : Tree} {text : List Char} (h : t.Written text) :
    ∃ v, Reads Bool.true 0 v text := by
  obtain ⟨v, hv⟩ := exists_denotes_of_written h
  exact ⟨v, t, h, nofun, hv⟩

/-- A tree that can be written stands for one value at most. -/
theorem Tree.Denotes.unique {lenient : Bool} {t : Tree} {text : List Char} {v v' : Value}
    (ht : t.Written text) (h : t.Denotes lenient v) (h' : t.Denotes lenient v') : v = v' := by
  have hreads : Reads lenient t.depth v text := ⟨t, ht, fun _ => Nat.le_refl _, h⟩
  have hreads' : Reads lenient t.depth v' text := ⟨t, ht, fun _ => Nat.le_refl _, h'⟩
  exact (hreads.span hreads' ends_nil ends_nil rfl).1

/-! ### Members with one name -/

/-- The last element of a kind. -/
def IsLast {α : Type} (p : α → Prop) (x : α) (xs : List α) : Prop :=
  ∃ before after, xs = before ++ x :: after ∧ p x ∧ ∀ y ∈ after, ¬ p y

theorem isLast_cons_iff {α : Type} {p : α → Prop} {x y : α} {ys : List α} :
    IsLast p x (y :: ys) ↔ (y = x ∧ p x ∧ ∀ z ∈ ys, ¬ p z) ∨ IsLast p x ys := by
  constructor
  · rintro ⟨before, after, heq, hx, hafter⟩
    cases before with
    | nil =>
      obtain ⟨rfl, rfl⟩ := List.cons.inj heq
      exact .inl ⟨rfl, hx, hafter⟩
    | cons z before =>
      obtain ⟨rfl, rfl⟩ := List.cons.inj heq
      exact .inr ⟨before, after, rfl, hx, hafter⟩
  · rintro (⟨rfl, hx, hafter⟩ | ⟨before, after, rfl, hx, hafter⟩)
    · exact ⟨[], ys, rfl, hx, hafter⟩
    · exact ⟨y :: before, after, rfl, hx, hafter⟩

theorem IsLast.mem {α : Type} {p : α → Prop} {x : α} {xs : List α} (h : IsLast p x xs) :
    x ∈ xs ∧ p x := by
  obtain ⟨before, after, rfl, hx, -⟩ := h
  exact ⟨List.mem_append_right _ List.mem_cons_self, hx⟩

/-- Of two lists that go together, the last elements of a kind do. -/
theorem IsLast.forall₂ {α β : Type} {R : α → β → Prop} {p : α → Prop} {q : β → Prop}
    {xs : List α} {ys : List β} (h : List.Forall₂ R xs ys) (hkind : ∀ x y, R x y → (p x ↔ q y))
    {x : α} (hx : IsLast p x xs) : ∃ y, R x y ∧ IsLast q y ys := by
  induction h with
  | nil => exact absurd hx.mem.1 List.not_mem_nil
  | @cons a b as bs hab hs ih =>
    rcases isLast_cons_iff.mp hx with ⟨rfl, hp, hafter⟩ | hx
    · refine ⟨b, hab, isLast_cons_iff.mpr (.inl ⟨rfl, (hkind _ _ hab).mp hp, fun y hy hq => ?_⟩)⟩
      obtain ⟨i, hi, rfl⟩ := List.getElem_of_mem hy
      have hlength := hs.length_eq
      have hr := hs.get (hlength ▸ hi) hi
      exact hafter _ (List.getElem_mem _) ((hkind _ _ hr).mpr hq)
    · obtain ⟨y, hr, hy⟩ := ih hx
      exact ⟨y, hr, isLast_cons_iff.mpr (.inr hy)⟩

theorem lookup_lastOfEach_eq_some_iff {ms : List (String × Value)} {name : String} {v : Value} :
    (lastOfEach ms).lookup name = some v ↔ IsLast (fun m => m.1 = name) (name, v) ms := by
  induction ms with
  | nil => simp [lastOfEach, IsLast]
  | cons m ms ih =>
    rw [lastOfEach, isLast_cons_iff, ← ih]
    by_cases hlater : ms.any (fun x => x.1 = m.1) = true
    · rw [if_pos hlater]
      obtain ⟨x, hx, heq⟩ := List.any_eq_true.mp hlater
      refine (or_iff_right ?_).symm
      rintro ⟨rfl, -, hno⟩
      exact hno x hx (of_decide_eq_true heq)
    · rw [if_neg hlater]
      have hno : ∀ x ∈ ms, x.1 ≠ m.1 := by
        intro x hx heq
        exact hlater (List.any_eq_true.mpr ⟨x, hx, decide_eq_true heq⟩)
      obtain ⟨n, u⟩ := m
      by_cases hname : n = name
      · subst hname
        have hnone : ¬ (lastOfEach ms).lookup n = some v := by
          rw [ih]
          intro hlast
          exact hno _ hlast.mem.1 rfl
        simp only [List.lookup_cons, beq_self_eq_true, hnone, or_false]
        constructor
        · intro h
          obtain rfl := Option.some.inj h
          exact ⟨rfl, trivial, hno⟩
        · rintro ⟨h, -, -⟩
          rw [(Prod.mk.inj h).2]
      · have hbeq : (name == n) = false := by simpa using Ne.symm hname
        simp [List.lookup_cons, hbeq, hname]

/-- The member is spelled as the name. -/
def Names (name : String) (m : List Char × Tree) : Prop := Spells false m.1 name.toList

/-- A name is looked up in what the last member that spells it stands for. -/
theorem lookup_members_iff {ms : List (List Char × Tree)} {vs : List (String × Value)}
    (hwritten : ∀ m ∈ ms, ∃ text, MemberWritten m text)
    (h : List.Forall₂ (MemberDenotes false) ms vs) {name : String} {v : Value} :
    (lastOfEach vs).lookup name = some v ↔
      ∃ m, IsLast (Names name) m ms ∧ m.2.Denotes false v := by
  have hkind : ∀ m x, MemberDenotes false m x → (Names name m ↔ x.1 = name) := by
    rintro m x ⟨hb, -⟩
    constructor
    · intro hname
      exact String.toList_injective (hb.unique hname)
    · rintro rfl
      exact hb
  rw [lookup_lastOfEach_eq_some_iff]
  constructor
  · intro hlast
    have hflip := IsLast.forall₂ (R := fun x m => MemberDenotes false m x) h.flip
      (fun x m hr => (hkind m x hr).symm) hlast
    obtain ⟨m, hm, hmlast⟩ := hflip
    obtain ⟨-, hd⟩ := hm
    exact ⟨_, hmlast, hd⟩
  · rintro ⟨m, hlast, hd⟩
    obtain ⟨x, hx, hxlast⟩ := hlast.forall₂ h hkind
    obtain ⟨text, hm⟩ := hwritten m hlast.mem.1
    obtain ⟨-, -, -, ht⟩ := hm
    have hname : x.1 = name := hxlast.mem.2
    obtain ⟨-, hv⟩ := hx
    obtain rfl := Tree.Denotes.unique ht hv hd
    subst hname
    exact hxlast

theorem nodup_lastOfEach (ms : List (String × Value)) : ((lastOfEach ms).map Prod.fst).Nodup := by
  have hmem : ∀ {ms : List (String × Value)} {m}, m ∈ lastOfEach ms → m ∈ ms := by
    intro ms
    induction ms with
    | nil => exact fun h => h
    | cons x ms ih =>
      intro m hm
      rw [lastOfEach] at hm
      split at hm
      · exact List.mem_cons_of_mem _ (ih hm)
      · rcases List.mem_cons.mp hm with rfl | hm
        · exact List.mem_cons_self
        · exact List.mem_cons_of_mem _ (ih hm)
  induction ms with
  | nil => exact List.nodup_nil
  | cons x ms ih =>
    rw [lastOfEach]
    split
    · exact ih
    · rename_i hno
      refine List.nodup_cons.mpr ⟨fun hx => ?_, ih⟩
      obtain ⟨m, hm, heq⟩ := List.mem_map.mp hx
      exact hno (List.any_eq_true.mpr ⟨m, hmem hm, decide_eq_true heq⟩)

/-- What a tree stands for, name by name: of the members with one name the last counts. -/
theorem Tree.Denotes.lookup_iff {t : Tree} {text : List Char} {m : List (String × Value)}
    (ht : t.Written text) (h : t.Denotes false (.object m)) {name : String} {v : Value} :
    m.lookup name = some v ↔ ∃ members x, t = .object members ∧ IsLast (Names name) x members ∧
      x.2.Denotes false v := by
  cases h with
  | @object members vs hs =>
    have hwritten : ∀ x ∈ members, ∃ u, MemberWritten x u := by
      cases ht with
      | object hseries => exact hseries.exists_text
    rw [lookup_members_iff hwritten hs]
    constructor
    · rintro ⟨x, hx, hv⟩
      exact ⟨members, x, rfl, hx, hv⟩
    · rintro ⟨members', x, heq, hx, hv⟩
      obtain rfl := Tree.object.inj heq
      exact ⟨x, hx, hv⟩

theorem Tree.Denotes.nodup {lenient : Bool} {t : Tree} {m : List (String × Value)}
    (h : t.Denotes lenient (.object m)) : (m.map Prod.fst).Nodup := by
  cases h with
  | object _ => exact nodup_lastOfEach _

end QualityGate.Json
