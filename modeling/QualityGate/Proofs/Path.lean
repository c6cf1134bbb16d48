import Mathlib.Data.List.DropRight
import Mathlib.Data.List.Infix
import QualityGate.Path

/-! # Parts of a path

Trimming a text, cutting it at slashes and taking its last part never make up characters: what is
left stands somewhere in the text, in one piece. So the name that is shown for a path is a piece of
the path (`Path.displayName_infix`). What is said of the parts of a text is shown from one cut to
the next (`Text.cut_induction`).

A path in a directory has the directory's parts and then its own (`Path.components_join`), so a file
has its name in any directory (`Path.fileName?_join`). What occurs in the path occurs in one of the
two, at most with the slash between them (`Path.infix_join_iff`, `Path.enclosed_infix_join_iff`). -/

namespace QualityGate

namespace Text

theorem trim_infix (s : List Char) : trim s <:+: s := by
  have hdrop : (s.dropWhile isBlank).rdropWhile isBlank <+: s.dropWhile isBlank :=
    List.rdropWhile_prefix isBlank _
  exact hdrop.isInfix.trans (List.dropWhile_suffix isBlank).isInfix

theorem trim_of_not_blank {s : List Char} (hhead : ∀ c, s.head? = some c → isBlank c = false)
    (hlast : ∀ c, s.getLast? = some c → isBlank c = false) : trim s = s := by
  have hdrop : ∀ {t : List Char}, (∀ c, t.head? = some c → isBlank c = false) →
      t.dropWhile isBlank = t := by
    intro t ht
    cases t with
    | nil => rfl
    | cons c t => rw [List.dropWhile_cons, ht c rfl, if_neg Bool.false_ne_true]
  rw [trim, hdrop hhead, hdrop (by rwa [List.head?_reverse]), List.reverse_reverse]

/-! ### Texts that are cut at a separator -/

section Cut

variable {sep : Char}

theorem segments_append_cons (sep : Char) (a b : List Char) :
    segments sep (a ++ sep :: b) = segments sep a ++ segments sep b := by
  induction a with
  | nil => simp [segments]
  | cons c a ih =>
    rw [List.cons_append, segments, segments, ih]
    split
    · rfl
    · cases hk : segments sep a with
      | nil => exact absurd hk (segments_ne_nil sep a)
      | cons k ks => rfl

theorem segments_of_notMem {s : List Char} (h : sep ∉ s) : segments sep s = [s] := by
  induction s with
  | nil => rfl
  | cons c s ih =>
    rw [List.mem_cons, not_or] at h
    rw [segments, if_neg (Ne.symm h.1), ih h.2]

theorem segments_cut {p : List Char} (hp : sep ∉ p) (s : List Char) :
    segments sep (p ++ sep :: s) = p :: segments sep s := by
  rw [segments_append_cons, segments_of_notMem hp, List.singleton_append]

/-- A text is one part, or a part, a separator and the rest of the text. -/
@[elab_as_elim]
theorem cut_induction {P : List Char → Prop} (sep : Char) (part : ∀ p, sep ∉ p → P p)
    (cut : ∀ p s, sep ∉ p → P s → P (p ++ sep :: s)) (s : List Char) : P s := by
  induction hn : s.length using Nat.strong_induction_on generalizing s with
  | _ n ih =>
    by_cases hs : sep ∈ s
    · obtain ⟨p, t, rfl, hp⟩ := List.eq_append_cons_of_mem hs
      refine cut p t hp (ih t.length ?_ t rfl)
      rw [← hn, List.length_append, List.length_cons]
      omega
    · exact part s hs

theorem notMem_of_mem_segments {s p : List Char} (h : p ∈ segments sep s) : sep ∉ p := by
  induction s using cut_induction sep with
  | part q hq =>
    rw [segments_of_notMem hq, List.mem_singleton] at h
    rwa [h]
  | cut q s hq ih =>
    rw [segments_cut hq, List.mem_cons] at h
    rcases h with rfl | h
    · exact hq
    · exact ih h

theorem infix_of_mem_segments {s p : List Char} (h : p ∈ segments sep s) : p <:+: s := by
  induction s using cut_induction sep with
  | part q hq =>
    rw [segments_of_notMem hq, List.mem_singleton] at h
    rw [h]
  | cut q s hq ih =>
    rw [segments_cut hq, List.mem_cons] at h
    rcases h with rfl | h
    · exact (List.prefix_append p _).isInfix
    · have hrest : s <:+: q ++ sep :: s :=
        (List.infix_cons List.infix_rfl).trans (List.suffix_append q (sep :: s)).isInfix
      exact (ih h).trans hrest

/-- Each character of a text separates, or stands in a part. -/
theorem mem_segments_of_mem {c : Char} {s : List Char} (h : c ∈ s) :
    c = sep ∨ ∃ p ∈ segments sep s, c ∈ p := by
  induction s using cut_induction sep with
  | part q hq =>
    rw [segments_of_notMem hq]
    exact .inr ⟨q, List.mem_singleton_self q, h⟩
  | cut q s hq ih =>
    rw [segments_cut hq]
    rcases List.mem_append.mp h with hc | hc
    · exact .inr ⟨q, List.mem_cons_self, hc⟩
    · rcases List.mem_cons.mp hc with hsep | hc
      · exact .inl hsep
      · refine (ih hc).imp_right fun ⟨p, hp, hcp⟩ => ?_
        exact ⟨p, List.mem_cons_of_mem q hp, hcp⟩

/-- The last part of a text has the text's last character, unless that separates. -/
theorem getLast?_segments {c : Char} (hc : c ≠ sep) (s : List Char) :
    ∃ l, (segments sep (s ++ [c])).getLast? = some (l ++ [c]) := by
  induction s using cut_induction sep with
  | part q hq =>
    refine ⟨q, ?_⟩
    rw [segments_of_notMem, List.getLast?_singleton]
    simp [hq, hc.symm]
  | cut q s hq ih =>
    obtain ⟨l, hl⟩ := ih
    refine ⟨l, ?_⟩
    rw [List.append_assoc, List.cons_append, segments_cut hq, List.getLast?_cons, hl,
      Option.getD_some]

end Cut

/-! ### Two texts around a separator -/

section Separated

variable {sep : Char} {w a b : List Char}

/-- A word does not reach across a character that it lacks. -/
theorem infix_append_cons_iff (hw : sep ∉ w) : w <:+: a ++ sep :: b ↔ w <:+: a ∨ w <:+: b := by
  have hempty : ∀ {u : List Char}, sep ∉ u → u <+: sep :: b → u = [] := by
    intro u hu h
    cases u with
    | nil => rfl
    | cons c u => exact absurd (List.cons_prefix_cons.mp h).1.symm (List.ne_of_not_mem_cons hu)
  rw [List.infix_append_iff]
  constructor
  · rintro (h | h | ⟨l, r, rfl, hl, hr⟩)
    · exact .inl h
    · rcases List.infix_cons_iff.mp h with hhead | htail
      · rw [hempty hw hhead]
        exact .inl List.nil_infix
      · exact .inr htail
    · rw [hempty (fun hmem => hw (List.mem_append_right l hmem)) hr, List.append_nil]
      exact .inl hl.isInfix
  · rintro (h | h)
    · exact .inl h
    · exact .inr (.inl (List.infix_cons h))

/-- A word without separators stands in one part. -/
theorem infix_iff_exists_segment {s : List Char} (hw : sep ∉ w) :
    w <:+: s ↔ ∃ p ∈ segments sep s, w <:+: p := by
  induction s using cut_induction sep with
  | part q hq => simp [segments_of_notMem hq]
  | cut q s hq ih => simp [infix_append_cons_iff hw, ih, segments_cut hq]

/-- Nothing is left behind a separator if the first one is at the end. -/
theorem eq_nil_of_append_concat (hw : sep ∉ w) {l r : List Char}
    (h : w ++ [sep] = l ++ [sep] ++ r) : r = [] := by
  rcases List.eq_nil_or_concat r with rfl | ⟨r, c, rfl⟩
  · rfl
  · rw [List.concat_eq_append, ← List.append_assoc] at h
    have hmem : sep ∈ w := by
      rw [(List.append_inj' h rfl).1]
      simp
    exact absurd hmem hw

/-- A word between two separators does not reach across one: that one is at its start or its end. -/
theorem enclosed_infix_iff (hw : sep ∉ w) :
    sep :: (w ++ [sep]) <:+: a ++ sep :: b ↔
      sep :: (w ++ [sep]) <:+: a ++ [sep] ∨ sep :: (w ++ [sep]) <:+: sep :: b := by
  constructor
  · intro h
    rw [List.append_cons a sep b, List.infix_append_iff] at h
    rcases h with h | h | ⟨l, r, hlr, hl, hr⟩
    · exact .inl h
    · exact .inr (List.infix_cons h)
    · cases l with
      | nil =>
        rw [hlr]
        exact .inr (List.infix_cons hr.isInfix)
      | cons c l =>
        rw [List.cons_append, List.cons.injEq] at hlr
        obtain ⟨rfl, hlr⟩ := hlr
        rcases List.eq_nil_or_concat l with rfl | ⟨l, d, rfl⟩
        · rw [hlr]
          exact .inr (List.cons_prefix_cons.mpr ⟨rfl, hr⟩).isInfix
        · rw [List.concat_eq_append] at hl hlr
          have hd : d = sep := by
            rw [← List.cons_append] at hl
            obtain ⟨t, ht⟩ := hl
            rw [← List.append_assoc] at ht
            exact List.singleton_inj.mp (List.append_inj' ht rfl).2
          subst hd
          rw [eq_nil_of_append_concat hw hlr, List.append_nil] at hlr
          rw [hlr]
          exact .inl hl.isInfix
  · rintro (h | h)
    · rw [List.append_cons a sep b]
      exact h.trans (List.prefix_append _ b).isInfix
    · exact h.trans (List.suffix_append a _).isInfix

end Separated

end Text

namespace Path

theorem fileName?_infix {s n : String} (h : fileName? s = some n) : n.toList <:+: s.toList := by
  rw [fileName?] at h
  split at h
  · rename_i p hp
    split at h
    · exact absurd h.symm (Option.some_ne_none n)
    · have hmem := List.mem_of_getLast? hp
      rw [components, List.mem_filter] at hmem
      rw [← Option.some.inj h, String.toList_ofList]
      exact Text.infix_of_mem_segments hmem.1
  · exact absurd h.symm (Option.some_ne_none n)

/-- **The name that is shown for a path is a piece of it.** -/
theorem displayName_infix (s : String) : (displayName s).toList <:+: s.toList := by
  rw [displayName]
  cases h : fileName? s with
  | none => exact List.infix_rfl
  | some n => exact fileName?_infix h

/-- A path that ends with neither a slash nor a dot is shown by a name with the same end. -/
theorem displayName_concat {c : Char} (hslash : c ≠ '/') (hdot : c ≠ '.') (s : List Char) :
    ∃ l, (displayName (String.ofList (s ++ [c]))).toList = l ++ [c] := by
  obtain ⟨l, hl⟩ := Text.getLast?_segments hslash s
  have hne : ∀ t : List Char, t.getLast? = some '.' → l ++ [c] ≠ t := by
    rintro t ht rfl
    rw [List.getLast?_concat] at ht
    exact hdot (Option.some.inj ht)
  obtain ⟨ps, hps⟩ := List.getLast?_eq_some_iff.mp hl
  have hcomp : (components (s ++ [c])).getLast? = some (l ++ [c]) := by
    rw [components, hps, List.filter_append, List.filter_singleton]
    simp [hne ['.'] rfl]
  refine ⟨l, ?_⟩
  rw [displayName, fileName?, String.toList_ofList, hcomp]
  simp only [if_neg (hne ['.', '.'] rfl), Option.getD_some, String.toList_ofList]

/-! ### Joined paths -/

theorem components_append_cons (a b : List Char) :
    components (a ++ '/' :: b) = components a ++ components b := by
  rw [components, Text.segments_append_cons, List.filter_append]
  rfl

/-- A path without parts is made of slashes and dots. -/
theorem eq_of_mem_of_components_eq_nil {s : List Char} (h : components s = []) {c : Char}
    (hc : c ∈ s) : c = '/' ∨ c = '.' := by
  refine (Text.mem_segments_of_mem hc).imp_right fun ⟨p, hp, hcp⟩ => ?_
  rw [components, List.filter_eq_nil_iff] at h
  have hp : p = [] ∨ p = ['.'] := by
    have := h p hp
    simpa [or_iff_not_imp_left] using this
  rcases hp with rfl | rfl
  · exact absurd hcp List.not_mem_nil
  · exact List.mem_singleton.mp hcp

theorem fileName?_congr {s t : String}
    (h : (components s.toList).getLast? = (components t.toList).getLast?) :
    fileName? s = fileName? t := by
  rw [fileName?, h, fileName?]

section Join

variable {base s : String}

/-- A path in a directory is the path itself, or its text behind a slash. -/
theorem join_eq_or (base s : String) :
    join base s = s ∨ ∃ a, (join base s).toList = a ++ '/' :: s.toList := by
  by_cases hstays : isAbsolute s = true ∨ base = ""
  · exact .inl (if_pos hstays)
  · refine .inr ?_
    rw [join, if_neg hstays]
    by_cases hlast : base.toList.getLast? = some '/'
    · obtain ⟨a, ha⟩ := List.getLast?_eq_some_iff.mp hlast
      refine ⟨a, ?_⟩
      rw [if_pos hlast, String.toList_append, ha, List.append_assoc]
      rfl
    · refine ⟨base.toList, ?_⟩
      rw [if_neg hlast, String.toList_append, String.toList_append, List.append_assoc]
      rfl

/-- A file has its name in any directory. -/
theorem fileName?_join {n : String} (h : fileName? s = some n) (base : String) :
    fileName? (join base s) = some n := by
  rcases join_eq_or base s with hjoin | ⟨a, hjoin⟩
  · rw [hjoin, h]
  · rw [← h]
    refine fileName?_congr ?_
    have hne : components s.toList ≠ [] := by
      intro hnil
      rw [fileName?, hnil] at h
      exact Option.some_ne_none n h.symm
    rw [hjoin, components_append_cons, List.getLast?_append_of_ne_nil _ hne]

/-- A path in a directory is the directory's, a slash, and the path's own text. -/
theorem exists_join (hbase : isAbsolute base = true) :
    ∃ a, (base.toList = a ∨ base.toList = a ++ ['/']) ∧
      ∀ s, isAbsolute s = false → (join base s).toList = a ++ '/' :: s.toList := by
  have hne : base ≠ "" := by
    rintro rfl
    exact absurd hbase (by decide)
  have hjoin : ∀ s, isAbsolute s = false → join base s =
      if base.toList.getLast? = some '/' then base ++ s else base ++ "/" ++ s := by
    intro s hs
    rw [join, if_neg (by simp [hs, hne])]
  by_cases hlast : base.toList.getLast? = some '/'
  · obtain ⟨a, ha⟩ := List.getLast?_eq_some_iff.mp hlast
    refine ⟨a, .inr ha, fun s hs => ?_⟩
    rw [hjoin s hs, if_pos hlast, String.toList_append, ha, List.append_assoc]
    rfl
  · refine ⟨base.toList, .inl rfl, fun s hs => ?_⟩
    rw [hjoin s hs, if_neg hlast, String.toList_append, String.toList_append, List.append_assoc]
    rfl

theorem join_of_isAbsolute (hs : isAbsolute s = true) : join base s = s := by
  rw [join, if_pos (.inl hs)]

theorem isAbsolute_join (hbase : isAbsolute base = true) : isAbsolute (join base s) = true := by
  by_cases hs : isAbsolute s = true
  · rw [join_of_isAbsolute hs]
    exact hs
  · obtain ⟨a, ha, hjoin⟩ := exists_join hbase
    rw [isAbsolute, hjoin s (by simpa using hs), decide_eq_true_eq]
    rw [isAbsolute, decide_eq_true_eq] at hbase
    rcases ha with ha | ha
    · rw [ha] at hbase
      rw [List.head?_append, hbase]
      rfl
    · rw [ha] at hbase
      cases a with
      | nil => rfl
      | cons c a => exact hbase

/-- To be seen from a directory changes nothing the second time. -/
theorem join_join (hbase : isAbsolute base = true) (s : String) :
    join base (join base s) = join base s :=
  join_of_isAbsolute (isAbsolute_join hbase)

/-- A path in a directory ends with its own text. -/
theorem suffix_join (base s : String) : s.toList <:+ (join base s).toList := by
  rw [join]
  split
  · exact List.suffix_rfl
  · split <;> rw [String.toList_append] <;> exact List.suffix_append _ _

theorem components_join (hbase : isAbsolute base = true) (hs : isAbsolute s = false) :
    components (join base s).toList = components base.toList ++ components s.toList := by
  obtain ⟨a, ha, hjoin⟩ := exists_join hbase
  rw [hjoin s hs, components_append_cons]
  rcases ha with ha | ha
  · rw [ha]
  · have hnil : components [] = [] := rfl
    rw [ha, components_append_cons, hnil, List.append_nil]

/-- A word without a slash stands in the joined path only where it stands in either. -/
theorem infix_join_iff (hbase : isAbsolute base = true) (hs : isAbsolute s = false)
    {w : List Char} (hw : '/' ∉ w) :
    w <:+: (join base s).toList ↔ w <:+: base.toList ∨ w <:+: s.toList := by
  obtain ⟨a, ha, hjoin⟩ := exists_join hbase
  have hdir : w <:+: base.toList ↔ w <:+: a := by
    rcases ha with ha | ha
    · rw [ha]
    · rw [ha, Text.infix_append_cons_iff hw]
      refine or_iff_left_of_imp fun h => ?_
      rw [List.infix_nil.mp h]
      exact List.nil_infix
  rw [hjoin s hs, Text.infix_append_cons_iff hw, hdir]

/-- A word between two slashes stands in the directory, or in the path with a slash before it. -/
theorem enclosed_infix_join_iff (hbase : isAbsolute base = true) (hs : isAbsolute s = false)
    {w : List Char} (hw : '/' ∉ w) :
    '/' :: (w ++ ['/']) <:+: (join base s).toList ↔
      '/' :: (w ++ ['/']) <:+: (join base "").toList ∨
        '/' :: (w ++ ['/']) <:+: '/' :: s.toList := by
  obtain ⟨a, ha, hjoin⟩ := exists_join hbase
  rw [hjoin s hs, hjoin "" rfl, Text.enclosed_infix_iff hw]
  rfl

end Join

end Path

end QualityGate
