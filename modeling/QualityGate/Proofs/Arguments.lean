import Mathlib.Data.List.Nodup
import Mathlib.Data.List.Perm.Basic
import QualityGate.Arguments

/-! # Command lines that ask for a hook

There are many ways to ask for one and the same invocation: a hook has two names, the options stand
in any order behind it, a value is attached to its option or follows it, and the color flag may also
stand in front (`Arguments.AsksFor`). `Arguments.read_any_order` says that all of them are read as
that invocation.

A value is only settled when the next option begins or the arguments end. So what carries the run is
not the draft but what it settles to: one option more takes the settled draft to the settled draft
with this option added (`Draft.read_spells`). Options of different names may be added in any order. -/

namespace QualityGate

def HookName.words : HookName → List String
  | fast => ["fast", "post-edit-fast"]
  | full => ["full", "post-edit"]
  | complete => ["complete", "on-complete"]

theorem HookName.ofWord?_of_mem {hook : HookName} {word : String} (h : word ∈ hook.words) :
    ofWord? word = some hook := by
  cases hook <;> rcases List.mem_pair.mp h with rfl | rfl <;> rfl

namespace Arguments

/-! ### How options are written -/

/-- The long name of an option with a value. -/
def Key.word : Key → String
  | root => "root"
  | config => "config"

/-- What one option says. -/
inductive Setting where
  | value (k : Key) (v : String)
  | noFormat
  | color
  deriving DecidableEq, Repr

def Setting.name : Setting → String
  | value k _ => k.word
  | noFormat => "no-format"
  | color => "color"

/-- The arguments say this, in one of the ways that there are. -/
inductive Spells : Setting → List String → Prop
  | attached {k : Key} {v : String} (hv : v ≠ "") :
      Spells (.value k v) ["--" ++ k.word ++ "=" ++ v]
  | apart {k : Key} {v : String} (hv : v ≠ "") (hhyphen : v.toList.head? ≠ some '-') :
      Spells (.value k v) ["--" ++ k.word, v]
  | short {v : String} (hv : v ≠ "") (hhyphen : v.toList.head? ≠ some '-') :
      Spells (.value .config v) ["-c", v]
  | noFormat : Spells .noFormat ["--no-format"]
  | color : Spells .color ["--color"]

/-- The options of an invocation that only stand behind the name of the hook. -/
def options (i : Invocation) : List Setting :=
  i.root.toList.map (.value .root) ++ i.config.toList.map (.value .config) ++
    if i.noFormat then [.noFormat] else []

def colorFlag (i : Invocation) : List Setting := if i.color then [.color] else []

/-- The command line asks for the invocation: a name of the hook, and behind it each option once, in
any order, where the flag for color may stand in front of the name instead. -/
inductive AsksFor (i : Invocation) : List String → Prop
  | colorBehind {word : String} {settings : List Setting} {spelled : List (List String)}
      (hword : word ∈ i.hook.words) (horder : settings.Perm (options i ++ colorFlag i))
      (hspelled : List.Forall₂ Spells settings spelled) :
      AsksFor i (word :: spelled.flatten)
  | colorInFront {word : String} {settings : List Setting} {spelled : List (List String)}
      (hcolor : i.color = true) (hword : word ∈ i.hook.words)
      (horder : settings.Perm (options i)) (hspelled : List.Forall₂ Spells settings spelled) :
      AsksFor i ("--color" :: word :: spelled.flatten)

/-! ### The forms of arguments -/

theorem form_attached (k : Key) (v : String) :
    Form.of ("--" ++ k.word ++ "=" ++ v).toList = .long k.word.toList (some v.toList) := by
  rw [String.toList_append]
  cases k with
  | root => rfl
  | config => rfl

theorem form_apart (k : Key) : Form.of ("--" ++ k.word).toList = .long k.word.toList none := by
  cases k with
  | root => rfl
  | config => rfl

theorem form_word {v : String} (h : v.toList.head? ≠ some '-') : Form.of v.toList = .word := by
  cases hv : v.toList with
  | nil => rfl
  | cons c s =>
    rw [hv, List.head?_cons] at h
    have hc : c ≠ '-' := fun heq => h (congrArg some heq)
    rw [Form.of]
    · intro heq
      exact hc (List.cons.inj heq).1
    · intro t heq
      exact hc (List.cons.inj heq).1
    · intro d t heq
      exact hc (List.cons.inj heq).1

/-! ### Drafts -/

namespace Draft

/-- The draft says nothing about the option. -/
def Lacks (d : Draft) : Setting → Prop
  | .value .root _ => d.root = none
  | .value .config _ => d.config = none
  | .noFormat => d.noFormat = false
  | .color => d.color = false

def add (d : Draft) : Setting → Draft
  | .value .root v => { d with root := some v }
  | .value .config v => { d with config := some v }
  | .noFormat => { d with noFormat := true }
  | .color => { d with color := true }

@[simp]
theorem pending_add (d : Draft) (s : Setting) : (d.add s).pending = d.pending := by
  rcases s with ⟨k, v⟩ | _ | _
  · cases k <;> rfl
  · rfl
  · rfl

theorem Lacks.add {d : Draft} {s t : Setting} (h : d.Lacks t) (hne : s.name ≠ t.name) :
    (d.add s).Lacks t := by
  rcases s with ⟨_ | _, v⟩ | _ | _ <;> rcases t with ⟨_ | _, w⟩ | _ | _ <;>
    simp_all [Lacks, Draft.add, Setting.name, Key.word]

/-- Options of different names are added in any order. -/
theorem add_comm {s t : Setting} (hne : s.name ≠ t.name) (d : Draft) :
    (d.add s).add t = (d.add t).add s := by
  rcases s with ⟨_ | _, v⟩ | _ | _ <;> rcases t with ⟨_ | _, w⟩ | _ | _ <;>
    simp_all [Draft.add, Setting.name, Key.word]

theorem settle_of_pending {d : Draft} (h : d.pending = none) : d.settle = .ok d := by
  rw [settle, h]

variable {d e : Draft}

theorem assign_of_lacks {k : Key} {v : String} (hlacks : e.Lacks (.value k v)) (hv : v ≠ "") :
    e.assign k v = .ok (e.add (.value k v)) := by
  cases k with
  | root =>
    have hroot : e.root = none := hlacks
    rw [assign, hroot]
    exact if_neg hv
  | config =>
    have hconfig : e.config = none := hlacks
    rw [assign, hconfig]
    exact if_neg hv

theorem begin_attached {k : Key} {v : String} (hd : d.settle = .ok e)
    (hlacks : e.Lacks (.value k v)) (hv : v ≠ "") :
    d.begin k (some v.toList) = .ok (e.add (.value k v)) := by
  rw [begin, hd]
  show e.assign k (String.ofList v.toList) = _
  rw [String.ofList_toList, assign_of_lacks hlacks hv]

theorem begin_apart {k : Key} (hd : d.settle = .ok e) :
    d.begin k none = .ok { e with pending := some (k, none) } := by
  rw [begin, hd]
  rfl

theorem readLong_word (d : Draft) (k : Key) (value : Option (List Char)) :
    d.readLong k.word.toList value = d.begin k value := by
  cases k <;> rfl

theorem setNoFormat_of_lacks (hd : d.settle = .ok e) (hlacks : e.Lacks .noFormat) :
    d.setNoFormat = .ok (e.add .noFormat) := by
  have hflag : e.noFormat = false := hlacks
  rw [setNoFormat, hd]
  show (if e.noFormat = true then _ else _) = _
  rw [hflag]
  rfl

theorem setColor_of_lacks (hd : d.settle = .ok e) (hlacks : e.Lacks .color) :
    d.setColor = .ok (e.add .color) := by
  have hflag : e.color = false := hlacks
  rw [setColor, hd]
  show (if e.color = true then _ else _) = _
  rw [hflag]
  rfl

theorem read_long {a : String} {name : List Char} {value : Option (List Char)}
    (ha : Form.of a.toList = .long name value) (hread : d.readLong name value = .ok e)
    (rest : List String) : read d (a :: rest) = read e rest := by
  rw [read, ha]
  show (d.readLong name value >>= fun d => read d rest) = _
  rw [hread]
  rfl

/-- A value that follows its option is settled when the next option begins. -/
theorem exists_read_value {k : Key} {v : String} (hpending : e.pending = none)
    (hlacks : e.Lacks (.value k v)) (hv : v ≠ "") (hhyphen : v.toList.head? ≠ some '-')
    (rest : List String) : ∃ d', d'.settle = .ok (e.add (.value k v)) ∧
      read { e with pending := some (k, none) } (v :: rest) = read d' rest := by
  refine ⟨{ e with pending := some (k, some v) }, ?_, ?_⟩
  · show ({ e with pending := none } : Draft).assign k v = _
    rw [← hpending, assign_of_lacks hlacks hv]
  · rw [read, form_word hhyphen]
    rfl

/-- **One option more.** It is added to what the draft settles to, however it is written. -/
theorem read_spells {s : Setting} {args : List String} (h : Spells s args)
    (hd : d.settle = .ok e) (hpending : e.pending = none) (hlacks : e.Lacks s)
    (rest : List String) :
    ∃ d', d'.settle = .ok (e.add s) ∧ read d (args ++ rest) = read d' rest := by
  have hadd : (e.add s).settle = .ok (e.add s) :=
    settle_of_pending ((pending_add e s).trans hpending)
  cases h with
  | @attached k v hv =>
    have hlong : d.readLong k.word.toList (some v.toList) = .ok (e.add (.value k v)) := by
      rw [readLong_word, begin_attached hd hlacks hv]
    exact ⟨_, hadd, read_long (form_attached k v) hlong rest⟩
  | @apart k v hv hhyphen =>
    have hlong : d.readLong k.word.toList none = .ok { e with pending := some (k, none) } := by
      rw [readLong_word, begin_apart hd]
    obtain ⟨d', hd', hread⟩ := exists_read_value hpending hlacks hv hhyphen rest
    exact ⟨d', hd', (read_long (form_apart k) hlong (v :: rest)).trans hread⟩
  | @short v hv hhyphen =>
    obtain ⟨d', hd', hread⟩ := exists_read_value hpending hlacks hv hhyphen rest
    refine ⟨d', hd', ?_⟩
    rw [List.cons_append, List.singleton_append, ← hread, read]
    show (d.begin .config none >>= fun d => read d (v :: rest)) = _
    rw [begin_apart hd]
    rfl
  | noFormat =>
    have hlong : d.readLong "no-format".toList none = .ok (e.add .noFormat) :=
      setNoFormat_of_lacks hd hlacks
    exact ⟨_, hadd, read_long rfl hlong rest⟩
  | color =>
    have hlong : d.readLong "color".toList none = .ok (e.add .color) :=
      setColor_of_lacks hd hlacks
    exact ⟨_, hadd, read_long rfl hlong rest⟩

/-- Options of different names are read one after the other. -/
theorem read_spelled {settings : List Setting} {spelled : List (List String)}
    (h : List.Forall₂ Spells settings spelled) (hnames : (settings.map Setting.name).Nodup)
    (hd : d.settle = .ok e) (hpending : e.pending = none)
    (hlacks : ∀ s ∈ settings, e.Lacks s) :
    read d spelled.flatten = .ok (settings.foldl add e) := by
  induction h generalizing d e with
  | nil => exact hd
  | @cons s args settings spelled hspells hrest ih =>
    obtain ⟨hnew, hnames⟩ := List.nodup_cons.mp hnames
    obtain ⟨d', hd', hread⟩ :=
      read_spells hspells hd hpending (hlacks s List.mem_cons_self) spelled.flatten
    rw [List.flatten_cons, hread, List.foldl_cons]
    apply ih hnames hd' ((pending_add e s).trans hpending)
    intro t ht
    refine (hlacks t (List.mem_cons_of_mem s ht)).add fun heq => hnew ?_
    rw [heq]
    exact List.mem_map_of_mem ht

/-- The order of options of different names does not matter. -/
theorem foldl_add_perm {settings settings' : List Setting} (h : settings.Perm settings')
    (hnames : (settings.map Setting.name).Nodup) (d : Draft) :
    settings.foldl add d = settings'.foldl add d := by
  apply h.foldl_eq'
  intro s hs t ht d
  by_cases hname : s.name = t.name
  · rw [List.inj_on_of_nodup_map hnames hs ht hname]
  · exact add_comm hname d

theorem empty_lacks (s : Setting) : empty.Lacks s := by
  rcases s with ⟨_ | _, v⟩ | _ | _ <;> rfl

end Draft

/-! ### Invocations -/

/-- The options of an invocation have different names. -/
theorem nodup_names (i : Invocation) : ((options i ++ colorFlag i).map Setting.name).Nodup := by
  obtain ⟨hook, root, config, noFormat, color⟩ := i
  cases root <;> cases config <;> cases noFormat <;> cases color <;>
    simp [options, colorFlag, Setting.name, Key.word]

/-- The options of an invocation make up its draft. -/
theorem foldl_options (i : Invocation) :
    (options i).foldl Draft.add .empty = ⟨i.root, i.config, i.noFormat, false, none⟩ := by
  obtain ⟨hook, root, config, noFormat, color⟩ := i
  cases root <;> cases config <;> cases noFormat <;> rfl

theorem foldl_colorFlag (i : Invocation) (root config : Option String) (noFormat : Bool) :
    (colorFlag i).foldl Draft.add ⟨root, config, noFormat, false, none⟩ =
      ⟨root, config, noFormat, i.color, none⟩ := by
  obtain ⟨hook, _, _, _, color⟩ := i
  cases color <;> rfl

theorem readFrom_color (args : List String) :
    readFrom false ("--color" :: args) = readFrom true args := by
  rfl

theorem readFrom_hook {hook : HookName} {word : String} (h : HookName.ofWord? word = some hook)
    (color : Bool) (args : List String) :
    readFrom color (word :: args) = (Draft.empty.read args >>= fun d =>
      .ok ⟨hook, d.root, d.config, d.noFormat, color || d.color⟩) := by
  unfold readFrom
  rw [h]

/-- Behind the name of the hook, options in any order are read as their draft. -/
theorem readFrom_word {hook : HookName} {word : String} (hword : word ∈ hook.words)
    {settings settings' : List Setting} {spelled : List (List String)}
    (horder : settings.Perm settings') (hnames : (settings'.map Setting.name).Nodup)
    (hspelled : List.Forall₂ Spells settings spelled) (color : Bool) :
    readFrom color (word :: spelled.flatten) =
      let d := settings'.foldl Draft.add .empty
      .ok ⟨hook, d.root, d.config, d.noFormat, color || d.color⟩ := by
  have hnames' : (settings.map Setting.name).Nodup := (horder.map _).nodup_iff.mpr hnames
  have hread := Draft.read_spelled hspelled hnames' (d := .empty) rfl rfl
    fun s _ => Draft.empty_lacks s
  rw [readFrom_hook (HookName.ofWord?_of_mem hword), hread, Draft.foldl_add_perm horder hnames']
  rfl

theorem read_of_asksFor {i : Invocation} {args : List String} (h : AsksFor i args) :
    read args = .ok i := by
  cases h with
  | colorBehind hword horder hspelled =>
    rw [read, readFrom_word hword horder (nodup_names i) hspelled, List.foldl_append,
      foldl_options, foldl_colorFlag]
    rfl
  | colorInFront hcolor hword horder hspelled =>
    have hnames : ((options i).map Setting.name).Nodup := by
      have h := nodup_names i
      rw [List.map_append] at h
      exact List.Nodup.of_append_left h
    rw [read, readFrom_color, readFrom_word hword horder hnames hspelled, foldl_options]
    dsimp only
    rw [Bool.true_or, ← hcolor]

/-! ### Every invocation can be asked for -/

/-- The value, if there is one, is not empty. -/
def Setting.HasValue : Setting → Prop
  | value _ v => v ≠ ""
  | noFormat | color => True

theorem exists_spells {s : Setting} (h : s.HasValue) : ∃ args, Spells s args := by
  cases s with
  | value k v => exact ⟨_, .attached h⟩
  | noFormat => exact ⟨_, .noFormat⟩
  | color => exact ⟨_, .color⟩

theorem exists_spelled {settings : List Setting} (h : ∀ s ∈ settings, s.HasValue) :
    ∃ spelled, List.Forall₂ Spells settings spelled := by
  induction settings with
  | nil => exact ⟨[], .nil⟩
  | cons s settings ih =>
    obtain ⟨args, hargs⟩ := exists_spells (h s List.mem_cons_self)
    obtain ⟨spelled, hspelled⟩ := ih fun t ht => h t (List.mem_cons_of_mem s ht)
    exact ⟨args :: spelled, .cons hargs hspelled⟩

theorem hasValue_of_mem {i : Invocation} (hroot : i.root ≠ some "") (hconfig : i.config ≠ some "")
    {s : Setting} (hs : s ∈ options i ++ colorFlag i) : s.HasValue := by
  cases s with
  | value k v =>
    rintro rfl
    cases k <;> simp_all [options, colorFlag]
  | noFormat => trivial
  | color => trivial

theorem exists_asksFor {i : Invocation} (hroot : i.root ≠ some "") (hconfig : i.config ≠ some "") :
    ∃ args, AsksFor i args := by
  obtain ⟨spelled, hspelled⟩ := exists_spelled fun s hs => hasValue_of_mem hroot hconfig hs
  have hword : i.hook.words.headD "" ∈ i.hook.words := by
    cases i.hook <;> decide
  exact ⟨_, .colorBehind hword (.refl _) hspelled⟩

/-- **Options are read in any order.** Whatever the values are, as long as none is empty, the
invocation can be asked for, and each command line that asks for it is read as it. In particular no
command line asks for two invocations. -/
theorem read_any_order (i : Invocation) (hroot : i.root ≠ some "") (hconfig : i.config ≠ some "") :
    (∃ args, AsksFor i args) ∧ ∀ args, AsksFor i args → read args = .ok i :=
  ⟨exists_asksFor hroot hconfig, fun _ h => read_of_asksFor h⟩

/-- The values look like a hook and like an option, and the color flag stands between them. -/
theorem read_any_order_misleading :
    let i : Invocation := ⟨.complete, some "--color", some "full=x y", true, true⟩
    i.root ≠ some "" ∧ i.config ≠ some "" ∧
      AsksFor i ["on-complete", "-c", "full=x y", "--color", "--no-format", "--root=--color"] ∧
      read ["on-complete", "-c", "full=x y", "--color", "--no-format", "--root=--color"] =
        .ok i := by
  intro i
  have hroot : i.root ≠ some "" := by decide
  have hconfig : i.config ≠ some "" := by decide
  have horder : [Setting.value .config "full=x y", .color, .noFormat, .value .root "--color"].Perm
      (options i ++ colorFlag i) := by decide
  have hasks : AsksFor i
      ["on-complete", "-c", "full=x y", "--color", "--no-format", "--root=--color"] :=
    .colorBehind (by decide) horder
      (.cons (.short (by decide) (by decide)) (.cons .color (.cons .noFormat
        (.cons (.attached (by decide)) .nil))))
  exact ⟨hroot, hconfig, hasks, (read_any_order i hroot hconfig).2 _ hasks⟩

end Arguments

end QualityGate
