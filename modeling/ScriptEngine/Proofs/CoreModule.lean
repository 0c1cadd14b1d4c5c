import ScriptEngine.Machine.State
import ScriptEngine.Proofs.Interning

/-!
# What the core module provides

A machine that has run nothing has the classes of the schedule, each with its name and with no other
methods than its own and those of its superclass, and a core module whose globals have the names of
those classes and of the core functions. The names the machine looks up by itself have keys.
-/

namespace ScriptEngine

open NameTable

/-- Changes an object if it is a class. -/
def Object.mapClass (f : ClassObject → ClassObject) : Object → Object
  | .classObject c => .classObject (f c)
  | o => o

/-- Changes the fields of an object if it is an instance. -/
def Object.mapFields (f : NameTable → NameTable) : Object → Object
  | .instanceOf owner fields => .instanceOf owner (f fields)
  | o => o

/-- Changes the globals of an object if it is a module. -/
def Object.mapGlobals (f : NameTable → NameTable) : Object → Object
  | .module name globals => .module name (f globals)
  | o => o

/-- Adds the name of a class and the names of its methods: its own and those of its superclass, which
comes before it. -/
def addEntry (layout : List (String × List String)) (d : CoreClassDecl) :
    List (String × List String) :=
  layout ++ [(d.name, d.methods.map (·.name) ++
    ((d.superclass.bind fun c => layout[c.index]?).map Prod.snd).getD [])]

/-- The name and the names of the methods of each class, in the order of installation. -/
def classLayout : List (String × List String) := CoreClassDecl.schedule.foldl addEntry []

/-- A class of a name, with methods of the given names only. -/
def Heap.IsClass (heap : Heap) (h : Handle) (name : String) (methods : List String) : Prop :=
  ∃ c g, heap.get? h = some (.classObject c) ∧
    heap.string? c.name = some (Heap.internedString (Text.octets name)) ∧
    Heap.Binds heap c.methods g ∧ ∀ n, (g n).isSome → n ∈ methods

/-- One heap has become another: objects stay, apart from an exception, and texts keep their keys. -/
structure Heap.Grows (except : Handle → Prop) (heap heap' : Heap) : Prop where
  /-- Its strings are interned. -/
  interned : Interned heap'
  /-- Texts keep their keys. -/
  keys : ∀ name k, heap.lookupKey name = some k → heap'.lookupKey name = some k
  /-- Objects stay. -/
  objects : ∀ x o, heap.get? x = some o → ¬ except x → heap'.get? x = some o
  /-- There is no new ceiling. -/
  ceiling : heap'.maxBytes = heap.maxBytes

namespace Heap

section Grows

variable {heap heap' heap'' : Heap} {except : Handle → Prop}

/-- A heap has grown from itself. -/
theorem Grows.refl (hi : Interned heap) : Grows except heap heap :=
  ⟨hi, fun _ _ h => h, fun _ _ h _ => h, rfl⟩

/-- Heaps that grow one after the other. -/
theorem Grows.trans (h : Grows except heap heap') (h' : Grows except heap' heap'') :
    Grows except heap heap'' where
  interned := h'.interned
  keys name k hk := h'.keys name k (h.keys name k hk)
  objects x o hx hn := h'.objects x o (h.objects x o hx hn) hn
  ceiling := h'.ceiling.trans h.ceiling

/-- What is there is alive. -/
theorem isLive_of_get? {x : Handle} {o : Object} (h : heap.get? x = some o) :
    heap.isLive x = true := by
  unfold isLive
  rw [h]
  rfl

/-- A new object. -/
theorem grows_insert (hi : Interned heap) (o : Object) : Grows (fun _ => False) heap (heap.insert o).1 where
  interned := (hi.insert o).1
  keys name k hk := ((hi.insert o).2 name).trans hk
  objects x o' hx _ := (get?_insert_of_live hi.toTidy o (isLive_of_get? hx)).trans hx
  ceiling := by
    obtain ⟨cells, free, strings, bytes, next, first, rate, limit, disabled, stats, clear⟩ := heap
    cases free <;> rfl

/-- A text does not change the limit of the heap. -/
theorem ceiling_intern (heap : Heap) (data : ByteArray) :
    (heap.intern data).1.maxBytes = heap.maxBytes := by
  unfold Heap.intern
  simp only
  split
  · rfl
  · obtain ⟨cells, free, strings, bytes, next, first, rate, limit, disabled, stats, clear⟩ := heap
    cases free <;> rfl

/-- A text that is interned has a key. -/
theorem grows_internKey (hi : Interned heap) (name : String) :
    Grows (fun _ => False) heap (heap.internKey name).1 ∧
      (heap.internKey name).1.lookupKey name = some (heap.internKey name).2 := by
  obtain ⟨hi', hold, hkeys⟩ := hi.internKey name
  have hname : (heap.internKey name).1.lookupKey name = some (heap.internKey name).2 := by
    rw [hkeys, if_pos rfl]
  refine ⟨⟨hi', fun other k hk => ?_, fun x o hx _ => ?_, ceiling_intern heap _⟩, hname⟩
  · by_cases heq : other = name
    · subst heq
      rwa [internKey_of_lookupKey hk]
    · rw [hkeys, if_neg heq, hk]
  · rw [hold x (isLive_of_get? hx), hx]

/-- More objects may be excepted. -/
theorem Grows.widen {except' : Handle → Prop} (h : Grows except heap heap')
    (he : ∀ x, except x → except' x) : Grows except' heap heap' :=
  { h with objects := fun x o hx hn => h.objects x o hx fun hx' => hn (he x hx') }

/-- Any objects may be excepted. -/
theorem Grows.weaken (h : Grows (fun _ => False) heap heap') : Grows except heap heap' :=
  h.widen fun _ hx => hx.elim

/-- A text. -/
theorem grows_intern (hi : Interned heap) (text : String) :
    Grows (fun _ => False) heap (heap.intern (Text.octets text)).1 := (grows_internKey hi text).1

/-- A change in place of an object that is no string. -/
theorem grows_update (hi : Interned heap) {h : Handle} {f : Object → Object}
    (hf : ∀ s, heap.get? h ≠ some (.string s)) :
    Grows (· = h) heap ((heap.update h f).resize h) ∧
      ((heap.update h f).resize h).get? h = (heap.get? h).map f := by
  obtain ⟨hi₁, hk₁⟩ := hi.update (f := f) hf
  obtain ⟨hi₂, hk₂⟩ := hi₁.resize h
  refine ⟨⟨hi₂, fun name k hk => ?_, fun x o hx hn => ?_, ?_⟩, ?_⟩
  · rw [hk₂, hk₁, hk]
  · rw [get?_resize, get?_update, if_neg hn, hx]
  · obtain ⟨cells, free, strings, bytes, next, first, rate, limit, disabled, stats, clear⟩ := heap
    unfold Heap.resize Heap.update
    simp only
    split <;> rfl
  · rw [get?_resize, get?_update, if_pos rfl]

/-- A table of names binds what it bound. -/
theorem Grows.binds (h : Grows except heap heap') (hi : Interned heap) {t : NameTable}
    {g : String → Option Value} (hb : Binds heap t g) : Binds heap' t g :=
  hb.mono hi h.interned fun name k hk _ => h.keys name k hk

/-- A string that is not excepted stays. -/
theorem Grows.string? (h : Grows except heap heap') {x : Handle} {s : StringObject}
    (hx : heap.string? x = some s) (hn : ¬ except x) : heap'.string? x = some s := by
  have := h.objects x _ (get?_of_string? hx) hn
  unfold Heap.string?
  rw [this]

/-- A class that is not changed stays one. -/
theorem Grows.isClass (h : Grows except heap heap') (hi : Interned heap) {x : Handle} {name : String}
    {methods : List String} (hc : heap.IsClass x name methods) (hx : ¬ except x)
    (hs : ∀ y s, heap.get? y = some (.string s) → ¬ except y) :
    heap'.IsClass x name methods := by
  obtain ⟨c, g, hget, hname, hb, hg⟩ := hc
  exact ⟨c, g, h.objects x _ hget hx, h.string? hname (hs _ _ (get?_of_string? hname)),
    h.binds hi hb, hg⟩

end Grows

end Heap

namespace Core

/-! ## Installation -/

/-- What holds while the core module is being installed: the classes so far are those of a layout,
and the globals so far have the given names. -/
structure Installation.Laid (base : Heap) (layout : List (String × List String))
    (names : List String) (i : Installation) : Prop where
  /-- The heap has grown from another one, but for the changes of classes. -/
  grows : Heap.Grows (fun h => base.isLive h = false) base i.heap
  /-- The globals. -/
  globals : ∃ g, Heap.Binds i.heap i.globals g ∧ ∀ n, (g n).isSome → n ∈ names
  /-- There is a class for each entry of the layout. -/
  size : i.classes.size = layout.length
  classes : ∀ (j : Nat) (e : String × List String), layout[j]? = some e →
    ∃ h, i.classes[j]? = some h ∧ base.isLive h = false ∧ i.heap.IsClass h e.1 e.2

namespace Installation

variable {base : Heap} {layout : List (String × List String)} {names : List String}
variable {i : Installation}

/-- Making the object of a core function interns its name. -/
theorem grows_addNative (hi : Heap.Interned i.heap) (s : CoreSignature) :
    Heap.Grows (fun _ => False) i.heap (i.addNative s).1.heap ∧
      (i.addNative s).1.heap.lookupKey s.name = some (i.addNative s).2.1 ∧
      (i.addNative s).1 = { i with heap := (i.addNative s).1.heap } := by
  obtain ⟨hgrow, hname⟩ := Heap.grows_internKey hi s.name
  have hinsert := Heap.grows_insert hgrow.interned (.native
    { name := s.name
      arity := s.arity
      defaults := (s.defaults.map i.default).toArray
      vararg := s.vararg
      module := i.module
      function := .core s.function })
  exact ⟨hgrow.trans hinsert, hinsert.keys _ _ hname, rfl⟩

/-- Adding a method changes just its class, which gets one more name. -/
theorem grows_addMethod (hi : Heap.Interned i.heap) {h : Handle} {name : String}
    {methods : List String} (hc : i.heap.IsClass h name methods) (s : CoreSignature) :
    Heap.Grows (· = h) i.heap (addMethod h i s).heap ∧
      (addMethod h i s).heap.IsClass h name (s.name :: methods) ∧
      addMethod h i s = { i with heap := (addMethod h i s).heap } := by
  obtain ⟨hgrow, hname, hsame⟩ := grows_addNative hi s
  obtain ⟨c, g, hget, htext, hb, hg⟩ := hc
  have hget₁ := hgrow.objects h _ hget not_false
  obtain ⟨hupdate, hget₂⟩ := Heap.grows_update (f := Object.mapClass fun c => { c with
    methods := c.methods.insert (i.addNative s).2.1 (.object (i.addNative s).2.2) }) (h := h)
    hgrow.interned (by rw [hget₁]; rintro _ ⟨⟩)
  rw [hget₁] at hget₂
  have hall : Heap.Grows (· = h) i.heap (addMethod h i s).heap := hgrow.weaken.trans hupdate
  refine ⟨hall, ⟨_, _, hget₂, hall.string? htext ?_, hupdate.binds hgrow.interned
    ((hgrow.binds hi hb).insert hgrow.interned hname _), fun n hn => ?_⟩, rfl⟩
  · intro heq
    rw [heq] at htext
    rw [Heap.get?_of_string? htext] at hget
    cases hget
  · by_cases heq : n = s.name
    · exact heq ▸ List.mem_cons_self
    · simp only [if_neg heq] at hn
      exact List.mem_cons_of_mem _ (hg n hn)

/-- A class gets methods. Only the class changes. -/
theorem grows_addMethods (hi : Heap.Interned i.heap) {h : Handle} {name : String}
    {methods : List String} (hc : i.heap.IsClass h name methods) (own : List CoreSignature) :
    Heap.Grows (· = h) i.heap (own.foldl (addMethod h) i).heap ∧
      (own.foldl (addMethod h) i).heap.IsClass h name (own.map (·.name) ++ methods) ∧
      own.foldl (addMethod h) i = { i with heap := (own.foldl (addMethod h) i).heap } := by
  induction own generalizing i methods with
  | nil => exact ⟨.refl hi, hc, rfl⟩
  | cons s own ih =>
    obtain ⟨hgrow, hc', hsame⟩ := grows_addMethod hi hc s
    obtain ⟨hgrow', hc'', hsame'⟩ := ih hgrow.interned hc'
    refine ⟨hgrow.trans hgrow', ?_, ?_⟩
    · obtain ⟨c, g, hget, htext, hb, hg⟩ := hc''
      refine ⟨c, g, hget, htext, hb, fun n hn => ?_⟩
      have := hg n hn
      simp only [List.map_cons, List.cons_append, List.mem_append, List.mem_cons] at this ⊢
      tauto
    · rw [List.foldl_cons, hsame', hsame]

/-- A class without methods of its own yet. -/
theorem isClass_insert {heap : Heap} (hi : Heap.Interned heap) {name : String} {k : Key}
    (hk : heap.lookupKey name = some k) {superclass : Option Handle} {t : NameTable} {builtin : Bool}
    {methods : List String}
    (ht : ∃ g, Heap.Binds heap t g ∧ ∀ n, (g n).isSome → n ∈ methods) :
    (heap.insert (.classObject ⟨k.handle, superclass, t, builtin⟩)).1.IsClass
      (heap.insert (.classObject ⟨k.handle, superclass, t, builtin⟩)).2 name methods := by
  obtain ⟨g, hb, hg⟩ := ht
  have hgrow := Heap.grows_insert hi (.classObject ⟨k.handle, superclass, t, builtin⟩)
  refine ⟨⟨k.handle, superclass, t, builtin⟩, g, ?_,
    hgrow.string? (hi.lookupKey.1 hk).2 not_false, hgrow.binds hi hb, hg⟩
  rw [Heap.get?_insert hi.toTidy, if_pos rfl]

/-- The methods that a new class starts with are among those of its superclass. -/
theorem Laid.inherited (hl : Laid base layout names i) {heap : Heap}
    (hg : Heap.Grows (fun _ => False) i.heap heap) (superclass : Option CoreClass) :
    ∃ g, Heap.Binds heap
      (((superclass.bind fun c => i.classes[c.index]?).map (methodsOf heap)).getD .empty) g ∧
        ∀ n, (g n).isSome →
          n ∈ ((superclass.bind fun c => layout[c.index]?).map Prod.snd).getD [] := by
  cases superclass with
  | none => exact ⟨_, Heap.binds_empty heap, nofun⟩
  | some c =>
    simp only [Option.bind_some]
    cases he : layout[c.index]? with
    | none =>
      have hnone : i.classes[c.index]? = none := by
        rw [Array.getElem?_eq_none_iff, hl.size]
        exact List.getElem?_eq_none_iff.1 he
      rw [hnone]
      exact ⟨_, Heap.binds_empty heap, nofun⟩
    | some e =>
      obtain ⟨h, hh, -, hc⟩ := hl.classes c.index e he
      obtain ⟨o, g, hget, -, hb, hnames⟩ := hg.isClass hl.grows.interned hc not_false nofun
      rw [hh]
      refine ⟨g, ?_, hnames⟩
      simp only [Option.map_some, Option.getD_some, methodsOf, hget]
      exact hb

/-- Adding a class of the schedule. -/
theorem Laid.addClass (hl : Laid base layout names i) (d : CoreClassDecl) :
    Laid base (addEntry layout d) (names ++ [d.name]) (i.addClass d) := by
  obtain ⟨hgrow₁, hname⟩ := Heap.grows_internKey hl.grows.interned d.name
  unfold Installation.addClass
  simp only
  generalize i.heap.internKey d.name = r at hgrow₁ hname
  obtain ⟨heap₁, key⟩ := r
  simp only at hgrow₁ hname ⊢
  have hi₁ := hgrow₁.interned
  have hinherited := hl.inherited hgrow₁ d.superclass
  generalize d.superclass.bind (fun c => i.classes[c.index]?) = superclass at hinherited
  generalize (superclass.map (methodsOf heap₁)).getD .empty = t at hinherited
  -- the class before it gets methods of its own
  have hgrow₂ := Heap.grows_insert hi₁ (.classObject ⟨key.handle, superclass, t, d.builtin⟩)
  have hnew := (hi₁.toTidy.insert_cells (.classObject ⟨key.handle, superclass, t, d.builtin⟩)).1
  have hclass : (heap₁.insert (.classObject ⟨key.handle, superclass, t, d.builtin⟩)).1.IsClass
    _ d.name _ := isClass_insert hi₁ hname hinherited
  generalize heap₁.insert (.classObject ⟨key.handle, superclass, t, d.builtin⟩) = r at hgrow₂ hnew hclass
  obtain ⟨heap₂, h⟩ := r
  simp only at hgrow₂ hnew hclass ⊢
  have hi₂ := hgrow₂.interned
  have hother : ∀ x o, heap₁.get? x = some o → x ≠ h := by
    rintro x o hx rfl
    rw [Heap.isLive_of_get? hx] at hnew
    cases hnew
  obtain ⟨hgrow₃, hclass', hsame⟩ := grows_addMethods
    (i := { i with
      heap := heap₂, globals := i.globals.insert key (.object h), classes := i.classes.push h })
    hi₂ hclass d.methods
  generalize d.methods.foldl (addMethod h) _ = i' at hgrow₃ hclass' hsame ⊢
  have hglobals : i'.globals = i.globals.insert key (.object h) := by rw [hsame]
  have hclasses : i'.classes = i.classes.push h := by rw [hsame]
  have hfresh : base.isLive h = false := by
    by_contra hlive
    obtain ⟨o, ho⟩ := Option.isSome_iff_exists.1 (Bool.eq_true_of_not_eq_false hlive)
    exact hother h o (hgrow₁.objects h o (hl.grows.objects h o ho hlive) not_false) rfl
  have hgrow : Heap.Grows (fun _ => False) i.heap heap₂ := hgrow₁.trans hgrow₂
  have hall : Heap.Grows (· = h) i.heap i'.heap := hgrow.weaken.trans hgrow₃
  have hother' : ∀ x o, i.heap.get? x = some o → x ≠ h :=
    fun x o hx => hother x o (hgrow₁.objects x o hx not_false)
  refine ⟨hl.grows.trans (hall.widen ?_), ?_, ?_, ?_⟩
  · rintro x rfl
    exact hfresh
  · obtain ⟨g, hb, hg⟩ := hl.globals
    rw [hglobals]
    refine ⟨_, hgrow₃.binds hi₂ ((hgrow.binds hl.grows.interned hb).insert hi₂
      (hgrow₂.keys _ _ hname) (.object h)), fun n hn => ?_⟩
    by_cases heq : n = d.name
    · exact List.mem_append_right _ (heq ▸ List.mem_singleton_self _)
    · simp only [if_neg heq] at hn
      exact List.mem_append_left _ (hg n hn)
  · rw [hclasses, Array.size_push, addEntry, List.length_append, hl.size]
    rfl
  · intro j e he
    rw [addEntry] at he
    rw [hclasses]
    by_cases hj : j < layout.length
    · rw [List.getElem?_append_left hj] at he
      obtain ⟨x, hx, hlive, hc⟩ := hl.classes j e he
      have hc₀ := hc
      obtain ⟨c, g, hget, -⟩ := hc
      refine ⟨x, ?_, hlive, hall.isClass hl.grows.interned hc₀ (hother' x _ hget) ?_⟩
      · rw [Array.getElem?_push_lt (hl.size ▸ hj), ← Array.getElem?_eq_getElem, hx]
      · exact fun y s hy => hother' y _ hy
    · rw [List.getElem?_append_right (Nat.not_lt.1 hj)] at he
      obtain ⟨hlt, rfl⟩ := List.getElem?_eq_some_iff.1 he
      have hj' : j = i.classes.size := by
        simp only [List.length_singleton] at hlt
        rw [hl.size]
        omega
      refine ⟨h, ?_, hfresh, ?_⟩
      · rw [hj']
        exact Array.getElem?_push_size
      · simpa using hclass'

/-- Adding a global function. -/
theorem Laid.addFunction (hl : Laid base layout names i) (s : CoreSignature) :
    Laid base layout (names ++ [s.name]) (i.addFunction s) := by
  obtain ⟨hgrow, hname, hsame⟩ := grows_addNative hl.grows.interned s
  unfold Installation.addFunction
  simp only
  generalize i.addNative s = r at hgrow hname hsame
  obtain ⟨i', key, h⟩ := r
  simp only at hgrow hname hsame ⊢
  have hglobals : i'.globals = i.globals := by rw [hsame]
  have hclasses : i'.classes = i.classes := by rw [hsame]
  refine ⟨hl.grows.trans hgrow.weaken, ?_, hclasses ▸ hl.size, fun j e he => ?_⟩
  · obtain ⟨g, hb, hg⟩ := hl.globals
    rw [hglobals]
    refine ⟨_, (hgrow.binds hl.grows.interned hb).insert hgrow.interned hname (.object h),
      fun n hn => ?_⟩
    by_cases heq : n = s.name
    · exact List.mem_append_right _ (heq ▸ List.mem_singleton_self _)
    · simp only [if_neg heq] at hn
      exact List.mem_append_left _ (hg n hn)
  · obtain ⟨x, hx, hlive, hc⟩ := hl.classes j e he
    exact ⟨x, hclasses ▸ hx, hlive, hgrow.isClass hl.grows.interned hc not_false nofun⟩

/-- Classes are added in the layout of their declarations. -/
theorem Laid.addClasses (hl : Laid base layout names i) (decls : List CoreClassDecl) :
    Laid base (decls.foldl addEntry layout) (names ++ decls.map (·.name))
      (decls.foldl Installation.addClass i) := by
  induction decls generalizing layout names i with
  | nil => simpa using hl
  | cons d decls ih => simpa using ih (hl.addClass d)

/-- Functions are added. -/
theorem Laid.addFunctions (hl : Laid base layout names i) (functions : List CoreSignature) :
    Laid base layout (names ++ functions.map (·.name))
      (functions.foldl Installation.addFunction i) := by
  induction functions generalizing names i with
  | nil => simpa using hl
  | cons s functions ih => simpa using ih (hl.addFunction s)

end Installation

/-- Interning names gives each its key, after those that are there already. -/
theorem grows_internFrom {heap : Heap} (hi : Heap.Interned heap) (names : List String)
    (keys : Array Key) :
    ∃ heap' new, names.foldl (fun (heap, keys) name =>
        let (heap, key) := heap.internKey name
        (heap, keys.push key)) (heap, keys) = (heap', keys ++ new) ∧
      Heap.Grows (fun _ => False) heap heap' ∧
      ∀ (j : Nat) (n : String), names[j]? = some n →
        ∃ k, new[j]? = some k ∧ heap'.lookupKey n = some k := by
  induction names generalizing heap keys with
  | nil => exact ⟨heap, #[], by simp, .refl hi, nofun⟩
  | cons name names ih =>
    obtain ⟨hgrow, hname⟩ := Heap.grows_internKey hi name
    obtain ⟨heap', new, heq, hgrow', hkeys⟩ := ih hgrow.interned (keys.push (heap.internKey name).2)
    refine ⟨heap', #[(heap.internKey name).2] ++ new, ?_, hgrow.trans hgrow', fun j n hj => ?_⟩
    · rw [List.foldl_cons]
      refine heq.trans ?_
      simp
    · cases j with
      | zero =>
        obtain rfl : name = n := by simpa using hj
        exact ⟨_, by simp, hgrow'.keys _ _ hname⟩
      | succ j =>
        obtain ⟨k, hk, hl⟩ := hkeys j n (by simpa using hj)
        refine ⟨k, ?_, hl⟩
        rw [Array.getElem?_append_right (by simp)]
        simpa using hk

/-- What a core module with the given names, classes and functions consists of. -/
structure Installed (names : List String) (decls : List CoreClassDecl)
    (functions : List CoreSignature) (heap : Heap) (core : Core) : Prop where
  /-- Strings are interned. -/
  interned : Heap.Interned heap
  /-- The names have keys. -/
  specials : ∀ (j : Nat) (n : String), names[j]? = some n →
    ∃ k, core.specials[j]? = some k ∧ heap.lookupKey n = some k
  /-- The classes. -/
  classes : ∀ (j : Nat) (e : String × List String), (decls.foldl addEntry [])[j]? = some e →
    ∃ h, core.classes[j]? = some h ∧ heap.IsClass h e.1 e.2
  /-- The globals. -/
  globals : ∃ name t g, heap.get? core.module = some (.module name t) ∧ Heap.Binds heap t g ∧
    ∀ n, (g n).isSome → n ∈ decls.map (·.name) ++ functions.map (·.name)

/-- Installation of any names, classes and functions. -/
def installFrom (names : List String) (decls : List CoreClassDecl) (functions : List CoreSignature)
    (heap : Heap) : Heap × Core :=
  let (heap, specials) := internKeys heap names
  let (heap, name) := heap.intern (Text.octets moduleName)
  let (heap, module) := heap.insert (.module name .empty)
  let (heap, emptyText) := heap.intern (Text.octets "")
  let (heap, assertionText) := heap.intern (Text.octets "Assertion failed")
  let start : Installation := ⟨heap, module, .empty, #[], emptyText, assertionText⟩
  let done :=
    functions.foldl Installation.addFunction (decls.foldl Installation.addClass start)
  let heap := done.heap.update module fun
    | .module name _ => .module name done.globals
    | o => o
  (heap.resize module, ⟨module, done.classes, specials⟩)

/-- The core module is the installation of its own tables. -/
theorem install_eq (heap : Heap) : install heap =
    installFrom (Special.table.map (·.2)) CoreClassDecl.schedule coreFunctions heap := rfl

/-- Any tables are installed. -/
theorem installed_installFrom {heap : Heap} (hi : Heap.Interned heap) (names : List String)
    (decls : List CoreClassDecl) (functions : List CoreSignature) :
    Installed names decls functions (installFrom names decls functions heap).1
        (installFrom names decls functions heap).2 ∧
      (installFrom names decls functions heap).1.maxBytes = heap.maxBytes := by
  unfold installFrom internKeys
  obtain ⟨heap₁, specials, heq, hgrow₁, hspecials⟩ := grows_internFrom hi names #[]
  rw [heq]
  simp only [Array.empty_append]
  have hgrow₂ := Heap.grows_intern hgrow₁.interned moduleName
  generalize heap₁.intern (Text.octets moduleName) = r at hgrow₂
  obtain ⟨heap₂, name⟩ := r
  simp only at hgrow₂ ⊢
  have hgrow₃ := Heap.grows_insert hgrow₂.interned (.module name .empty)
  have hmodule := Heap.get?_insert hgrow₂.interned.toTidy (.module name .empty)
    (heap₂.insert (.module name .empty)).2
  rw [if_pos rfl] at hmodule
  generalize heap₂.insert (.module name .empty) = r at hgrow₃ hmodule
  obtain ⟨heap₃, module⟩ := r
  simp only at hgrow₃ hmodule ⊢
  have hgrow₄ := Heap.grows_intern hgrow₃.interned ""
  generalize heap₃.intern (Text.octets "") = r at hgrow₄
  obtain ⟨heap₄, emptyText⟩ := r
  simp only at hgrow₄ ⊢
  have hgrow₅ := Heap.grows_intern hgrow₄.interned "Assertion failed"
  generalize heap₄.intern (Text.octets "Assertion failed") = r at hgrow₅
  obtain ⟨heap₅, assertionText⟩ := r
  simp only at hgrow₅ ⊢
  have hmodule₅ := hgrow₅.objects _ _ (hgrow₄.objects _ _ hmodule not_false) not_false
  have hstart : Installation.Laid heap₅ [] []
      ⟨heap₅, module, .empty, #[], emptyText, assertionText⟩ :=
    ⟨.refl hgrow₅.interned, ⟨_, Heap.binds_empty _, nofun⟩, rfl, nofun⟩
  have hdone := (hstart.addClasses decls).addFunctions functions
  rw [List.nil_append] at hdone
  generalize functions.foldl Installation.addFunction _ = done at hdone ⊢
  have hlive : ¬ heap₅.isLive module = false := by
    rw [Heap.isLive_of_get? hmodule₅]
    nofun
  have hmodule' := hdone.grows.objects _ _ hmodule₅ hlive
  obtain ⟨hgrow₆, hglobals⟩ := Heap.grows_update
    (f := Object.mapGlobals fun _ => done.globals) (h := module) hdone.grows.interned
    (by rw [hmodule']; rintro _ ⟨⟩)
  rw [hmodule'] at hglobals
  have hbase : Heap.Grows (fun _ => False) heap heap₅ :=
    hgrow₁.trans (hgrow₂.trans (hgrow₃.trans (hgrow₄.trans hgrow₅)))
  refine ⟨⟨hgrow₆.interned, fun j n hj => ?_, fun j e he => ?_, ?_⟩, ?_⟩
  · obtain ⟨k, hk, hl⟩ := hspecials j n hj
    refine ⟨k, hk, hgrow₆.keys _ _ (hdone.grows.keys _ _ ?_)⟩
    exact hgrow₅.keys _ _ (hgrow₄.keys _ _ (hgrow₃.keys _ _ (hgrow₂.keys _ _ hl)))
  · obtain ⟨h, hh, hfresh, hc⟩ := hdone.classes j e he
    refine ⟨h, hh, hgrow₆.isClass hdone.grows.interned hc ?_ ?_⟩
    · rintro rfl
      exact hlive hfresh
    · rintro y s hy rfl
      rw [hmodule'] at hy
      cases hy
  · obtain ⟨g, hb, hg⟩ := hdone.globals
    exact ⟨_, _, g, hglobals, hgrow₆.binds hdone.grows.interned hb, hg⟩
  · exact hgrow₆.ceiling.trans (hdone.grows.ceiling.trans hbase.ceiling)

end Core

/-- Each name stands at its position in the table. -/
theorem Special.index_table : ∀ e ∈ Special.table, Special.table[e.1.index]? = some e := by decide

namespace State

/-- The classes and the names that the machine itself uses are there. -/
structure Equipped (s : State) : Prop where
  /-- Strings are interned. -/
  interned : Heap.Interned s.heap
  /-- The names the machine looks up have keys. -/
  specials : ∀ e ∈ Special.table, s.heap.lookupKey e.2 = some (s.special e.1) ∧
    s.special e.1 ∈ s.core.specials.toList
  /-- The classes. -/
  classes : ∀ (c : CoreClass) (e : String × List String), classLayout[c.index]? = some e →
    s.heap.IsClass (s.coreClass c) e.1 e.2 ∧ s.coreClass c ∈ s.core.classes.toList

/-- An empty heap has its strings interned. -/
theorem interned_create (firstThreshold : Nat) (growRate : Number) (maxBytes : Option Nat) :
    Heap.Interned (Heap.create firstThreshold growRate maxBytes) :=
  ⟨(Heap.Made.create firstThreshold growRate maxBytes).tidy, nofun, nofun⟩

/-- What the state of a machine that has run nothing consists of: its equipment, the globals of the
core module, the core module as the only module, and nothing under way. -/
structure Fresh (s : State) : Prop extends Equipped s where
  core : ∃ name t g, s.heap.get? s.core.module = some (.module name t) ∧ Heap.Binds s.heap t g ∧
    ∀ n, (g n).isSome → n ∈ CoreClassDecl.schedule.map (·.name) ++ coreFunctions.map (·.name)
  modules : Heap.Binds s.heap s.modules fun n =>
    if n = Core.moduleName then some (.object s.core.module) else none
  stack : s.stack = #[]
  frames : s.frames = #[]
  openUpvalues : s.openUpvalues = []
  interrupt : s.interrupt = false
  reentrant : s.reentrant = 0

/-- A machine that is made with a core is fresh. -/
theorem fresh_withCore {heap : Heap} {core : Core} (settings : Settings)
    (hinst : Core.Installed (Special.table.map (·.2)) CoreClassDecl.schedule coreFunctions heap
      core) :
    (withCore settings heap core).Fresh ∧
      (withCore settings heap core).heap.maxBytes = heap.maxBytes ∧
      (withCore settings heap core).settings = settings := by
  unfold withCore
  obtain ⟨hgrow, hname⟩ := Heap.grows_internKey hinst.interned Core.moduleName
  generalize heap.internKey Core.moduleName = r at hgrow hname
  obtain ⟨heap', key⟩ := r
  simp only at hgrow hname ⊢
  refine ⟨⟨⟨hgrow.interned, fun e he => ?_, fun c e he => ?_⟩, ?_, ?_, rfl, rfl, rfl, rfl, rfl⟩,
    hgrow.ceiling, trivial⟩
  · obtain ⟨k, hk, hl⟩ := hinst.specials e.1.index e.2 (by
      rw [List.getElem?_map, Special.index_table e he]
      rfl)
    have hkey : core.key e.1 = k := by
      unfold Core.key
      rw [Array.getD_eq_getD_getElem?, hk]
      rfl
    change heap'.lookupKey e.2 = some (core.key e.1) ∧ core.key e.1 ∈ core.specials.toList
    rw [hkey]
    exact ⟨hgrow.keys _ _ hl, Array.mem_toList_iff.2 (Array.mem_of_getElem? hk)⟩
  · obtain ⟨h, hh, hc⟩ := hinst.classes c.index e he
    have hhandle : core.classHandle c = h := by
      unfold Core.classHandle
      rw [Array.getD_eq_getD_getElem?, hh]
      rfl
    change heap'.IsClass (core.classHandle c) _ _ ∧ core.classHandle c ∈ core.classes.toList
    rw [hhandle]
    exact ⟨hgrow.isClass hinst.interned hc not_false nofun,
      Array.mem_toList_iff.2 (Array.mem_of_getElem? hh)⟩
  · obtain ⟨name, t, g, hget, hb, hg⟩ := hinst.globals
    exact ⟨name, t, g, hgrow.objects _ _ hget not_false, hgrow.binds hinst.interned hb, hg⟩
  · exact (Heap.binds_empty heap').insert hgrow.interned hname _

/-- A machine is created with the core module. -/
theorem create_eq (settings : Settings) : create settings =
    withCore settings
      (Core.install (Heap.create settings.firstGcThreshold settings.heapGrowRate
        settings.maxHeapBytes)).1
      (Core.install (Heap.create settings.firstGcThreshold settings.heapGrowRate
        settings.maxHeapBytes)).2 := rfl

/-- A machine that has been created is fresh. -/
theorem fresh_create (settings : Settings) :
    (create settings).Fresh ∧ (create settings).heap.maxBytes = settings.maxHeapBytes ∧
      (create settings).settings = settings := by
  have hi := interned_create settings.firstGcThreshold settings.heapGrowRate settings.maxHeapBytes
  obtain ⟨hinst, hceiling⟩ := Core.installed_installFrom hi (Special.table.map (·.2))
    CoreClassDecl.schedule coreFunctions
  rw [← Core.install_eq] at hinst hceiling
  rw [create_eq]
  generalize Core.install _ = r at hinst hceiling
  obtain ⟨hfresh, hsame, hsettings⟩ := fresh_withCore settings hinst
  exact ⟨hfresh, hsame.trans hceiling, hsettings⟩

end State

end ScriptEngine
