import ScriptEngine.Machine.Loading
import ScriptEngine.Proofs.Allocation
import ScriptEngine.Proofs.Reference

/-!
# Loaded modules

Loading a prototype makes a function object whose constants are the values of the prototype's
constants, and leaves every object and every key as it is.
-/

namespace ScriptEngine

open Bytecode

/-- The value of a constant. -/
def Heap.Holds (heap : Heap) : Constant → Value → Prop
  | .number n, v => v = .number n
  | .string t, v => ∃ k, heap.lookupKey t = some k ∧ v = .object k.handle
  | .bool b, v => v = .bool b
  | .null, v | .native _, v => v = .null
  | .function p, v => ∃ h f, v = .object h ∧ heap.get? h = some (.function f) ∧ f.proto = p

/-- The values of some constants. -/
def Heap.HoldsAll (heap : Heap) (constants : List Constant) (values : List Value) : Prop :=
  List.Forall₂ heap.Holds constants values

namespace Heap

variable {heap heap' heap'' : Heap} {except : Handle → Prop}

/-- A value held for a constant is held by every heap that grows out of the first, as no function
changes. -/
theorem Grows.holds (h : Grows except heap heap')
    (hx : ∀ x f, heap.get? x = some (.function f) → ¬ except x) {c : Constant} {v : Value}
    (hc : heap.Holds c v) : heap'.Holds c v := by
  cases c with
  | number n => exact hc
  | bool b => exact hc
  | null => exact hc
  | native d => exact hc
  | string t =>
    obtain ⟨k, hk, rfl⟩ := hc
    exact ⟨k, h.keys t k hk, rfl⟩
  | function p =>
    obtain ⟨x, f, rfl, hget, hp⟩ := hc
    exact ⟨x, f, rfl, h.objects x _ hget (hx x f hget), hp⟩

/-- Values held for a list of constants are held by every heap that grows out of the first. -/
theorem Grows.holdsAll (h : Grows except heap heap')
    (hx : ∀ x f, heap.get? x = some (.function f) → ¬ except x) {constants : List Constant}
    {values : List Value} (hc : heap.HoldsAll constants values) :
    heap'.HoldsAll constants values :=
  hc.imp fun _ _ => h.holds hx

/-- A heap to which something has been added while collection is forbidden. -/
structure Added (heap heap' : Heap) : Prop extends Grows (fun _ => False) heap heap' where
  quiet : heap'.Quiet

theorem Added.trans (h : Added heap heap') (h' : Added heap' heap'') : Added heap heap'' :=
  ⟨h.toGrows.trans h'.toGrows, h'.quiet⟩

/-- Inserting an object adds it and changes nothing that is there. -/
theorem added_insert (hi : Interned heap) (hq : heap.Quiet) (o : Object) :
    Added heap (heap.insert o).1 :=
  ⟨grows_insert hi o, hq.insert o⟩

end Heap

namespace Act

/-- An action that only adds to the heap, as long as collection is forbidden, and has a result of
some kind. -/
def Adds {α : Type} (x : Act α) (post : α → Heap → Prop) : Prop :=
  ∀ s : State, Heap.Interned s.heap → s.heap.Quiet →
    ∃ a heap', x s = .done a { s with heap := heap' } ∧ Heap.Added s.heap heap' ∧ post a heap'

section Adds

variable {α β : Type} {x : Act α} {post : α → Heap → Prop} {post' : β → Heap → Prop}

theorem adds_pure {a : α} (h : ∀ heap, post a heap) : Adds (pure a) post :=
  fun s hi hq => ⟨a, s.heap, rfl, ⟨.refl hi, hq⟩, h s.heap⟩

/-- One action after another, where what the first one has made is kept by the second one. -/
theorem Adds.bind {f : α → Act β} (hx : Adds x post)
    (hf : ∀ a heap, post a heap →
      Adds (f a) fun b heap' => Heap.Grows (fun _ => False) heap heap' → post' b heap') :
    Adds (x >>= f) post' := by
  intro s hi hq
  obtain ⟨a, heap₁, hx, hadd₁, ha⟩ := hx s hi hq
  obtain ⟨b, heap₂, hf, hadd₂, hb⟩ := hf a heap₁ ha { s with heap := heap₁ } hadd₁.interned hadd₁.quiet
  refine ⟨b, heap₂, ?_, hadd₁.trans hadd₂, hb hadd₂.toGrows⟩
  rw [bind_run, hx]
  exact hf

/-- What a loader leaves is carried along a function of its result. -/
theorem Adds.map (hx : Adds x post) (f : α → β)
    (hf : ∀ a heap, post a heap → post' (f a) heap) : Adds (do return f (← x)) post' := by
  intro s hi hq
  obtain ⟨a, heap', hx, hadd, ha⟩ := hx s hi hq
  refine ⟨f a, heap', ?_, hadd, hf a heap' ha⟩
  rw [bind_run, hx]
  rfl

/-- Allocation adds the object and returns its handle. -/
theorem adds_alloc (o : Object) : Adds (alloc o) fun h heap => heap.get? h = some o := by
  intro s hi hq
  refine ⟨_, _, alloc_quiet hq o, Heap.added_insert hi hq o, ?_⟩
  exact (Heap.get?_insert hi.toTidy o _).trans (if_pos rfl)

/-- Interning adds a key for the text, unless there is one, and returns its handle. -/
theorem adds_intern (t : String) : Adds (intern (Text.octets t)) fun h heap =>
    ∃ k, heap.lookupKey t = some k ∧ k.handle = h := by
  intro s hi hq
  obtain ⟨hgrow, hkey⟩ := Heap.grows_internKey hi t
  exact ⟨_, _, intern_quiet hq _, ⟨hgrow, hq.intern _⟩, _, hkey, rfl⟩

end Adds

mutual

/-- Loading a constant makes a value the heap holds for it. -/
theorem adds_constantValue (module : Handle) :
    (c : Constant) → Adds (constantValue module c) fun v heap => heap.Holds c v
  | .number n => adds_pure fun _ => rfl
  | .bool b => adds_pure fun _ => rfl
  | .null => adds_pure fun _ => rfl
  | .native d => adds_pure fun _ => rfl
  | .string t => by
    rw [constantValue]
    refine (adds_intern t).map _ ?_
    rintro h heap ⟨k, hk, rfl⟩
    exact ⟨k, hk, rfl⟩
  | .function p => by
    rw [constantValue]
    refine (adds_materialize module p).map _ ?_
    rintro h heap ⟨f, hf, hp, -⟩
    exact ⟨h, f, rfl, hf, hp⟩

/-- Loading a prototype makes a function of that prototype and module, with values for its constants
and defaults. -/
theorem adds_materialize (module : Handle) :
    (p : Proto) → Adds (materialize module p) fun h heap => ∃ f, heap.get? h = some (.function f) ∧
      f.proto = p ∧ f.module = module ∧
      heap.HoldsAll p.chunk.constants.toList f.constants.toList ∧
      heap.HoldsAll p.defaults.toList f.defaults.toList
  | ⟨name, arity, defaults, vararg, upvalueCount, ⟨code, constants, lines⟩⟩ => by
    rw [materialize]
    refine (adds_constantValues module constants).bind fun pool heap₁ hpool => ?_
    refine (adds_constantValues module defaults).bind fun values heap₂ hvalues => ?_
    intro s hi hq
    obtain ⟨h, heap₃, hrun, hadd, hget⟩ := adds_alloc _ s hi hq
    refine ⟨h, heap₃, hrun, hadd, fun hgrow₂ hgrow₁ => ⟨_, hget, rfl, rfl, ?_, ?_⟩⟩
    · exact hgrow₁.holdsAll (fun _ _ _ => id) hpool
    · exact hgrow₂.holdsAll (fun _ _ _ => id) hvalues

/-- Loading an array of constants makes values the heap holds for them. -/
theorem adds_constantValues (module : Handle) :
    (constants : Array Constant) → Adds (constantValues module constants) fun values heap =>
      heap.HoldsAll constants.toList values.toList
  | ⟨constants⟩ => by
    rw [constantValues]
    intro s hi hq
    obtain ⟨values, heap', hrun, hadd, new, rfl, hnew⟩ := adds_constantList module #[] constants s hi hq
    refine ⟨_, heap', hrun, hadd, ?_⟩
    simpa using hnew

/-- Loading a list of constants appends a value for each to those made before. -/
theorem adds_constantList (module : Handle) (before : Array Value) :
    (constants : List Constant) → Adds (constantList module before constants) fun values heap =>
      ∃ new : List Value, values = before ++ new ∧ heap.HoldsAll constants new
  | [] => adds_pure fun _ => ⟨[], by simp, .nil⟩
  | c :: rest => by
    rw [constantList]
    refine (adds_constantValue module c).bind fun v heap hv => ?_
    intro s hi hq
    obtain ⟨values, heap', hrun, hadd, new, rfl, hnew⟩ :=
      adds_constantList module (before.push v) rest s hi hq
    refine ⟨_, heap', hrun, hadd, fun hgrow => ⟨v :: new, by simp, .cons (hgrow.holds (fun _ _ _ => id) hv) hnew⟩⟩

end

end Act

/-! ## The main module -/

/-- Where a loaded module is found. -/
structure Image where
  /-- The module object. -/
  module : Handle
  /-- The function of its top-level code. -/
  function : Handle
  /-- The closure of its top-level code. -/
  closure : Handle

namespace State

/-- A machine that has a prototype loaded as the main module, whose own globals have the given
values. -/
structure Hosts (s : State) (p : Proto) (i : Image) (globals : String → Option Value) : Prop
    extends Equipped s where
  /-- There is no ceiling. -/
  ceiling : s.heap.maxBytes = none
  /-- The function has the constants of the prototype, and is a function of the module. -/
  function : ∃ f, s.heap.get? i.function = some (.function f) ∧ f.proto = p ∧
    f.module = i.module ∧ s.heap.HoldsAll p.chunk.constants.toList f.constants.toList
  /-- The module is registered. -/
  registered : ∃ g, Heap.Binds s.heap s.modules g ∧ g Act.mainModule = some (.object i.module)
  /-- Its globals. -/
  own : ∃ name t g, s.heap.get? i.module = some (.module name t) ∧ Heap.Binds s.heap t g ∧
    ∀ x, Reference.isOwnName x = true → g x = globals x

section Equipment

variable {s s' : State} {except : Handle → Prop}

/-- The equipment stays where at most modules change. -/
theorem Equipped.grows (he : s.Equipped) (hg : Heap.Grows except s.heap s'.heap)
    (hcore : s'.core = s.core)
    (hx : ∀ x o, s.heap.get? x = some o → except x → ∃ name t, o = .module name t) :
    s'.Equipped where
  interned := hg.interned
  specials e he' := by
    rw [State.special, hcore]
    exact ⟨hg.keys _ _ (he.specials e he').1, (he.specials e he').2⟩
  classes c e hc := by
    rw [State.coreClass, hcore]
    obtain ⟨hclass, hmem⟩ := he.classes c e hc
    have hclass₀ := hclass
    obtain ⟨o, g, hget, -⟩ := hclass₀
    refine ⟨hg.isClass he.interned hclass (fun hex => ?_) fun y str hy hex => ?_, hmem⟩
    · obtain ⟨name, t, ht⟩ := hx _ _ hget hex
      cases ht
    · obtain ⟨name, t, ht⟩ := hx _ _ hy hex
      cases ht

end Equipment

end State

namespace Heap

variable {heap : Heap}

/-- Forbidding and allowing collection changes nothing else. -/
theorem grows_disabled (hi : Interned heap) (n : Nat) :
    Grows (fun _ => False) heap { heap with disabled := n } := by
  have ht : Tidy { heap with disabled := n } := 
    hi.toTidy.of_occupied rfl rfl fun _ => ⟨id, by simp⟩
  obtain ⟨hi', hkeys⟩ := hi.same_keys ht rfl fun _ _ => rfl
  exact ⟨hi', fun name k hk => (hkeys name).trans hk, fun _ _ h _ => h, rfl⟩

end Heap

namespace State

variable {s : State}

/-- A fresh machine stays fresh while its heap grows. -/
theorem Fresh.grows (hf : s.Fresh) {heap : Heap} (hg : Heap.Grows (fun _ => False) s.heap heap) :
    { s with heap := heap : State }.Fresh := by
  refine ⟨hf.toEquipped.grows hg rfl fun _ _ _ => False.elim, ?_, hg.binds hf.interned hf.modules,
    hf.stack, hf.frames, hf.openUpvalues, hf.interrupt, hf.reentrant⟩
  obtain ⟨name, t, g, hcore, hb, hnames⟩ := hf.core
  exact ⟨name, t, g, hg.objects _ _ hcore not_false, hg.binds hf.interned hb, hnames⟩

/-- No name of a variable of the core is bound in the core module. -/
theorem Fresh.unbound {g : String → Option Value}
    (hg : ∀ n, (g n).isSome → n ∈ CoreClassDecl.schedule.map (·.name) ++ coreFunctions.map (·.name))
    {x : String} (hx : Reference.isOwnName x = true) : g x = none := by
  by_contra hne
  have hmem : x ∈ Reference.coreGlobals := hg x (Option.isSome_iff_ne_none.2 hne)
  simp only [Reference.isOwnName, Bool.and_eq_true, Bool.not_eq_true'] at hx
  rw [List.contains_iff_mem.2 hmem] at hx
  cases hx.2

/-- In a fresh machine, asking for the main module makes it and registers it by its name. -/
theorem fresh_moduleNamed (hf : s.Fresh) (hq : s.heap.Quiet) {key : Key}
    (hkey : s.heap.lookupKey Act.mainModule = some key) :
    ∃ module heap t g, Act.moduleNamed key s =
        .done module { s with heap := heap, modules := s.modules.insert key (.object module) } ∧
      Heap.Added s.heap heap ∧ heap.get? module = some (.module key.handle t) ∧
      Heap.Binds s.heap t g ∧ ∀ x, Reference.isOwnName x = true → g x = none := by
  have hnew : s.loadedModule? key = none := by
    unfold loadedModule?
    rw [hf.modules.get? hf.interned hkey, if_neg (by decide)]
    rfl
  obtain ⟨name, t, g, hcore, hb, hg⟩ := hf.core
  have hglobals : s.module? s.core.module = some (name, t) := by
    unfold module?
    rw [hcore]
  have hget := Heap.get?_insert hf.interned.toTidy (.module key.handle t)
    (s.heap.insert (.module key.handle t)).2
  rw [if_pos rfl] at hget
  refine ⟨_, _, t, g, ?_, Heap.added_insert hf.interned hq (.module key.handle t), hget, hb,
    fun x hx => Fresh.unbound hg hx⟩
  unfold Act.moduleNamed
  simp only [Act.bind_run, Act.gets_run, Proc.bind_done, hnew, hglobals, Option.map_some,
    Option.getD_some, Act.alloc_quiet hq, Act.modify_run, Act.pure_run]

/-- Loading a module under the name of the main module, on a machine that has run nothing. -/
theorem hosts_load (hf : s.Fresh) (hceiling : s.heap.maxBytes = none) (m : Bytecode.Module) :
    ∃ i heap modules, (do Act.load (← Act.internKey Act.mainModule) m) s =
        .done i.closure { s with heap := heap, modules := modules } ∧
      { s with heap := heap, modules := modules : State }.Hosts m.main i (fun _ => none) ∧
      heap.get? i.closure = some (.closure i.function #[]) ∧
      ∀ f, heap.get? i.function = some (.function f) →
        heap.HoldsAll m.main.defaults.toList f.defaults.toList := by
  obtain ⟨hgrow₁, hkey⟩ := Heap.grows_internKey hf.interned Act.mainModule
  have hgrow₂ := Heap.grows_disabled hgrow₁.interned ((s.heap.internKey Act.mainModule).1.disabled + 1)
  generalize hname : s.heap.internKey Act.mainModule = r at hgrow₁ hkey hgrow₂
  obtain ⟨heap₁, key⟩ := r
  simp only at hgrow₁ hkey hgrow₂
  generalize hheap₂ : { heap₁ with disabled := heap₁.disabled + 1 } = heap₂ at hgrow₂
  have hquiet : heap₂.Quiet := by
    subst hheap₂
    exact ⟨rfl, hgrow₁.ceiling.trans hceiling⟩
  have hbase := hgrow₁.trans hgrow₂
  have hkey₂ := hgrow₂.keys _ _ hkey
  have hf₂ : { s with heap := heap₂ : State }.Fresh := hf.grows hbase
  obtain ⟨module, heap₃, t, g, hnamed, hadd₃, hmodule, hb, hg⟩ := fresh_moduleNamed hf₂ hquiet hkey₂
  simp only at hnamed hadd₃ hb
  obtain ⟨function, heap₄, hmat, hadd₄, f, hfun, hp, hm, hpool, hdefaults⟩ :=
    Act.adds_materialize module m.main
      { s with heap := heap₃, modules := s.modules.insert key (.object module) }
      hadd₃.interned hadd₃.quiet
  obtain ⟨closure, heap₅, halloc, hadd₅, hclosure⟩ := Act.adds_alloc (.closure function #[])
    { s with heap := heap₄, modules := s.modules.insert key (.object module) }
    hadd₄.interned hadd₄.quiet
  simp only at hadd₄ hadd₅
  have hgrow₆ := Heap.grows_disabled hadd₅.interned (heap₅.disabled - 1)
  have hlater := hadd₄.toGrows.trans (hadd₅.toGrows.trans hgrow₆)
  have hall := hbase.trans (hadd₃.toGrows.trans hlater)
  have hfun' := (hadd₅.toGrows.trans hgrow₆).objects _ _ hfun not_false
  refine ⟨⟨module, function, closure⟩, heap₅.enableCollection, s.modules.insert key (.object module),
    ?_, ⟨hf.toEquipped.grows hall rfl fun _ _ _ => False.elim, hall.ceiling.trans hceiling, ?_, ?_, ?_⟩,
    hgrow₆.objects _ _ hclosure not_false, ?_⟩
  · simp only [Act.bind_run, Act.internKey, Act.modifyGet, hname, Proc.bind_done, Act.load,
      Act.withoutCollection, Act.modify_run, Heap.disableCollection, hheap₂, hnamed, hmat, halloc,
      Act.pure_run]
  · exact ⟨f, hfun', hp, hm, (hadd₅.toGrows.trans hgrow₆).holdsAll (fun _ _ _ => id) hpool⟩
  · refine ⟨_, hlater.binds hadd₃.interned (((hadd₃.toGrows.binds hf₂.interned hf₂.modules)).insert
      hadd₃.interned (hadd₃.keys _ _ hkey₂) (.object module)), ?_⟩
    exact if_pos rfl
  · exact ⟨_, t, g, hlater.objects _ _ hmodule not_false,
      (hadd₃.toGrows.trans hlater).binds hf₂.interned hb, hg⟩
  · intro f' hf'
    obtain rfl : f = f' := by
      have := hfun'.symm.trans hf'
      simpa using this
    exact (hadd₅.toGrows.trans hgrow₆).holdsAll (fun _ _ _ => id) hdefaults

end State

end ScriptEngine
