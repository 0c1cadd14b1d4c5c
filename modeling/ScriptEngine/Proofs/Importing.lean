import ScriptEngine.Proofs.Declaring
import ScriptEngine.Proofs.GeneratorFrames

/-!
# Modules stay registered

A module is registered under its name before its top-level code runs. Nothing takes it away or puts
another one in its place: neither an instruction, a core function, a host, a collection nor an
exception that ends the top-level code. So of all imports of a name at most one starts code, and all
of them bind the same module. Whether that code has come to its end plays no part in it.
-/

namespace ScriptEngine

open Bytecode

/-! ## Tables of modules -/

namespace Heap

/-- A table of modules stands for a map from handles of strings to objects. -/
structure Registers (heap : Heap) (t : NameTable) (m : NameTable.Map) : Prop where
  represents : NameTable.Represents heap.hashOf t m
  /-- Names are strings. -/
  strings : ∀ x, (m x).isSome → (heap.string? x).isSome
  /-- What is registered is an object. -/
  objects : ∀ x v, m x = some v → ∃ h, v = .object h

section Registers

variable {heap heap' : Heap} {t : NameTable} {m : NameTable.Map}

/-- Whatever is made, strings stay. -/
theorem string?_insert_of_some (hi : heap.Interned) (o : Object) {x : Handle} {text : StringObject}
    (ht : heap.string? x = some text) : (heap.insert o).1.string? x = some text :=
  (string?_congr (get?_insert_of_live hi.toTidy o (isLive_of_get? (get?_of_string? ht)))).trans ht

/-- Names that are still there are the same strings. -/
theorem Registers.string?_eq (h : Registers heap t m)
    (hs : ∀ x ∈ Object.tableHandles t, ∀ text, heap.string? x = some text →
      heap'.string? x = some text) {x : Handle} (hx : (m x).isSome) :
    heap'.string? x = heap.string? x := by
  obtain ⟨text, htext⟩ := Option.isSome_iff_exists.1 (h.strings x hx)
  rw [htext, hs x (mem_tableHandles h.represents hx) text htext]

/-- A table stands for the same map where its names are still there. -/
theorem Registers.mono (h : Registers heap t m)
    (hs : ∀ x ∈ Object.tableHandles t, ∀ text, heap.string? x = some text →
      heap'.string? x = some text) : Registers heap' t m := by
  refine ⟨h.represents.rehash fun x hx => ?_, fun x hx => ?_, h.objects⟩
  · unfold hashOf
    rw [h.string?_eq hs hx]
  · rw [h.string?_eq hs hx]
    exact h.strings x hx

/-- An object is registered under a name. -/
theorem Registers.insert (h : Registers heap t m) {x : Handle}
    (hx : (heap.string? x).isSome) (y : Handle) :
    Registers heap (t.insert (NameTable.keyWith heap.hashOf x) (.object y))
      (m.set x (.object y)) := by
  refine ⟨(h.represents.put x (.object y)).1, fun z hz => ?_, fun z v hz => ?_⟩
  · unfold NameTable.Map.set at hz
    split at hz
    · next heq => exact heq ▸ hx
    · exact h.strings z hz
  · unfold NameTable.Map.set at hz
    split at hz
    · exact ⟨y, (Option.some.inj hz).symm⟩
    · exact h.objects z v hz

end Registers

end Heap

namespace State

/-- What is registered under the handle of a name. -/
def registered? (s : State) (x : Handle) : Option Value :=
  s.modules.get? (NameTable.keyWith s.heap.hashOf x)

/-- A change after which everything that was registered is registered, under the same strings. -/
def KeepsModules (s t : State) : Prop :=
  s.heap.Interned → ∀ m, s.heap.Registers s.modules m →
    t.heap.Interned ∧ ∃ m', t.heap.Registers t.modules m' ∧
      ∀ x v, m x = some v → m' x = some v ∧ t.heap.string? x = s.heap.string? x

section KeepsModules

variable {s t : State} {m : NameTable.Map} {x : Handle} {v : Value} {name : Key}

/-- What is registered is what the map says. -/
theorem registered?_eq (h : s.heap.Registers s.modules m) (x : Handle) : s.registered? x = m x :=
  h.represents.get? x

/-- What is registered under a name is what is registered under its handle. -/
theorem registered?_handle (hn : Act.Names s name) :
    s.registered? name.handle = s.modules.get? name :=
  congrArg s.modules.get? hn.key_eq.symm

/-- A change that leaves the table and the names in it alone. -/
theorem keepsModules_of_strings (hi : s.heap.Interned → t.heap.Interned)
    (hm : t.modules = s.modules)
    (hs : s.heap.Interned → ∀ x ∈ Object.tableHandles s.modules, ∀ text,
      s.heap.string? x = some text → t.heap.string? x = some text) : s.KeepsModules t := by
  intro hinterned m h
  refine ⟨hi hinterned, m, ?_, fun x v hv => ⟨hv, ?_⟩⟩
  · rw [hm]
    exact h.mono (hs hinterned)
  · exact h.string?_eq (hs hinterned) (by rw [hv]; rfl)

/-- What concerns neither generators nor classes leaves the names in the table alone, since the
machine holds them. -/
theorem keepsModules_neutral (h : s.NeutralChange t) (hm : t.modules = s.modules) :
    s.KeepsModules t := by
  refine keepsModules_of_strings h.interned hm fun hi x hx text ht => ?_
  have hkept := (h.lasts hi.toTidy).kept rfl (Heap.get?_of_string? ht) (.inl (by simp [roots, hx]))
  exact (Heap.string?_congr (hkept.trans (Heap.get?_of_string? ht).symm)).trans ht

/-- Host-side code registers nothing. -/
theorem HostChange.modules (h : s.HostChange t) : t.modules = s.modules := by
  cases h <;> rfl

/-- Whatever is made, names stay. -/
theorem keepsModules_insert (s : State) (o : Object) :
    s.KeepsModules { s with heap := (s.heap.insert o).1 } :=
  keepsModules_of_strings (fun hi => (hi.insert o).1) rfl fun hi _ _ _ =>
    Heap.string?_insert_of_some hi o

/-- An object changes in place. A string does not. -/
theorem keepsModules_update (s : State) (y : Handle) {f : Object → Object}
    (hf : ∀ text, f (.string text) = .string text) : s.KeepsModules (s.update y f) := by
  refine keepsModules_of_strings (fun hi => (texts_update hi y hf).1) rfl fun _ x _ text ht => ?_
  have hget := Heap.get?_of_string? ht
  refine (Heap.string?_congr ?_).trans ht
  rw [get?_update, hget, Option.map_some, hf, ite_self]

/-- A generator is resumed. -/
theorem keepsModules_awaken {g : Handle} {o : GeneratorObject}
    (hg : s.heap.get? g = some (.generator o)) (f : Frame) : s.KeepsModules (s.awaken g o f) := by
  refine keepsModules_of_strings (fun hi => ?_) rfl fun _ x _ text ht => ?_
  · rw [heap_awaken]
    exact (hi.update (by rw [hg]; nofun)).1
  · refine (Heap.string?_congr ?_).trans ht
    rw [heap_awaken, Heap.get?_update, if_neg]
    rintro rfl
    rw [Heap.get?_of_string? ht] at hg
    cases hg

/-- A module is registered under a name that has none. -/
theorem registers_enroll (hi : s.heap.Interned) (h : s.heap.Registers s.modules m)
    (hn : Act.Names s name) (hm : s.loadedModule? name = none) (globals : NameTable) :
    m name.handle = none ∧ (s.enroll name globals).heap.Registers (s.enroll name globals).modules
      (m.set name.handle (.object (s.heap.insert (.module name.handle globals)).2)) := by
  have hget : s.modules.get? name = m name.handle :=
    (registered?_handle hn).symm.trans (registered?_eq h name.handle)
  refine ⟨?_, ?_⟩
  · cases hv : m name.handle with
    | none => rfl
    | some v =>
      obtain ⟨y, rfl⟩ := h.objects _ _ hv
      rw [loadedModule?, hget, hv] at hm
      cases hm
  · have hstring : (s.heap.string? name.handle).isSome := by
      obtain ⟨text, htext, -⟩ := hn
      rw [htext]
      rfl
    have hinsert := h.insert hstring (s.heap.insert (.module name.handle globals)).2
    rw [← hn.key_eq] at hinsert
    exact hinsert.mono fun _ _ _ => Heap.string?_insert_of_some hi _

/-- What was registered stays when a name gets a module. -/
theorem keepsModules_enroll (hn : Act.Names s name) (hm : s.loadedModule? name = none)
    (globals : NameTable) : s.KeepsModules (s.enroll name globals) := by
  intro hi m h
  obtain ⟨hnone, hregisters⟩ := registers_enroll hi h hn hm globals
  refine ⟨(hi.insert _).1, _, hregisters, fun x v hv => ⟨?_, ?_⟩⟩
  · rw [NameTable.Map.set, if_neg, hv]
    rintro rfl
    rw [hnone] at hv
    cases hv
  · exact h.string?_eq (fun _ _ _ => Heap.string?_insert_of_some hi _) (by rw [hv]; rfl)

end KeepsModules

end State

/-! ## Runs -/

instance : AdmitsRuns State.KeepsModules where
  admits h := State.keepsModules_neutral (.hostChange h) h.modules
  code _ o ho := State.keepsModules_neutral (.code o ho) rfl
  modules _ _ globals hn hm := .single (State.keepsModules_enroll hn hm globals)
  frames _ _ _ := State.keepsModules_of_strings id rfl fun _ _ _ _ => id
  reentrant _ _ := State.keepsModules_of_strings id rfl fun _ _ _ _ => id
  insert := State.keepsModules_insert
  update s y _ hf _ := State.keepsModules_update s y hf
  dropFrame _ := State.keepsModules_of_strings id rfl fun _ _ _ _ => id
  awaken _ _ _ f hg _ := State.keepsModules_awaken hg f
  register _ _ _ := State.keepsModules_of_strings id rfl fun _ _ _ _ => id
  offer _ _ := State.keepsModules_of_strings id rfl fun _ _ _ _ => id

/-- Whatever steps keep modules, they stay registered in the end. -/
theorem State.registers_of_keeps {s t : State} {m : NameTable.Map}
    (h : Relation.ReflTransGen KeepsModules s t) (hi : s.heap.Interned)
    (hm : s.heap.Registers s.modules m) :
    t.heap.Interned ∧ ∃ m', t.heap.Registers t.modules m' ∧
      ∀ x v, m x = some v → m' x = some v ∧ t.heap.string? x = s.heap.string? x := by
  induction h with
  | refl => exact ⟨hi, m, hm, fun _ _ hv => ⟨hv, rfl⟩⟩
  | tail _ hs ih =>
    obtain ⟨hi', m', hm', hkept⟩ := ih
    obtain ⟨hi'', m'', hm'', hkept'⟩ := hs hi' m' hm'
    refine ⟨hi'', m'', hm'', fun x v hv => ?_⟩
    obtain ⟨hv', hstring⟩ := hkept x v hv
    obtain ⟨hv'', hstring'⟩ := hkept' x v hv'
    exact ⟨hv'', hstring'.trans hstring⟩

/-- Whatever steps keep modules, the same is registered under a name in the end. -/
theorem State.registered_of_keeps {s t : State} {m : NameTable.Map}
    (h : Relation.ReflTransGen KeepsModules s t) (hi : s.heap.Interned)
    (hm : s.heap.Registers s.modules m) {x : Handle} {v : Value} (hx : s.registered? x = some v) :
    t.registered? x = some v ∧ t.heap.string? x = s.heap.string? x := by
  obtain ⟨-, m', hm', hkept⟩ := registers_of_keeps h hi hm
  rw [registered?_eq hm']
  exact hkept x v ((registered?_eq hm x).symm.trans hx)

/-- A machine that is made has its modules registered under strings. -/
theorem State.registers_create (settings : Settings) :
    (create settings).heap.Interned ∧
      ∃ m, (create settings).heap.Registers (create settings).modules m := by
  have hfresh := (fresh_create settings).1
  refine ⟨hfresh.interned, ?_⟩
  obtain ⟨m, hr, hdom, hm, -⟩ := hfresh.modules
  refine ⟨m, hr, fun x hx => ?_, fun x v hv => ?_⟩
  · obtain ⟨name, k, hk, rfl⟩ := hdom x hx
    rw [(hfresh.interned.lookupKey.1 hk).2]
    rfl
  · obtain ⟨name, k, hk, rfl⟩ := hdom x (by rw [hv]; rfl)
    rw [hm name k hk] at hv
    dsimp only at hv
    split at hv
    · exact ⟨_, (Option.some.inj hv).symm⟩
    · cases hv

section Runs

variable {settings : Settings} {log log' log'' : List ClassEvent} {s t u : State} {name : String}
  {module : Bytecode.Module} {m m' m'' : Machine} {x : Handle} {v : Value}

/-- Whatever a host has done, the modules are registered under strings. -/
theorem Hosted.registers (h : Hosted (.create settings) log s) :
    s.heap.Interned ∧ ∃ n, s.heap.Registers s.modules n := by
  obtain ⟨hi, n, hn⟩ := State.registers_create settings
  obtain ⟨hi', n', hn', -⟩ := State.registers_of_keeps (AdmitsRuns.hosted h hi) hi hn
  exact ⟨hi', n', hn'⟩

/-- What is registered stays registered, whatever a host does next. -/
theorem Hosted.registered_stays (h : Hosted (.create settings) log s) (hs : Hosted s log' t)
    (hx : s.registered? x = some v) :
    t.registered? x = some v ∧ t.heap.string? x = s.heap.string? x := by
  obtain ⟨hi, n, hn⟩ := h.registers
  exact State.registered_of_keeps (AdmitsRuns.hosted hs hi) hi hn hx

/-- While a module is evaluated, what runs and what waits for it keeps modules registered. -/
theorem Hosted.keepsModules_during (h : Hosted (.create settings) log s)
    (hd : (Act.evalModule name module s).During log' m) :
    Relation.ReflTransGen State.KeepsModules s m.state ∧
      Machine.Attends State.KeepsModules m.waiting := by
  obtain ⟨hi, -⟩ := h.registers
  exact AdmitsRuns.during hd (Act.neutral_evalModule hi name module)

/-- What is registered while a module is evaluated stays registered. -/
theorem Hosted.registered_stays_during (h : Hosted (.create settings) log s)
    (hd : (Act.evalModule name module s).During log' m) (hl : m.Logs log'' m')
    (hx : m.state.registered? x = some v) : m'.state.registered? x = some v ∧
      m'.state.heap.string? x = m.state.heap.string? x := by
  obtain ⟨hi, n, hn⟩ := h.registers
  obtain ⟨hkeeps, hwaiting⟩ := h.keepsModules_during hd
  obtain ⟨hi', n', hn', -⟩ := State.registers_of_keeps hkeeps hi hn
  exact State.registered_of_keeps (AdmitsRuns.logs hl hwaiting).1 hi' hn' hx

end Runs

/-! ## Imports -/

namespace Act

variable {s t : State} {n : NameTable.Map} {name : Key} {v : Value} {c : Control}

/-- A module that is registered is bound, and nothing is called. -/
theorem importModule_registered (hv : s.modules.get? name = some v) (bind : Bool) :
    importModule name bind s = .done .next ((if bind then s.push v else s).push .null) := by
  unfold importModule
  simp only [bind_run, gets_run, Proc.bind_done, hv]
  cases bind <;> rfl

/-- While nothing is collected, a name that has no module gets one. -/
theorem moduleNamed_registers (hi : s.heap.Interned) (hr : s.heap.Registers s.modules n)
    (hn : Names s name) (hm : s.loadedModule? name = none)
    (hq : s.heap.collectionEnabled = false) {y : Handle} (hrun : moduleNamed name s = .done y t) :
    t.heap.Interned ∧ t.heap.string? name.handle = s.heap.string? name.handle ∧
      ∃ n', t.heap.Registers t.modules n' ∧ t.registered? name.handle = some (.object y) := by
  unfold moduleNamed at hrun
  simp only [bind_run, gets_run, Proc.bind_done, hm, alloc] at hrun
  rcases reserve_disabled hq _ _ with hroom | hroom
  · rw [hroom] at hrun
    cases hrun
  rw [hroom] at hrun
  cases hrun
  have hregisters := fun globals => (State.registers_enroll hi hr hn hm globals).2
  obtain ⟨text, htext, -⟩ := hn
  have hstring := fun o => Heap.string?_insert_of_some hi o htext
  exact ⟨(hi.insert _).1, (hstring _).trans htext.symm, _, hregisters _,
    (State.registered?_eq (hregisters _) _).trans (if_pos rfl)⟩

/-- A module that is loaded is registered under its name. -/
theorem load_registers (hi : s.heap.Interned) (hr : s.heap.Registers s.modules n)
    (hn : Names s name) (hm : s.loadedModule? name = none) {module : Bytecode.Module}
    {closure : Handle} (hrun : load name module s = .done closure t) :
    t.heap.string? name.handle = s.heap.string? name.handle ∧
      ∃ y, t.registered? name.handle = some (.object y) := by
  have hoff : Relation.ReflTransGen State.KeepsModules s
      { s with heap := s.heap.disableCollection } := State.steps_heap (.disable _)
  obtain ⟨hi', n', hr', -⟩ := State.registers_of_keeps hoff hi hr
  have hn' : Names { s with heap := s.heap.disableCollection } name := hn
  have hrest : ∀ y, Within State.KeepsModules true (do
      let function ← materialize y module.main
      let closure ← alloc (.closure function #[])
      modify fun s => { s with heap := s.heap.enableCollection }
      return closure) := fun y =>
    (neutral_materialize y module.main).bind fun _ => (neutral_alloc rfl).bind fun closure =>
      (within_modify fun _ => State.steps_heap (.disable _)).bind fun _ => within_pure closure
  unfold load withoutCollection at hrun
  simp only [bind_assoc] at hrun
  rw [bind_run, modify_run, Proc.bind_done, bind_run] at hrun
  obtain ⟨y, u, hmodule, hthen⟩ := bind_eq_done.1 hrun
  obtain ⟨hi'', hstring, n'', hr'', hregistered⟩ :=
    moduleNamed_registers hi' hr' hn' hm rfl hmodule
  obtain ⟨hregistered', hstring'⟩ :=
    State.registered_of_keeps ((hrest y).done hthen) hi'' hr'' hregistered
  exact ⟨hstring'.trans hstring, y, hregistered'⟩

/-- An import under a name that has no module loads one and calls its code. What it binds is the
module that is now registered. -/
theorem importModule_loads (hi : s.heap.Interned) (hr : s.heap.Registers s.modules n)
    (hn : Names s name) (hv : s.modules.get? name = none) {bind : Bool}
    (hrun : importModule name bind s = .done c t) :
    c = .call 0 ∧ t.heap.string? name.handle = s.heap.string? name.handle ∧
      ∃ module closure u y, load name module s = .done closure u ∧
        u.registered? name.handle = some (.object y) ∧
        t = (if bind then u.push (.object y) else u).push (.object closure) := by
  have hm : s.loadedModule? name = none := by rw [State.loadedModule?, hv]; rfl
  unfold importModule at hrun
  simp only [bind_run, gets_run, Proc.bind_done, hv] at hrun
  cases hlookup : s.importable.lookup (s.textOf name.handle) with
  | none =>
    rw [hlookup] at hrun
    exact absurd hrun (fail_ne_done _ _ c t)
  | some module =>
    simp only [hlookup] at hrun
    cases hverify : module.main.verify with
    | error e =>
      rw [hverify] at hrun
      exact absurd hrun (fail_ne_done _ _ c t)
    | ok =>
      simp only [hverify] at hrun
      rw [bind_run] at hrun
      obtain ⟨closure, u, hload, hrest⟩ := bind_eq_done.1 hrun
      obtain ⟨hstring, y, hy⟩ := load_registers hi hr hn hm hload
      have hn' : Names u name := by
        obtain ⟨text, htext, hhash⟩ := hn
        exact ⟨text, hstring.trans htext, hhash⟩
      have hloaded : u.loadedModule? name = some y := by
        rw [State.loadedModule?, ← State.registered?_handle hn', hy]
        rfl
      cases bind with
      | true =>
        simp only [if_true] at hrest
        rw [bind_run, loadedModule, require_run _ _ hloaded, Proc.bind_done] at hrest
        cases hrest
        exact ⟨rfl, hstring, module, closure, u, y, hload, hy, rfl⟩
      | false =>
        simp only [Bool.false_eq_true, if_false] at hrest
        cases hrest
        exact ⟨rfl, hstring, module, closure, u, y, hload, hy, rfl⟩

/-- The module that an instruction imports, and whether it binds it. -/
def imported? : Op → Option (UInt16 × Bool)
  | .importModule i => some (i, true)
  | .importFrom i => some (i, false)
  | _ => none

/-- An instruction that imports a module. -/
theorem execute_imports {op : Op} {i : UInt16} {bind : Bool} (h : imported? op = some (i, bind)) :
    execute op = (do importModule (← Act.name i) bind) := by
  cases op <;> cases h <;> rfl

end Act

section Runs

open Act

variable {settings : Settings} {log log' log'' : List ClassEvent} {s t u : State} {text : String}
  {module : Bytecode.Module} {m m' m'' : Machine} {op : Op} {i : UInt16} {bind : Bool} {name : Key}
  {c : Control}

/-- In every run, an import either binds the module that is registered under its name and calls
nothing, or it calls the top-level code of a module that was not registered until then. That module
is registered under the name from then on, whatever becomes of its code, so every later import of
the name is of the first kind and binds that module. -/
theorem Hosted.imports_once (h : Hosted (.create settings) log s)
    (hd : (evalModule text module s).During log' m) (hnext : m.control = .next)
    (hop : fetch m.state = .done op u) (himport : imported? op = some (i, bind))
    (hname : Act.name i u = .done name u) (hrun : execute op u = .done c t) :
    (c = .next ∧ ∃ v, u.registered? name.handle = some v ∧
      t = (if bind then u.push v else u).push .null) ∨
    c = .call 0 ∧ u.registered? name.handle = none ∧
      ∃ y, t.registered? name.handle = some (.object y) ∧
        (bind = true → ∃ (low : Array Value) (closure : Value),
          t.stack = (low.push (.object y)).push closure) ∧
        ∀ m' log'' m'', m.step = .running m' → m'.Logs log'' m'' →
          m''.state.registered? name.handle = some (.object y) ∧
            m''.state.heap.string? name.handle = u.heap.string? name.handle := by
  obtain ⟨hi, n, hn⟩ := h.registers
  obtain ⟨hkeeps, hwaiting⟩ := h.keepsModules_during hd
  have hfetch : Within State.KeepsModules true fetch := Machine.neutral_fetch
  have hfetched : Relation.ReflTransGen State.KeepsModules s u := hkeeps.trans (hfetch.done hop)
  obtain ⟨hi', n', hn', -⟩ := State.registers_of_keeps hfetched hi hn
  obtain ⟨-, hnames⟩ := name_run hname
  have himported : importModule name bind u = .done c t := by
    rw [execute_imports himport, bind_run, hname, Proc.bind_done] at hrun
    exact hrun
  cases hv : u.modules.get? name with
  | some v =>
    rw [importModule_registered hv] at himported
    cases himported
    exact .inl ⟨rfl, v, (State.registered?_handle hnames).trans hv, rfl⟩
  | none =>
    obtain ⟨rfl, hstring, code, closure, w, y, -, hy, ht⟩ :=
      importModule_loads hi' hn' hnames hv himported
    have hregistered : t.registered? name.handle = some (.object y) := by
      rw [ht]
      cases bind <;> exact hy
    refine .inr ⟨rfl, (State.registered?_handle hnames).trans hv, y, hregistered, ?_, ?_⟩
    · rintro rfl
      exact ⟨w.stack, .object closure, by rw [ht]; rfl⟩
    · intro m' log'' m'' hm' hl
      have hstep := AdmitsRuns.stays_step hwaiting
      have hstate : m.step = .running ⟨t, .call 0, m.call, m.waiting⟩ := by
        obtain ⟨first, control, call, waiting⟩ := m
        cases hnext
        change Machine.absorb call waiting ((fetch first).bind fun op s' => execute op s') = _
        rw [hop, Proc.bind_done, hrun]
        rfl
      rw [hstate] at hm' hstep
      cases hm'
      obtain ⟨hi'', n'', hn'', -⟩ := State.registers_of_keeps (hkeeps.trans hstep.1) hi hn
      have hlater := (AdmitsRuns.logs hl hstep.2).1
      obtain ⟨hlast, hsame⟩ := State.registered_of_keeps hlater hi'' hn'' hregistered
      exact ⟨hlast, hsame.trans hstring⟩

end Runs

end ScriptEngine
