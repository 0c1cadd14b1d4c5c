import ScriptEngine.Machine.Run
import ScriptEngine.Proofs.Loaded
import ScriptEngine.Proofs.Stepping

/-!
# Configurations of the machine

A machine stands at a configuration of the core when it has the code loaded as the main module, one
frame at the configuration's offset without handlers, the configuration's data on the stack above
the closure, and its globals in the main module. Here is what the machine's elementary operations
do to the configuration it stands at.
-/

namespace ScriptEngine

open Bytecode Reference

/-- A value of the core as a value of the machine. -/
def Reference.Datum.value : Datum → Value
  | .number n => .number n
  | .bool b => .bool b
  | .null => .null

@[simp] theorem value_number (n : Number) : (Datum.number n).value = .number n := rfl

@[simp] theorem value_bool (b : Bool) : (Datum.bool b).value = .bool b := rfl

@[simp] theorem value_null : Datum.null.value = .null := rfl

@[simp] theorem isTruthy_value (d : Datum) : d.value.isTruthy = d.isTruthy := by
  cases d with
  | number n => rfl
  | bool b => cases b <;> rfl
  | null => rfl

@[simp] theorem same_value (a b : Datum) : a.value.same b.value = a.same b := by
  cases a <;> cases b <;> rfl

/-- The values of globals of the core. -/
def globalValues (globals : String → Option Datum) (name : String) : Option Value :=
  (globals name).map Datum.value

/-! ## The stack -/

/-- A stack with a closure in slot zero and data above it, given top first. -/
def stackOf (closure : Handle) (data : List Datum) : Array Value :=
  (.object closure :: (data.map Datum.value).reverse).toArray

section Stack

variable (closure : Handle) (d : Datum) (data : List Datum)

@[simp] theorem size_stackOf : (stackOf closure data).size = data.length + 1 := by
  simp [stackOf]

@[simp] theorem stackOf_push : (stackOf closure data).push d.value = stackOf closure (d :: data) := by
  simp [stackOf]

@[simp] theorem stackOf_pop : (stackOf closure (d :: data)).pop = stackOf closure data := by
  rw [← stackOf_push, Array.pop_push]

@[simp] theorem stackOf_back? : (stackOf closure (d :: data)).back? = some d.value := by
  rw [← stackOf_push, Array.back?_push]

/-- A slot other than slot zero. -/
theorem stackOf_slot {slot : Nat} (h : 1 ≤ slot) (h' : slot ≤ data.length) :
    (stackOf closure data)[slot]? = (data[data.length - slot]?).map Datum.value := by
  obtain ⟨j, rfl⟩ := Nat.exists_eq_add_of_le' h
  simp only [stackOf, List.getElem?_toArray, List.getElem?_cons_succ]
  rw [List.getElem?_reverse (by simpa using h'), List.getElem?_map, List.length_map]
  congr 2
  omega

/-- A value is written to a slot above the closure. -/
theorem stackOf_set {slot : Nat} (h : 1 ≤ slot) (h' : slot ≤ data.length) :
    (stackOf closure data).setIfInBounds slot d.value =
      stackOf closure (data.set (data.length - slot) d) := by
  obtain ⟨j, rfl⟩ := Nat.exists_eq_add_of_le' h
  simp only [stackOf, List.setIfInBounds_toArray, List.set_cons_succ, List.map_set]
  congr 2
  refine List.ext_getElem? fun n => ?_
  rw [List.getElem?_set]
  by_cases hn : n < data.length
  · rw [List.getElem?_reverse (by simpa using hn), List.getElem?_reverse (by simpa using hn),
      List.getElem?_set]
    simp only [List.length_reverse, List.length_map, List.length_set]
    by_cases hj : j = n
    · rw [if_pos hj, if_pos (by omega), if_pos (by omega), if_pos (by omega)]
    · rw [if_neg hj, if_neg (by omega)]
  · rw [if_neg (by omega), List.getElem?_eq_none (by simpa using hn),
      List.getElem?_eq_none (by simpa using hn)]

end Stack

/-! ## Standing at a configuration -/

/-- The frame of the top-level code at an offset. -/
def Image.frame (i : Image) (p : Proto) (ip : Nat) : Frame :=
  { closure := i.closure
    function := i.function
    proto := p
    base := 0
    ip := ip
    handlers := []
    generator := none }

namespace State

/-- A machine that stands at a configuration. -/
structure At (s : State) (p : Proto) (i : Image) (k : Config) : Prop
    extends Hosts s p i (globalValues k.globals) where
  /-- Nobody has asked for an interrupt. -/
  calm : s.interrupt = false
  /-- No variable is captured. -/
  closed : s.openUpvalues = []
  /-- There is one frame. -/
  frames : s.frames = #[i.frame p k.pc]
  /-- The data. -/
  stack : s.stack = stackOf i.closure k.stack

section Moves

variable {s s' : State} {p : Proto} {i : Image} {k : Config} {pc : Nat} {d : Datum}
variable {data : List Datum} {globals : String → Option Datum}

/-- What is hosted depends on heap, modules and core alone. -/
theorem Hosts.congr {values : String → Option Value} (h : s.Hosts p i values)
    (hheap : s'.heap = s.heap) (hmodules : s'.modules = s.modules) (hcore : s'.core = s.core) :
    s'.Hosts p i values := by
  obtain ⟨stack, frames, heap, opened, modules, core, rest⟩ := s
  obtain ⟨stack', frames', heap', opened', modules', core', rest'⟩ := s'
  simp only at hheap hmodules hcore
  subst hheap hmodules hcore
  exact ⟨⟨h.interned, h.specials, h.classes⟩, h.ceiling, h.function, h.registered, h.own⟩

/-- A value is pushed. -/
theorem At.push (h : s.At p i ⟨pc, data, globals⟩) (d : Datum) :
    (s.push d.value).At p i ⟨pc, d :: data, globals⟩ where
  toHosts := h.toHosts.congr rfl rfl rfl
  calm := h.calm
  closed := h.closed
  frames := h.frames
  stack := by
    change s.stack.push d.value = _
    rw [h.stack, stackOf_push]

/-- A value is dropped. -/
theorem At.drop (h : s.At p i ⟨pc, d :: data, globals⟩) : s.drop.At p i ⟨pc, data, globals⟩ where
  toHosts := h.toHosts.congr rfl rfl rfl
  calm := h.calm
  closed := h.closed
  frames := h.frames
  stack := by
    change s.stack.pop = _
    rw [h.stack, stackOf_pop]

/-- A variable is written. -/
theorem At.setSlot (h : s.At p i ⟨pc, data, globals⟩) {slot : Nat} (h₁ : 1 ≤ slot)
    (h₂ : slot ≤ data.length) (d : Datum) :
    (s.setSlot slot d.value).At p i ⟨pc, data.set (data.length - slot) d, globals⟩ where
  toHosts := h.toHosts.congr rfl rfl rfl
  calm := h.calm
  closed := h.closed
  frames := h.frames
  stack := by
    change s.stack.setIfInBounds slot d.value = _
    rw [h.stack, stackOf_set _ _ _ h₁ h₂]

/-- The frame at a configuration. -/
theorem At.frame? (h : s.At p i k) : s.frame? = some (i.frame p k.pc) := by
  unfold State.frame?
  rw [h.frames]
  rfl

/-- A jump of the only frame. -/
theorem At.jump (h : s.At p i ⟨pc, data, globals⟩) {f : Frame → Frame} {pc' : Nat}
    (hf : f (i.frame p pc) = i.frame p pc') : (s.modifyFrame f).At p i ⟨pc', data, globals⟩ where
  toHosts := h.toHosts.congr rfl rfl rfl
  calm := h.calm
  closed := h.closed
  frames := by
    change s.frames.modify (s.frames.size - 1) f = _
    rw [h.frames]
    simp [hf]
  stack := h.stack

/-- A jump forward. -/
theorem At.jumpBy (h : s.At p i ⟨pc, data, globals⟩) (distance : UInt16) :
    ∃ s', Act.jumpBy distance s = .done () s' ∧ s'.At p i ⟨pc + distance.toNat, data, globals⟩ :=
  ⟨_, rfl, h.jump rfl⟩

/-- A jump back. -/
theorem At.jumpBack (h : s.At p i ⟨pc, data, globals⟩) (distance : UInt16) :
    ∃ s', Act.jumpBack distance s = .done () s' ∧ s'.At p i ⟨pc - distance.toNat, data, globals⟩ :=
  ⟨_, rfl, h.jump rfl⟩

/-- There is no interrupt at a configuration. -/
theorem At.checkInterrupt (h : s.At p i k) : Act.checkInterrupt s = .done () s := by
  unfold Act.checkInterrupt
  rw [h.calm]
  rfl

/-- The value on top. -/
theorem At.top (h : s.At p i ⟨pc, d :: data, globals⟩) : s.top = d.value := by
  unfold State.top
  rw [h.stack, stackOf_back?]
  rfl

/-- A value below the top. -/
theorem At.peek? (h : s.At p i k) {n : Nat} (hd : k.stack[n]? = some d) :
    s.peek? n = some d.value := by
  obtain ⟨hlt, -⟩ := List.getElem?_eq_some_iff.1 hd
  unfold State.peek?
  rw [h.stack, size_stackOf, if_pos (by omega), stackOf_slot _ _ (by omega) (by omega)]
  have hn : k.stack.length - (k.stack.length + 1 - 1 - n) = n := by omega
  rw [hn, hd]
  rfl

/-- A value is looked at. -/
theorem At.peek (h : s.At p i k) {n : Nat} (hd : k.stack[n]? = some d) :
    Act.peek n s = .done d.value s :=
  Act.require_run s _ (h.peek? hd)

/-- A value is popped. -/
theorem At.pop (h : s.At p i ⟨pc, d :: data, globals⟩) : Act.pop s = .done d.value s.drop := by
  unfold Act.pop
  rw [h.top]

/-- The frame is looked at. -/
theorem At.frame (h : s.At p i k) : Act.frame s = .done (i.frame p k.pc) s :=
  Act.require_run s _ h.frame?

/-- The value of a slot of the frame. -/
theorem At.slotAt (h : s.At p i k) {slot : Nat}
    (hd : (k.position? slot).bind (k.stack[·]?) = some d) :
    Act.slotAt ((i.frame p k.pc).base + slot) s = .done d.value s := by
  refine Act.require_run s _ ?_
  unfold Config.position? at hd
  split at hd
  · next hs =>
    change s.stack[0 + slot]? = _
    rw [h.stack, Nat.zero_add, stackOf_slot _ _ hs.1 hs.2]
    exact congrArg _ hd
  · cases hd

/-- Overwriting a slot of the frame. -/
theorem At.setLocal (h : s.At p i k) {slot j : Nat} (hj : k.position? slot = some j) (d : Datum) :
    (i.frame p k.pc).base + slot < s.stack.size ∧
      (s.setSlot ((i.frame p k.pc).base + slot) d.value).At p i
        ⟨k.pc, k.stack.set j d, k.globals⟩ := by
  unfold Config.position? at hj
  split at hj
  · next hs =>
    obtain rfl := Option.some.inj hj
    have hbase : (i.frame p k.pc).base + slot = slot := Nat.zero_add slot
    rw [hbase]
    refine ⟨?_, h.setSlot hs.1 hs.2 d⟩
    rw [h.stack, size_stackOf]
    omega
  · cases hj

/-- The module that runs. -/
theorem At.currentModule (h : s.At p i k) : s.currentModule = i.module := by
  obtain ⟨f, hget, -, hm, -⟩ := h.function
  have hf : s.function? i.function = some f := by
    unfold State.function?
    rw [hget]
  unfold State.currentModule
  rw [h.frame?]
  change ((s.function? i.function).map (·.module)).getD _ = _
  rw [hf, Option.map_some, Option.getD_some, hm]

/-! ## Constants and globals -/

/-- A constant of the code is the value that the constant of the prototype has become. -/
theorem At.constant (h : s.At p i k) {c : Constant} {j : UInt16}
    (hc : p.chunk.constants[j.toNat]? = some c) :
    ∃ v, Act.constant j s = .done v s ∧ s.heap.Holds c v := by
  obtain ⟨f, hget, -, -, hpool⟩ := h.function
  have hf : s.function? i.function = some f := by
    unfold State.function?
    rw [hget]
  rw [← Array.getElem?_toList] at hc
  obtain ⟨v, hv, hh⟩ : ∃ v, f.constants.toList[j.toNat]? = some v ∧ s.heap.Holds c v := by
    obtain ⟨hlt, hc⟩ := List.getElem?_eq_some_iff.1 hc
    have hlt' := hpool.length_eq ▸ hlt
    exact ⟨_, List.getElem?_eq_getElem hlt', hc ▸ hpool.get hlt hlt'⟩
  refine ⟨v, ?_, hh⟩
  rw [Array.getElem?_toList] at hv
  unfold Act.constant
  rw [Act.bind_run, h.frame]
  simp only [Proc.bind_done, Act.bind_run]
  rw [show Act.functionOf (i.frame p k.pc).function s = .done f s from Act.require_run s _ hf]
  simp only [Proc.bind_done, hv, Act.pure_run]

/-- A number among the constants. -/
theorem At.number (h : s.At p i k) {n : Number} {j : UInt16}
    (hc : p.chunk.constants[j.toNat]? = some (.number n)) :
    Act.constant j s = .done (.number n) s := by
  obtain ⟨v, hrun, rfl⟩ := h.constant hc
  exact hrun

/-- A name among the constants has the key of its text. -/
theorem At.name (h : s.At p i k) {x : String} {j : UInt16} (hx : p.chunk.string? j = some x) :
    ∃ key, Act.name j s = .done key s ∧ s.heap.lookupKey x = some key := by
  have hc : p.chunk.constants[j.toNat]? = some (.string x) := by
    unfold Chunk.string? at hx
    split at hx
    · next t ht =>
      obtain rfl := Option.some.inj hx
      exact ht
    · cases hx
  obtain ⟨v, hrun, key, hkey, rfl⟩ := h.constant hc
  refine ⟨key, ?_, hkey⟩
  have hstr := (h.interned.lookupKey.1 hkey).2
  unfold Act.name
  simp only [Act.bind_run, hrun, Proc.bind_done, Act.gets_run, hstr, Act.pure_run]
  rw [show (Heap.internedString (Text.octets x)).hash = key.hash from
    (h.interned.hash_lookupKey hkey).2.symm]

/-- A global with a name of the core. -/
theorem At.global? (h : s.At p i k) {x : String} {key : Key} (hx : isOwnName x = true)
    (hkey : s.heap.lookupKey x = some key) :
    s.global? i.module key = (k.globals x).map Datum.value := by
  obtain ⟨name, t, g, hget, hb, hg⟩ := h.own
  unfold State.global? State.module?
  rw [hget]
  simp only
  rw [hb.get? h.interned hkey, hg x hx]
  rfl

/-- Setting a global of the main module. -/
theorem At.setGlobal (h : s.At p i ⟨pc, data, globals⟩) {x : String} {key : Key}
    (hkey : s.heap.lookupKey x = some key) (d : Datum) :
    (s.setGlobal i.module key d.value).At p i
      ⟨pc, data, fun y => if y = x then some d else globals y⟩ := by
  obtain ⟨name, t, g, hget, hb, hg⟩ := h.own
  obtain ⟨hgrow, hget'⟩ := Heap.grows_update (h := i.module)
    (f := Object.mapGlobals fun globals => globals.insert key d.value) h.interned
    (by rw [hget]; rintro _ ⟨⟩)
  rw [hget] at hget'
  have hfun : ∀ y f, s.heap.get? y = some (.function f) → y ≠ i.module := by
    rintro y f hy rfl
    rw [hget] at hy
    cases hy
  refine ⟨⟨h.toEquipped.grows hgrow rfl ?_, hgrow.ceiling.trans h.ceiling, ?_, ?_, ?_⟩, h.calm,
    h.closed, h.frames, h.stack⟩
  · rintro y o hy rfl
    exact ⟨name, t, Option.some.inj (hy.symm.trans hget)⟩
  · obtain ⟨f, hf, hp, hm, hpool⟩ := h.function
    exact ⟨f, hgrow.objects _ _ hf (hfun _ f hf), hp, hm, hgrow.holdsAll hfun hpool⟩
  · obtain ⟨g', hb', hmain⟩ := h.registered
    exact ⟨g', hgrow.binds h.interned hb', hmain⟩
  · refine ⟨name, _, _, hget', hgrow.binds h.interned (hb.insert h.interned hkey d.value),
      fun y hy => ?_⟩
    by_cases heq : y = x
    · simp only [globalValues, if_pos heq, Option.map_some]
    · simp only [globalValues, if_neg heq]
      exact hg y hy

/-- Fetching an instruction moves past it. -/
theorem At.fetch (h : s.At p i k) {op : Op} (hop : p.chunk.code[k.pc]? = some op) :
    ∃ s', Act.fetch s = .done op s' ∧ s'.At p i ⟨k.pc + 1, k.stack, k.globals⟩ := by
  refine ⟨s.modifyFrame fun f => { f with ip := f.ip + 1 }, ?_, ?_⟩
  · have hop' : (i.frame p k.pc).proto.chunk.code[(i.frame p k.pc).ip]? = some op := hop
    unfold Act.fetch
    rw [h.frame?]
    simp only [hop']
  · obtain ⟨pc, data, globals⟩ := k
    exact h.jump rfl

/-! ## Methods of data -/

/-- The class of a value of the core. -/
def dataClass : Datum → CoreClass
  | .number _ => .number
  | .bool _ => .boolean
  | .null => .null

/-- The class of a datum. -/
theorem classOf?_value (s : State) (d : Datum) :
    s.classOf? d.value = some (s.coreClass (dataClass d)) := by
  cases d <;> rfl

/-- The methods of the classes of data. -/
theorem layout_dataClass (d : Datum) : ∃ e, classLayout[(dataClass d).index]? = some e ∧
    ∀ n ∈ e.2, n ∈ ["__string__", "__eq__", "__hash__"] := by
  cases d with
  | number n => exact ⟨("Number", _), rfl, by decide⟩
  | bool b => exact ⟨("Boolean", _), rfl, by decide⟩
  | null => exact ⟨("Null", _), rfl, by decide⟩

/-- Names of methods that data do not have. -/
def isOverload (name : Special) : Bool :=
  Special.table.any fun x => x.1 == name && ! ["__string__", "__eq__", "__hash__"].contains x.2

/-- Data have no methods but those for equality, hashing and text. -/
theorem Equipped.noMethod (he : s.Equipped) (d : Datum) {name : Special}
    (hname : isOverload name = true) : Act.findMethod d.value name s = .done none s := by
  obtain ⟨x, hx, hboth⟩ := List.any_eq_true.1 hname
  simp only [Bool.and_eq_true, beq_iff_eq, Bool.not_eq_true', ← Bool.not_eq_true,
    List.contains_iff_mem] at hboth
  obtain ⟨rfl, hn⟩ := hboth
  obtain ⟨e, hlayout, hmethods⟩ := layout_dataClass d
  obtain ⟨c, g, hget, -, hb, hg⟩ := (he.classes _ _ hlayout).1
  have hnone : g x.2 = none := by
    by_contra hne
    exact hn (hmethods _ (hg _ (Option.isSome_iff_ne_none.2 hne)))
  unfold Act.findMethod
  rw [Act.bind_run, show Act.classOf d.value s = .done (s.coreClass (dataClass d)) s from
    Act.require_run s _ (classOf?_value s d)]
  simp only [Proc.bind_done, Act.gets_run, State.method?, State.class?, hget]
  rw [hb.get? he.interned (he.specials x hx).1, hnone]

end Moves

end State

end ScriptEngine
