import ScriptEngine.Proofs.Checking
import ScriptEngine.Proofs.DataInstructions

/-!
# Where code stands

The code a machine runs is on its heap: functions with the prototypes they were made of, closures
with the variables they captured, and generators with the place where they go on. `Sound` says that
all of it has passed the structural checks and fits together, and that each frame runs a closure and
a function of the heap; `AllLand` adds that each frame goes on somewhere in its code. Both last
through all changes that leave code alone.
-/

namespace ScriptEngine.Bytecode

/-! ## Places in code -/

namespace Proto

/-- Some forward jump goes just past the end of the code, where there is no instruction. -/
def Overruns (p : Proto) : Prop :=
  ∃ (offset : Nat) (op : Op), p.chunk.code[offset]? = some op ∧
    op.forwardTarget? offset = some p.chunk.code.size

/-- Whether code overruns can be found out by looking at each instruction. -/
theorem overruns_iff {p : Proto} : p.Overruns ↔ ∃ offset < p.chunk.code.size,
    (p.chunk.code[offset]?.bind (·.forwardTarget? offset)) = some p.chunk.code.size := by
  constructor
  · rintro ⟨offset, op, hop, ht⟩
    exact ⟨offset, (Array.getElem?_eq_some_iff.1 hop).1, by rw [hop]; exact ht⟩
  · rintro ⟨offset, -, ht⟩
    obtain ⟨op, hop, ht⟩ := Option.bind_eq_some_iff.1 ht
    exact ⟨offset, op, hop, ht⟩

/-- An offset where code may go on. Only a forward jump can lead past the last instruction. -/
def Lands (p : Proto) (ip : Nat) : Prop :=
  ip < p.chunk.code.size ∨ ip = p.chunk.code.size ∧ p.Overruns

section Lands

variable {p : Proto} {ip : Nat} {op : Op}

/-- The last instruction is a return. -/
theorem Fits.lt_of_ne_return (h : p.Fits) (hop : p.chunk.code[ip]? = some op)
    (hne : op ≠ .return) : ip + 1 < p.chunk.code.size := by
  obtain ⟨hlt, -⟩ := Array.getElem?_eq_some_iff.1 hop
  refine Nat.lt_of_le_of_ne hlt fun heq => hne ?_
  have hfinal := h.final
  rw [Array.back?_eq_getElem?, ← heq, Nat.add_sub_cancel, hop] at hfinal
  exact Option.some.inj hfinal

/-- Code that fits has an instruction to begin with. -/
theorem Fits.lands_zero (h : p.Fits) : p.Lands 0 := by
  refine .inl (Nat.pos_of_ne_zero fun hzero => ?_)
  have hfinal := h.final
  rw [Array.back?_eq_getElem?, Array.getElem?_eq_none (by omega)] at hfinal
  cases hfinal

/-- A forward jump of code that fits lands in it. -/
theorem Fits.lands_forward (h : p.Fits) (hop : p.chunk.code[ip]? = some op) {target : Nat}
    (ht : op.forwardTarget? ip = some target) : p.Lands target := by
  rcases Nat.lt_or_eq_of_le ((h.code ip op hop).forward target ht) with hlt | rfl
  · exact .inl hlt
  · exact .inr ⟨rfl, ip, op, hop, ht⟩

/-- A loop goes back from the offset after it, which is still in the code. -/
theorem Fits.lands_back (h : p.Fits) {distance : UInt16}
    (hop : p.chunk.code[ip]? = some (.loop distance)) : p.Lands (ip + 1 - distance.toNat) :=
  .inl (Nat.lt_of_le_of_lt (Nat.sub_le _ _) (h.lt_of_ne_return hop nofun))

end Lands

end Proto

end ScriptEngine.Bytecode

namespace ScriptEngine

open Bytecode

/-! ## Code on the heap -/

/-- Functions and closures, which never change. -/
def Object.isCode : Object → Bool
  | .function _ | .closure _ _ => true
  | _ => false

namespace Heap

/-- A handle of a function that was made of a prototype. -/
def HasFunction (heap : Heap) (h : Handle) (p : Proto) : Prop :=
  ∃ f, heap.get? h = some (.function f) ∧ f.proto = p

/-- A closure of a function that was made of a prototype. -/
structure Backs (heap : Heap) (closure function : Handle) (p : Proto) : Prop where
  closure : ∃ upvalues, heap.get? closure = some (.closure function upvalues)
  function : heap.HasFunction function p

/-- What is read off the code behind a handle stays the same. -/
structure Carries (heap heap' : Heap) (h : Handle) : Prop where
  code : ∀ o : Object, o.isCode = true → heap.get? h = some o → heap'.get? h = some o
  generator : ∀ g, heap.get? h = some (.generator g) →
    ∃ g', heap'.get? h = some (.generator g') ∧ g'.function = g.function

section Carries

variable {heap heap' : Heap} {h closure function : Handle} {p q : Proto}

/-- What stays as it is is carried. -/
theorem Carries.of_eq (heq : heap'.get? h = heap.get? h) : heap.Carries heap' h :=
  ⟨fun _ _ ho => heq.trans ho, fun g hg => ⟨g, heq.trans hg, rfl⟩⟩

/-- Heaps one after the other carry what both carry. -/
theorem Carries.trans {heap'' : Heap} (hc : heap.Carries heap' h) (hc' : heap'.Carries heap'' h) :
    heap.Carries heap'' h := by
  refine ⟨fun o hcode ho => hc'.code o hcode (hc.code o hcode ho), fun g hg => ?_⟩
  obtain ⟨g', hg', hfun⟩ := hc.generator g hg
  obtain ⟨g'', hg'', hfun'⟩ := hc'.generator g' hg'
  exact ⟨g'', hg'', hfun'.trans hfun⟩

/-- A new object leaves the others where they are. -/
theorem carries_insert (ht : heap.Tidy) (o : Object) (h : Handle) :
    heap.Carries (heap.insert o).1 h := by
  cases hlive : heap.isLive h with
  | true => exact .of_eq (get?_insert_of_live ht o hlive)
  | false =>
    rw [isLive, Option.isSome_eq_false_iff, Option.isNone_iff_eq_none] at hlive
    constructor
    · intro o' _ ho'
      rw [hlive] at ho'
      cases ho'
    · intro g hg
      rw [hlive] at hg
      cases hg

/-- So does a text. -/
theorem carries_intern (ht : heap.Tidy) (data : ByteArray) (h : Handle) :
    heap.Carries (heap.intern data).1 h := by
  unfold intern
  dsimp only
  split
  · exact .of_eq rfl
  · exact (carries_insert ht (.string ⟨data, Text.fnv1a data, true⟩) h).trans (.of_eq rfl)

/-- A change in place under which code stays and generators go on with the same function. -/
structure Spares (heap : Heap) (x : Handle) (f : Object → Object) : Prop where
  code : ∀ o : Object, heap.get? x = some o → o.isCode = true → f o = o
  generator : ∀ g, heap.get? x = some (.generator g) →
    ∃ g', f (.generator g) = .generator g' ∧ g'.function = g.function

/-- A change that spares code carries it. -/
theorem Spares.carries {x : Handle} {f : Object → Object} (hf : heap.Spares x f) (h : Handle) :
    heap.Carries (heap.update x f) h := by
  by_cases heq : h = x
  · subst heq
    constructor
    · intro o hcode ho
      rw [get?_update, if_pos rfl, ho, Option.map_some, hf.code o ho hcode]
    · intro g hg
      obtain ⟨g', hg', hfun⟩ := hf.generator g hg
      refine ⟨g', ?_, hfun⟩
      rw [get?_update, if_pos rfl, hg, Option.map_some, hg']
  · exact .of_eq (by rw [get?_update, if_neg heq])

/-- What is reached from the roots stays. -/
theorem get?_collect_of_reaches {roots : List Handle} (hr : Reaches heap.cells roots h) :
    (heap.collect roots).1.get? h = heap.get? h := by
  cases hlive : heap.isLive h with
  | true => exact get?_collect (isLive_collect.2 ⟨hlive, hr⟩)
  | false =>
    have hdead : (heap.collect roots).1.isLive h = false := by
      rw [Bool.eq_false_iff]
      intro hsurvives
      rw [(isLive_collect.1 hsurvives).1] at hlive
      cases hlive
    rw [isLive, Option.isSome_eq_false_iff, Option.isNone_iff_eq_none] at hlive hdead
    rw [hlive, hdead]

/-- A function that is carried keeps its prototype. -/
theorem HasFunction.carry (hf : heap.HasFunction h p) (hc : heap.Carries heap' h) :
    heap'.HasFunction h p := by
  obtain ⟨f, hget, hp⟩ := hf
  exact ⟨f, hc.code _ rfl hget, hp⟩

/-- A function has one prototype. -/
theorem HasFunction.unique (hp : heap.HasFunction h p) (hq : heap.HasFunction h q) : p = q := by
  obtain ⟨f, hf, rfl⟩ := hp
  obtain ⟨g, hg, rfl⟩ := hq
  rw [hf] at hg
  cases hg
  rfl

/-- A closure that is carried is backed as before. -/
theorem Backs.carry (hb : heap.Backs closure function p) (hc : heap.Carries heap' closure)
    (hf : heap.Carries heap' function) : heap'.Backs closure function p := by
  obtain ⟨⟨upvalues, hget⟩, hfun⟩ := hb
  exact ⟨⟨upvalues, hc.code _ rfl hget⟩, hfun.carry hf⟩

end Carries

end Heap

/-- The code an object refers to is there, and what can be called has passed the checks. `top` tells
the prototypes of top-level code, whose closures capture nothing, whatever the prototype says. -/
def Object.CodeChecked (top : Proto → Prop) (heap : Heap) : Object → Prop
  | .function f => f.defaults.size = f.proto.defaults.size ∧
      ∀ (i : Nat) (q : Proto), f.proto.chunk.constants[i]? = some (.function q) →
        ∃ h, f.constants[i]? = some (.object h) ∧ heap.HasFunction h q
  | .closure f upvalues => ∃ p, heap.HasFunction f p ∧ p.verify = .ok () ∧
      (upvalues.size = p.upvalueCount.toNat ∨ upvalues.size = 0 ∧ top p)
  | .generator g => ∃ p, heap.Backs g.closure g.function p ∧ p.Lands g.ip ∧
      ∀ h ∈ g.handlers, p.Lands h.address
  | _ => True

namespace Object

variable {top : Proto → Prop} {heap heap' : Heap} {o o' : Object}

/-- An object whose references are carried fits together as before. -/
theorem CodeChecked.carry (hg : o.CodeChecked top heap)
    (hc : ∀ h ∈ o.references, heap.Carries heap' h) : o.CodeChecked top heap' := by
  cases o with
  | function f =>
    refine ⟨hg.1, fun i q hq => ?_⟩
    obtain ⟨h, hh, hfun⟩ := hg.2 i q hq
    refine ⟨h, hh, hfun.carry (hc h ?_)⟩
    have hmem : Value.object h ∈ f.constants.toList :=
      Array.mem_toList_iff.2 (Array.mem_of_getElem? hh)
    exact List.mem_append_left _ (List.mem_append_left _ (List.mem_filterMap.2 ⟨_, hmem, rfl⟩))
  | closure f upvalues =>
    obtain ⟨p, hfun, hverify, hsize⟩ := hg
    exact ⟨p, hfun.carry (hc f (List.mem_cons_self ..)), hverify, hsize⟩
  | generator g =>
    obtain ⟨p, hbacks, hplaces⟩ := hg
    refine ⟨p, hbacks.carry (hc _ (List.mem_cons_self ..)) (hc _ ?_), hplaces⟩
    exact List.mem_cons_of_mem _ (List.mem_cons_self ..)
  | _ => trivial

/-- Whether an object fits together depends on its frozen part alone. -/
theorem codeChecked_frozen : o.frozen.CodeChecked top heap ↔ o.CodeChecked top heap := by
  cases o <;> exact Iff.rfl

/-- Code and places in code are what stays of an object. -/
theorem CodeChecked.of_frozen (hg : o.CodeChecked top heap) (hf : o'.frozen = o.frozen) :
    o'.CodeChecked top heap := by
  rw [← codeChecked_frozen, hf]
  exact codeChecked_frozen.2 hg

/-- Code does not change when its frozen part does not. -/
theorem eq_of_frozen_code (hcode : o.isCode = true) (hf : o'.frozen = o.frozen) : o' = o := by
  cases o with
  | function f => cases o' <;> simp_all [frozen]
  | closure f upvalues => cases o' <;> simp_all [frozen]
  | _ => cases hcode

/-- Neither does a generator. -/
theorem eq_of_frozen_generator {g : GeneratorObject} (hf : o'.frozen = (Object.generator g).frozen) :
    o' = .generator g := by
  cases o' <;> simp_all [frozen]

/-- A change that leaves frozen parts alone spares code. -/
theorem spares_of_frozen {x : Handle} {f : Object → Object}
    (hf : ∀ o, heap.get? x = some o → (f o).frozen = o.frozen) : heap.Spares x f :=
  ⟨fun o ho hcode => eq_of_frozen_code hcode (hf o ho),
    fun g hg => ⟨g, eq_of_frozen_generator (hf _ hg), rfl⟩⟩

/-- A plain object has nothing that would have to fit together. -/
theorem codeChecked_of_isPlain (h : o.isPlain = true) : o.CodeChecked top heap := by
  cases o with
  | function f => cases h
  | closure f upvalues => cases h
  | generator g => cases h
  | _ => trivial

end Object

/-! ## Frames -/

/-- The handles a frame holds. -/
def Frame.handles (f : Frame) : List Handle := f.closure :: f.function :: f.generator.toList

/-- A frame runs code of the heap. -/
structure Frame.RunsCode (heap : Heap) (f : Frame) : Prop where
  /-- It runs a closure of a function with its prototype. -/
  backs : heap.Backs f.closure f.function f.proto
  /-- Its handlers are in the code. -/
  handlers : ∀ h ∈ f.handlers, f.proto.Lands h.address
  /-- Its generator runs the same function. -/
  generator : ∀ h, f.generator = some h →
    ∃ g, heap.get? h = some (.generator g) ∧ g.function = f.function

/-- A frame runs its code on a heap that carries it. -/
theorem Frame.RunsCode.carry {heap heap' : Heap} {f : Frame} (hs : f.RunsCode heap)
    (hc : ∀ h ∈ f.handles, heap.Carries heap' h) : f.RunsCode heap' where
  backs := hs.backs.carry (hc _ (List.mem_cons_self ..))
    (hc _ (List.mem_cons_of_mem _ (List.mem_cons_self ..)))
  handlers := hs.handlers
  generator h hh := by
    obtain ⟨g, hg, hfun⟩ := hs.generator h hh
    obtain ⟨g', hg', hfun'⟩ := (hc h (by simp [Frame.handles, hh])).generator g hg
    exact ⟨g', hg', hfun'.trans hfun⟩

namespace State

/-- The code of a machine fits together. -/
structure Sound (top : Proto → Prop) (s : State) : Prop where
  tidy : s.heap.Tidy
  /-- So do the objects. -/
  objects : ∀ h o, s.heap.get? h = some o → o.CodeChecked top s.heap
  /-- So do the frames. -/
  frames : ∀ f ∈ s.frames, f.RunsCode s.heap
  /-- Modules that can be imported have top-level code. -/
  importable : ∀ e ∈ s.importable, top e.2.main

/-- Every frame goes on somewhere in its code. -/
structure AllLand (top : Proto → Prop) (s : State) : Prop extends Sound top s where
  lands : ∀ f ∈ s.frames, f.proto.Lands f.ip

section Sound

variable {top : Proto → Prop} {s t : State}

/-- What a closure runs has passed the checks, and it captures what the prototype says, or nothing
if it is top-level code. -/
theorem Sound.closure (h : s.Sound top) {closure function : Handle} {upvalues : Array Handle}
    {p : Proto} (hc : s.heap.get? closure = some (.closure function upvalues))
    (hf : s.heap.HasFunction function p) : p.verify = .ok () ∧
      (upvalues.size = p.upvalueCount.toNat ∨ upvalues.size = 0 ∧ top p) := by
  obtain ⟨q, hq, hchecked⟩ := h.objects _ _ hc
  rwa [hf.unique hq]

/-- What a frame runs has passed the checks. -/
theorem Sound.verified (h : s.Sound top) {f : Frame} (hf : f ∈ s.frames) :
    f.proto.verify = .ok () := by
  obtain ⟨⟨upvalues, hc⟩, hfun⟩ := (h.frames f hf).backs
  exact (h.closure hc hfun).1

/-- So it fits. -/
theorem Sound.fits (h : s.Sound top) {f : Frame} (hf : f ∈ s.frames) : f.proto.Fits :=
  (verify_eq_ok.1 (h.verified hf)).1

/-- A new heap under the same frames. -/
theorem Sound.carry (h : s.Sound top) {heap : Heap} (ht : heap.Tidy)
    (ho : ∀ x o, heap.get? x = some o → o.CodeChecked top heap)
    (hc : ∀ f ∈ s.frames, ∀ x ∈ f.handles, s.heap.Carries heap x) :
    { s with heap := heap : State }.Sound top :=
  ⟨ht, ho, fun f hf => (h.frames f hf).carry (hc f hf), h.importable⟩

/-- A new object that fits together. -/
theorem Sound.insert (h : s.Sound top) {o : Object} (ho : o.CodeChecked top s.heap) :
    { s with heap := (s.heap.insert o).1 : State }.Sound top := by
  have hcarry := Heap.carries_insert h.tidy o
  refine h.carry (h.tidy.insert o) (fun x o' hx => ?_) fun _ _ x _ => hcarry x
  rw [Heap.get?_insert h.tidy] at hx
  split at hx
  · cases hx
    exact ho.carry fun x _ => hcarry x
  · exact (h.objects x o' hx).carry fun x _ => hcarry x

/-- The objects stay the same. -/
theorem Sound.congr (h : s.Sound top) {heap : Heap} (ht : heap.Tidy)
    (heq : ∀ x, heap.get? x = s.heap.get? x) : { s with heap := heap : State }.Sound top := by
  refine h.carry ht (fun x o hx => ?_) fun _ _ x _ => .of_eq (heq x)
  exact (h.objects x o ((heq x).symm.trans hx)).carry fun y _ => .of_eq (heq y)

/-- A text. -/
theorem Sound.intern (h : s.Sound top) (data : ByteArray) :
    { s with heap := (s.heap.intern data).1 : State }.Sound top := by
  have htidy := h.tidy.intern data
  revert htidy
  unfold Heap.intern
  dsimp only
  split
  · exact fun _ => h
  · intro htidy
    exact (h.insert (o := .string ⟨data, Text.fnv1a data, true⟩) trivial).congr htidy fun _ => rfl

/-- A change of an object that spares code and leaves it fitting together. -/
theorem Sound.update (h : s.Sound top) {x : Handle} {f : Object → Object}
    (hf : s.heap.Spares x f)
    (hg : ∀ o, s.heap.get? x = some o → (f o).CodeChecked top s.heap) :
    { s with heap := s.heap.update x f : State }.Sound top := by
  have hcarry := hf.carries
  refine h.carry (h.tidy.update x f) (fun y o hy => ?_) fun _ _ y _ => hcarry y
  rw [Heap.get?_update] at hy
  split at hy
  · next heq =>
    subst heq
    obtain ⟨o, ho, rfl⟩ := Option.map_eq_some_iff.1 hy
    exact (hg o ho).carry fun z _ => hcarry z
  · exact (h.objects y o hy).carry fun z _ => hcarry z

/-- A frame holds on to its closure, its function and its generator. -/
theorem mem_roots_of_frame {f : Frame} (hf : f ∈ s.frames) {x : Handle} (hx : x ∈ f.handles) :
    x ∈ s.roots := by
  unfold State.roots
  simp only [List.mem_append, List.mem_flatMap]
  exact .inl (.inl (.inl (.inr ⟨f, Array.mem_toList_iff.2 hf, hx⟩)))

/-- Frames are roots, and what survives keeps all it refers to. -/
theorem Sound.collect (h : s.Sound top) {more : List Handle} :
    { s with heap := (s.heap.collect (s.roots ++ more)).1 : State }.Sound top := by
  refine h.carry (h.tidy.collect _) (fun x o hx => ?_) fun f hf x hx => ?_
  · have hreach := Heap.isLive_collect.1 (Heap.isLive_of_get? hx)
    rw [Heap.get?_collect_of_reaches hreach.2] at hx
    refine (h.objects x o hx).carry fun y hy => .of_eq ?_
    exact Heap.get?_collect_of_reaches (hreach.2.reference hx hy)
  · refine .of_eq (Heap.get?_collect_of_reaches (.root ?_))
    exact List.mem_append_left _ (mem_roots_of_frame hf hx)

/-- A change of the heap that leaves code alone. -/
theorem Sound.heapChange (h : s.Sound top) {heap : Heap}
    (hs : Heap.DataChange s.roots s.heap heap) :
    { s with heap := heap : State }.Sound top := by
  cases hs with
  | insert o ho => exact h.insert (Object.codeChecked_of_isPlain ho)
  | intern data => exact h.intern data
  | update x f hf =>
    exact h.update (Object.spares_of_frozen hf) fun o ho => (h.objects x o ho).of_frozen (hf o ho)
  | resize x => exact h.congr (h.tidy.resize x) (s.heap.get?_resize x)
  | collect more => exact h.collect
  | disable count => exact h.congr (h.tidy.of_occupied rfl rfl fun _ => ⟨id, by simp⟩) fun _ => rfl

/-- A change that leaves code alone keeps the machine sound. -/
theorem Sound.dataChange (h : s.Sound top) (hs : s.DataChange t) : t.Sound top := by
  cases hs with
  | stack values => exact ⟨h.tidy, h.objects, h.frames, h.importable⟩
  | upvalues opened => exact ⟨h.tidy, h.objects, h.frames, h.importable⟩
  | modules table => exact ⟨h.tidy, h.objects, h.frames, h.importable⟩
  | host base interrupt output => exact ⟨h.tidy, h.objects, h.frames, h.importable⟩
  | heap hs => exact h.heapChange hs

/-- So do any number of them. -/
theorem Sound.dataChanges (h : s.Sound top) (hd : s.DataChanges t) : t.Sound top := by
  induction hd with
  | refl => exact h
  | tail _ hs ih => exact ih.dataChange hs

/-- What a frame runs stays the same. -/
theorem Sound.data_carries (h : s.Sound top) (hd : s.DataChanges t) {f : Frame} (hf : f ∈ s.frames)
    {x : Handle} (hx : x ∈ f.handles) : s.heap.Carries t.heap x := by
  induction hd with
  | refl => exact .of_eq rfl
  | tail hd hs ih =>
    refine ih.trans ?_
    have htidy := (h.dataChanges hd).tidy
    have hroot := mem_roots_of_frame (DataChanges.frames hd ▸ hf) hx
    cases hs with
    | stack values => exact .of_eq rfl
    | upvalues opened => exact .of_eq rfl
    | modules table => exact .of_eq rfl
    | host base interrupt output => exact .of_eq rfl
    | heap hs =>
      cases hs with
      | insert o ho => exact Heap.carries_insert htidy o x
      | intern data => exact Heap.carries_intern htidy data x
      | update y f hf => exact (Object.spares_of_frozen hf).carries x
      | resize y => exact .of_eq (Heap.get?_resize _ y x)
      | collect more =>
        exact .of_eq (Heap.get?_collect_of_reaches (.root (List.mem_append_left _ hroot)))
      | disable count => exact .of_eq rfl

/-- They leave all frames in their code. -/
theorem AllLand.dataChanges (h : s.AllLand top) (hd : s.DataChanges t) : t.AllLand top :=
  ⟨h.toSound.dataChanges hd, by rw [hd.frames]; exact h.lands⟩

end Sound

end State

end ScriptEngine
