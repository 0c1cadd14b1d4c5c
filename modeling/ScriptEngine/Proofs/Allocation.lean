import ScriptEngine.Machine.Action
import ScriptEngine.Proofs.CoreModule

/-!
# Allocation

Making an object may collect garbage first. Whatever can be reached from handles that the machine
holds is there afterwards and has not changed, and the new object has a slot of its own. While
collection is forbidden nothing is collected at all.
-/

namespace ScriptEngine

/-! ## Running actions -/

namespace Proc

variable {α β : Type}

@[simp] theorem bind_done (a : α) (s : State) (f : α → State → Proc β) :
    (Proc.done a s).bind f = f a s := rfl

@[simp] theorem bind_raised (s : State) (f : α → State → Proc β) :
    (Proc.raised s).bind f = .raised s := rfl

end Proc

namespace Act

variable {α β : Type} (s : State)

@[simp] theorem bind_run (x : Act α) (f : α → Act β) :
    (x >>= f) s = (x s).bind fun a s' => f a s' := rfl

@[simp] theorem pure_run (a : α) : (pure a : Act α) s = .done a s := rfl

@[simp] theorem gets_run (f : State → α) : gets f s = .done (f s) s := rfl

@[simp] theorem modify_run (f : State → State) : modify f s = .done () (f s) := rfl

@[simp] theorem push_run (v : Value) : push v s = .done () (s.push v) := rfl

@[simp] theorem raise_run : (raise : Act α) s = .raised s := rfl

/-- A requirement that is met. -/
theorem require_run {f : State → Option α} {a : α} (e : Fault) (h : f s = some a) :
    require f e s = .done a s := by
  unfold require
  rw [h]

/-- The start of some values on top of the stack. -/
theorem start_run {s : State} {count : Nat} (h : count ≤ s.stack.size) :
    start count s = .done (s.stack.size - count) s := require_run _ _ (if_pos h)

end Act

namespace Proc

/-- An action on a heap has stopped at a ceiling that cannot be kept. -/
structure Capped {α : Type} (heap : Heap) (p : Proc α) : Prop where
  /-- The heap has a ceiling. -/
  ceiling : heap.maxBytes ≠ none
  /-- What could not be allocated stops the machine. -/
  stopped : p = .fault .heapLimit

/-- What follows an action that stopped at the limit does not matter. -/
theorem Capped.bind {α β : Type} {heap : Heap} {p : Proc α} (h : p.Capped heap)
    (f : α → State → Proc β) : (p.bind f).Capped heap :=
  ⟨h.ceiling, by rw [h.stopped]; rfl⟩

/-- The limit alone matters. -/
theorem Capped.of_ceiling {α : Type} {heap heap' : Heap} {p : Proc α} (h : p.Capped heap')
    (same : heap'.maxBytes = heap.maxBytes) : p.Capped heap :=
  ⟨same ▸ h.ceiling, h.stopped⟩

end Proc

/-! ## What a collection keeps -/

namespace Heap

/-- One heap has become another in which everything that can be reached from some handles is as it
was. -/
structure Keeps (anchors : List Handle) (heap heap' : Heap) : Prop where
  /-- Its strings are interned. -/
  interned : Interned heap'
  /-- Objects stay. -/
  objects : ∀ x o, Reaches heap.cells anchors x → heap.get? x = some o → heap'.get? x = some o
  /-- Texts keep their keys. -/
  keys : ∀ name k, Reaches heap.cells anchors k.handle → heap.lookupKey name = some k →
    heap'.lookupKey name = some k
  /-- There is no new ceiling. -/
  ceiling : heap'.maxBytes = heap.maxBytes

section Keeps

variable {heap heap' heap'' : Heap} {anchors roots : List Handle} {x : Handle}

/-- The references in a slot are those of the object. -/
theorem slotReferences_eq (heap : Heap) (x : Handle) :
    slotReferences heap.cells x.index = (heap.get? x).map Object.references := by
  unfold slotReferences get?
  rw [Option.map_map]
  rfl

/-- What an object that is reached refers to is reached. -/
theorem Reaches.reference {o : Object} {y : Handle} (h : Reaches heap.cells anchors x)
    (hx : heap.get? x = some o) (hy : y ∈ o.references) : Reaches heap.cells anchors y :=
  h.step (by rw [slotReferences_eq, hx]; rfl) hy

/-- What is reached from some handles is reached from more. -/
theorem Reaches.mono (hsub : anchors ⊆ roots) (h : Reaches heap.cells anchors x) :
    Reaches heap.cells roots x := by
  induction h with
  | root hr => exact .root (hsub hr)
  | step _ hrefs hmem ih => exact ih.step hrefs hmem

/-- Nothing has changed. -/
theorem Keeps.refl (hi : Interned heap) : Keeps anchors heap heap :=
  ⟨hi, fun _ _ _ h => h, fun _ _ _ h => h, rfl⟩

/-- The ways to what is reached are kept. -/
theorem Keeps.reaches (h : Keeps anchors heap heap') (hr : Reaches heap.cells anchors x) :
    Reaches heap'.cells anchors x := by
  induction hr with
  | root hr => exact .root hr
  | @step y z refs hr hrefs hmem ih =>
    rw [slotReferences_eq] at hrefs
    obtain ⟨o, ho, rfl⟩ := Option.map_eq_some_iff.1 hrefs
    exact ih.reference (h.objects y o hr ho) hmem

/-- Heaps that keep what is held, one after the other. -/
theorem Keeps.trans (h : Keeps anchors heap heap') (h' : Keeps anchors heap' heap'') :
    Keeps anchors heap heap'' where
  interned := h'.interned
  objects x o hr hx := h'.objects x o (h.reaches hr) (h.objects x o hr hx)
  keys name k hr hk := h'.keys name k (h.reaches hr) (h.keys name k hr hk)
  ceiling := h'.ceiling.trans h.ceiling

/-- A heap that has grown keeps what is held. -/
theorem Grows.keeps {except : Handle → Prop} (h : Grows except heap heap')
    (hx : ∀ x, Reaches heap.cells anchors x → ¬ except x) : Keeps anchors heap heap' where
  interned := h.interned
  objects x o hr ho := h.objects x o ho (hx x hr)
  keys name k _ hk := h.keys name k hk
  ceiling := h.ceiling

/-- A collection from more handles keeps what is reached from some of them. -/
theorem keeps_collect (hi : Interned heap) (hsub : anchors ⊆ roots) :
    Keeps anchors heap (heap.collect roots).1 := by
  have hlive : ∀ x, heap.isLive x = true → Reaches heap.cells anchors x →
      (heap.collect roots).1.isLive x = true :=
    fun x hx hr => isLive_collect.2 ⟨hx, hr.mono hsub⟩
  obtain ⟨hi', hkeys⟩ := hi.collect roots
  refine ⟨hi', fun x o hr hx => ?_, fun name k hr hk => ?_, rfl⟩
  · rw [get?_collect (hlive x (isLive_of_get? hx) hr), hx]
  · exact (hkeys name k).2 ⟨hk, hlive _ (hi.isLive (hi.lookupKey.1 hk).1) hr⟩

end Keeps

end Heap

/-! ## Making objects -/

namespace Act

variable {s : State} {anchors : List Handle}

/-- A collection that the budget asks for keeps what is reached from handles the machine holds. -/
theorem reserve_ends (hi : Heap.Interned s.heap) (hsub : anchors ⊆ s.roots) (bytes : Nat)
    (pending : List Handle) :
    (reserve bytes pending s).Capped s.heap ∨
      ∃ heap', reserve bytes pending s = .done () { s with heap := heap' } ∧
        Heap.Keeps anchors s.heap heap' := by
  have hcollect : ∃ heap', s.collect pending = ({ s with heap := heap' }, (s.collect pending).2) ∧
      Heap.Keeps anchors s.heap heap' := by
    unfold State.collect
    split
    · exact ⟨_, rfl, Heap.keeps_collect hi fun _ h => List.mem_append_left _ (hsub h)⟩
    · exact ⟨s.heap, rfl, .refl hi⟩
  unfold reserve
  split
  · obtain ⟨heap', heq, hkeep⟩ := hcollect
    rw [heq]
    dsimp only
    split
    · next hlimit =>
      refine .inl ⟨fun hnone => ?_, rfl⟩
      rw [Heap.exceedsLimit, hkeep.ceiling, hnone] at hlimit
      cases hlimit
    · exact .inr ⟨heap', rfl, hkeep⟩
  · exact .inr ⟨s.heap, rfl, .refl hi⟩

/-- Makes room for an object and puts it there. -/
def allocIn (bytes : Nat) (pending : List Handle) (o : Object) : Act Handle := do
  reserve bytes pending
  modifyGet fun s =>
    let (heap, h) := s.heap.insert o
    ({ s with heap := heap }, h)

/-- An object is made with room for it. -/
theorem alloc_eq (o : Object) : alloc o = allocIn o.estimatedBytes o.references o := rfl

/-- A string is made with room for its octets. -/
theorem newString_eq (data : ByteArray) :
    newString data = allocIn data.size [] (.string ⟨data, Text.fnv1a data, false⟩) := rfl

/-- A new object does not take the place of one that is reached. -/
theorem allocIn_ends (hi : Heap.Interned s.heap) (hsub : anchors ⊆ s.roots) (bytes : Nat)
    (pending : List Handle) (o : Object) :
    (allocIn bytes pending o s).Capped s.heap ∨
      ∃ heap' h, allocIn bytes pending o s = .done h { s with heap := heap' } ∧
        Heap.Keeps anchors s.heap heap' ∧ heap'.get? h = some o ∧
        ∀ x, Heap.Reaches s.heap.cells anchors x → s.heap.isLive x = true → x ≠ h := by
  unfold allocIn
  rw [bind_run]
  obtain hcapped | ⟨heap₁, heq, hkeep⟩ := reserve_ends hi hsub bytes pending
  · exact .inl (hcapped.bind _)
  have hgrow := Heap.grows_insert hkeep.interned o
  refine .inr ⟨(heap₁.insert o).1, (heap₁.insert o).2, ?_, hkeep.trans (hgrow.keeps fun _ _ => id),
    ?_, ?_⟩
  · rw [heq]
    rfl
  · rw [Heap.get?_insert hkeep.interned.toTidy, if_pos rfl]
  · rintro x hr hlive rfl
    obtain ⟨o', ho'⟩ := Option.isSome_iff_exists.1 hlive
    have := Heap.isLive_of_get? (hkeep.objects _ o' hr ho')
    rw [(hkeep.interned.toTidy.insert_cells o).1] at this
    cases this

end Act

/-! ## While collection is forbidden -/

/-- Nothing is collected, and there is no ceiling. -/
structure Heap.Quiet (heap : Heap) : Prop where
  disabled : heap.collectionEnabled = false
  ceiling : heap.maxBytes = none

namespace Act

variable {s : State}

/-- Without collection there is room already or none at all. -/
theorem reserve_disabled (hq : s.heap.collectionEnabled = false) (bytes : Nat)
    (pending : List Handle) : reserve bytes pending s = .fault .heapLimit ∨
      reserve bytes pending s = .done () s := by
  unfold reserve State.collect
  grind

/-- No room has to be made. -/
theorem reserve_quiet (h : s.heap.Quiet) (bytes : Nat) (pending : List Handle) :
    reserve bytes pending s = .done () s := by
  unfold reserve Heap.shouldCollect Heap.exceedsLimit
  rw [h.disabled, h.ceiling]
  rfl

/-- An object is made at once. -/
theorem alloc_quiet (h : s.heap.Quiet) (o : Object) :
    alloc o s = .done (s.heap.insert o).2 { s with heap := (s.heap.insert o).1 } := by
  unfold alloc
  rw [bind_run, reserve_quiet h]
  rfl

/-- A text is interned at once. -/
theorem intern_quiet (h : s.heap.Quiet) (data : ByteArray) :
    intern data s = .done (s.heap.intern data).2 { s with heap := (s.heap.intern data).1 } := by
  unfold intern
  simp only [bind_run, gets_run, Proc.bind_done]
  cases hfound : s.heap.findInterned data (Text.fnv1a data) with
  | some x =>
    have heq : s.heap.intern data = (s.heap, x) := by
      unfold Heap.intern
      simp only [hfound]
    rw [heq]
    rfl
  | none =>
    simp only
    rw [bind_run, reserve_quiet h]
    rfl

end Act

namespace Heap

variable {heap : Heap}

/-- A new object allows no collection. -/
theorem Quiet.insert (h : heap.Quiet) (o : Object) : (heap.insert o).1.Quiet := by
  obtain ⟨cells, free, strings, bytes, next, first, rate, limit, disabled, stats, clear⟩ := heap
  cases free <;> exact ⟨h.disabled, h.ceiling⟩

/-- Neither does a text. -/
theorem Quiet.intern (h : heap.Quiet) (data : ByteArray) : (heap.intern data).1.Quiet := by
  unfold Heap.intern
  simp only
  split
  · exact h
  · exact ⟨(h.insert _).disabled, (h.insert _).ceiling⟩

end Heap

end ScriptEngine
