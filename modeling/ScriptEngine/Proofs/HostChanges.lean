import Mathlib.Logic.Relation
import ScriptEngine.Machine.Run
import ScriptEngine.Proofs.Allocation

/-!
# What host-side code may change

`HostChange` lists, one by one, the changes that host-side code makes: it works on the stack, makes
objects that are neither code nor classes, changes containers, variables and fields in place, and
collects garbage. An action stays within a relation of states if all it does is a number of such steps, from
where it begins or from where a script call that it waits for has left off, whatever that call did.
Actions are composed of actions that stay within the relation throughout, so that there is one rule
for each way of composing and one lemma for each action. The lemmas hold of every relation that
admits the changes of host-side code, where the only traces recorded are of the active frames.
-/

namespace ScriptEngine

/-! ## Changes -/

/-- What of an object stays when host-side code changes it in place. -/
def Object.shell : Object → Object
  | .list _ => .list #[]
  | .table _ => .table .empty
  | .instanceOf owner _ => .instanceOf owner .empty
  | .module name _ => .module name .empty
  | .upvalue _ => .upvalue (.closed .null)
  | o => o

/-- Whether an object holds neither code nor a place in code, is no class, and carries the hash of
its octets if it is a string. -/
@[simp, reducible] def Object.isLight : Object → Bool
  | .function _ | .closure _ _ | .native _ | .generator _ | .classObject _ => false
  | .string s => s.hash == Text.fnv1a s.data
  | .list _ | .tuple _ | .table _ | .instanceOf _ _ | .boundMethod _ _ | .module _ _
  | .stackTrace _ | .upvalue _ => true

/-- A change of a heap by host-side code. A collection has at least the given roots. -/
inductive Heap.HostChange (roots : List Handle) (heap : Heap) : Heap → Prop
  | insert (o : Object) (ho : o.isLight = true) : HostChange roots heap (heap.insert o).1
  | intern (data : ByteArray) : HostChange roots heap (heap.intern data).1
  | update (h : Handle) (f : Object → Object)
    (hf : ∀ o, heap.get? h = some o → (f o).shell = o.shell) :
    HostChange roots heap (heap.update h f)
  | resize (h : Handle) : HostChange roots heap (heap.resize h)
  | collect (more : List Handle) : HostChange roots heap (heap.collect (roots ++ more)).1
  | disable (count : Nat) : HostChange roots heap { heap with disabled := count }

/-- A change of a state by host-side code. -/
inductive State.HostChange (s : State) : State → Prop
  | stack (values : Array Value) : HostChange s { s with stack := values }
  | upvalues (opened : List Handle) : HostChange s { s with openUpvalues := opened }
  | host (base : Nat) (interrupt : Bool) (output : Array String) :
    HostChange s { s with apiBase := base, interrupt := interrupt, output := output }
  | heap {heap : Heap} (h : Heap.HostChange s.roots s.heap heap) :
    HostChange s { s with heap := heap }

/-- A relation of states that admits the changes of host-side code. -/
class AdmitsHostChanges (r : State → State → Prop) : Prop where
  admits : ∀ {s t : State}, s.HostChange t → r s t

instance : AdmitsHostChanges State.HostChange := ⟨id⟩

/-! ## Traces -/

/-- The lines of the active frames, innermost first. -/
def State.lines (s : State) : List (Option Nat) := s.frames.toList.reverse.map Frame.line?

/-- Whether an object is light and no trace. -/
@[simp, reducible] def Object.isMute : Object → Bool
  | .stackTrace _ => false
  | o => o.isLight

/-- An object that is no trace is light as long as it is neither code nor a class. -/
theorem Object.isLight_of_isMute {o : Object} (h : o.isMute = true) : o.isLight = true := by
  cases o with
  | stackTrace records => rfl
  | _ => exact h

namespace Heap

/-- A trace that a heap has and an earlier one does not has the given lines. -/
def Records (lines : List (Option Nat)) (heap heap' : Heap) : Prop :=
  ∀ h records, heap'.get? h = some (.stackTrace records) →
    heap.get? h = some (.stackTrace records) ∨ records.map (·.line) = lines

section Records

variable {lines : List (Option Nat)} {heap heap' heap'' : Heap}

/-- No trace has been recorded. -/
theorem Records.refl (heap : Heap) : heap.Records lines heap := fun _ _ h => .inl h

/-- Traces recorded one after the other. -/
theorem Records.trans (h : heap.Records lines heap') (h' : heap'.Records lines heap'') :
    heap.Records lines heap'' :=
  fun x records hx => (h' x records hx).elim (h x records) .inr

/-- Where an object is put there was no other one that is still seen. -/
theorem get?_insert_cases (heap : Heap) (o : Object) (h : Handle) :
    (heap.insert o).1.get? h = heap.get? h ∨ (heap.insert o).1.get? h = some o := by
  obtain ⟨cells, free, strings, bytes, next, first, rate, limit, disabled, stats, clear⟩ := heap
  unfold Heap.insert get?
  cases free with
  | cons i free => grind
  | nil => grind

/-- A new object is no trace or has the given lines. -/
theorem records_insert {o : Object}
    (ho : ∀ records, o = .stackTrace records → records.map (·.line) = lines) :
    heap.Records lines (heap.insert o).1 := by
  intro h records hget
  obtain hsame | hnew := heap.get?_insert_cases o h
  · exact .inl (hsame.symm.trans hget)
  · exact .inr (ho records (Option.some.inj (hnew.symm.trans hget)))

/-- A change in place makes no trace. -/
theorem records_update {h : Handle} {f : Object → Object}
    (hf : ∀ o records, heap.get? h = some o → f o = .stackTrace records → o = .stackTrace records) :
    heap.Records lines (heap.update h f) := by
  intro x records hget
  rw [get?_update] at hget
  split at hget
  · next heq =>
    obtain ⟨o, ho, hrecords⟩ := Option.map_eq_some_iff.1 hget
    rw [hf o records (heq ▸ ho) hrecords] at ho
    exact .inl ho
  · exact .inl hget

/-- Neither does a new size. -/
theorem records_resize (heap : Heap) (h : Handle) : heap.Records lines (heap.resize h) := by
  intro x records hget
  rw [get?_resize] at hget
  exact .inl hget

/-- A collection only removes. -/
theorem records_collect (heap : Heap) (roots : List Handle) :
    heap.Records lines (heap.collect roots).1 := by
  intro x records hget
  rw [get?_collect (isLive_of_get? hget)] at hget
  exact .inl hget

/-- Neither does a text. -/
theorem records_intern (heap : Heap) (data : ByteArray) :
    heap.Records lines (heap.intern data).1 := by
  unfold Heap.intern
  dsimp only
  split
  · exact .refl heap
  · exact records_insert nofun

/-- A change of a heap by host-side code that records no trace but with the given lines. -/
structure TracedChange (roots : List Handle) (lines : List (Option Nat)) (heap heap' : Heap) :
    Prop where
  hostChange : HostChange roots heap heap'
  records : heap.Records lines heap'

variable {roots : List Handle}

/-- An object that is no trace. -/
theorem TracedChange.insert (o : Object) (ho : o.isMute = true) :
    TracedChange roots lines heap (heap.insert o).1 :=
  ⟨.insert o (Object.isLight_of_isMute ho), records_insert (by rintro records rfl; cases ho)⟩

/-- A trace of the given lines. -/
theorem TracedChange.record (records : List TraceRecord) (h : records.map (·.line) = lines) :
    TracedChange roots lines heap (heap.insert (.stackTrace records)).1 :=
  ⟨.insert _ rfl, records_insert (by rintro _ ⟨⟩; exact h)⟩

/-- A text. -/
theorem TracedChange.intern (data : ByteArray) :
    TracedChange roots lines heap (heap.intern data).1 :=
  ⟨.intern data, heap.records_intern data⟩

/-- A change in place that leaves the shell of an object. -/
theorem TracedChange.update (h : Handle) (f : Object → Object)
    (hf : ∀ o, heap.get? h = some o → (f o).shell = o.shell) :
    TracedChange roots lines heap (heap.update h f) :=
  ⟨.update h f hf, records_update fun o records ho hrecords => by
    have hshell := hf o ho
    rw [hrecords] at hshell
    cases o <;> cases hshell
    rfl⟩

/-- A new size of an object. -/
theorem TracedChange.resize (h : Handle) : TracedChange roots lines heap (heap.resize h) :=
  ⟨.resize h, heap.records_resize h⟩

/-- A collection with at least the given roots. -/
theorem TracedChange.collect (more : List Handle) :
    TracedChange roots lines heap (heap.collect (roots ++ more)).1 :=
  ⟨.collect more, heap.records_collect _⟩

/-- Collections are switched off or on. -/
theorem TracedChange.disable (count : Nat) :
    TracedChange roots lines heap { heap with disabled := count } :=
  ⟨.disable count, .refl heap⟩

end Records

end Heap

namespace State

/-- A change of a state by host-side code that records no trace but of the active frames. -/
structure TracedChange (s t : State) : Prop where
  hostChange : s.HostChange t
  records : s.heap.Records s.lines t.heap

section TracedChange

variable {s : State}

/-- Another stack. -/
theorem TracedChange.stack (values : Array Value) : s.TracedChange { s with stack := values } :=
  ⟨.stack values, .refl s.heap⟩

/-- Other open upvalues. -/
theorem TracedChange.upvalues (opened : List Handle) :
    s.TracedChange { s with openUpvalues := opened } :=
  ⟨.upvalues opened, .refl s.heap⟩

/-- Another base, flag or output of the host. -/
theorem TracedChange.host (base : Nat) (interrupt : Bool) (output : Array String) :
    s.TracedChange { s with apiBase := base, interrupt := interrupt, output := output } :=
  ⟨.host base interrupt output, .refl s.heap⟩

/-- A change of the heap. -/
theorem TracedChange.heap {heap : Heap} (h : Heap.TracedChange s.roots s.lines s.heap heap) :
    s.TracedChange { s with heap := heap } :=
  ⟨.heap h.hostChange, h.records⟩

end TracedChange

end State

/-- A relation of states that admits the changes of host-side code that record no traces but of the
active frames. -/
class AdmitsTracedChanges (r : State → State → Prop) : Prop where
  attests : ∀ {s t : State}, s.TracedChange t → r s t

instance {r : State → State → Prop} [AdmitsHostChanges r] : AdmitsTracedChanges r :=
  ⟨fun h => AdmitsHostChanges.admits h.hostChange⟩

/-! ## Changes in steps -/

namespace State

/-- One state has become another by changes of host-side code. -/
abbrev HostChanges : State → State → Prop := Relation.ReflTransGen HostChange

section HostChanges

variable {r : State → State → Prop} {s t : State}

/-- Changes of host-side code are steps of a relation that admits them. -/
theorem HostChanges.steps [AdmitsHostChanges r] (h : s.HostChanges t) :
    Relation.ReflTransGen r s t :=
  Relation.ReflTransGen.mono (fun _ _ => AdmitsHostChanges.admits) _ _ h

/-- They leave the frames alone. -/
theorem HostChange.frames (h : s.HostChange t) : t.frames = s.frames := by
  cases h <;> rfl

variable [AdmitsTracedChanges r]

/-- A change that records no trace but of the active frames is a step, too. -/
theorem TracedChange.steps (h : s.TracedChange t) : Relation.ReflTransGen r s t :=
  .single (AdmitsTracedChanges.attests h)

@[simp] theorem steps_push (s : State) (v : Value) : Relation.ReflTransGen r s (s.push v) :=
  (TracedChange.stack _).steps

@[simp] theorem steps_drop (s : State) : Relation.ReflTransGen r s s.drop :=
  (TracedChange.stack _).steps

@[simp] theorem steps_truncate (s : State) (height : Nat) :
    Relation.ReflTransGen r s (s.truncate height) := (TracedChange.stack _).steps

@[simp] theorem steps_settle (s : State) (slot : Nat) :
    Relation.ReflTransGen r s (s.settle slot) := (TracedChange.stack _).steps

/-- A change of the heap is a step. -/
theorem steps_heap {heap : Heap} (h : Heap.TracedChange s.roots s.lines s.heap heap) :
    Relation.ReflTransGen r s { s with heap := heap } := (TracedChange.heap h).steps

/-- A change of an object in place. -/
theorem steps_update (s : State) (h : Handle) {f : Object → Object}
    (hf : ∀ o, (f o).shell = o.shell) : Relation.ReflTransGen r s (s.update h f) :=
  (steps_heap (.update h f fun o _ => hf o)).trans (steps_heap (.resize h))

@[simp] theorem steps_setGlobal (s : State) (module : Handle) (key : Key) (v : Value) :
    Relation.ReflTransGen r s (s.setGlobal module key v) :=
  s.steps_update module fun o => by cases o <;> rfl

@[simp] theorem steps_appendTo (s : State) (list : Handle) (v : Value) :
    Relation.ReflTransGen r s (s.appendTo list v) :=
  s.steps_update list fun o => by cases o <;> rfl

@[simp] theorem steps_setInstanceField (s : State) (h : Handle) (key : Key) (v : Value) :
    Relation.ReflTransGen r s (s.setInstanceField h key v) :=
  s.steps_update h fun o => by cases o <;> rfl

@[simp] theorem steps_collect (s : State) (pending : List Handle) :
    Relation.ReflTransGen r s (s.collect pending).1 := by
  unfold State.collect
  split
  · exact steps_heap (.collect pending)
  · exact .refl

/-- Closing an upvalue is some steps. -/
theorem steps_closeUpvalue (s : State) (stack : Array Value) (h : Handle) :
    Relation.ReflTransGen r s { s with heap := closeUpvalue stack s.heap h } := by
  unfold closeUpvalue openSlot?
  split
  · next slot hslot =>
    split at hslot
    · next ho =>
      refine steps_heap (.update h _ fun o ho' => ?_)
      rw [ho] at ho'
      cases ho'
      rfl
    · cases hslot
  · exact .refl

@[simp] theorem steps_closeUpvalues (s : State) (height : Nat) :
    Relation.ReflTransGen r s (s.closeUpvalues height) := by
  have hclose : ∀ (hs : List Handle) (s : State),
      Relation.ReflTransGen r s { s with heap := hs.foldl (closeUpvalue s.stack) s.heap } := by
    intro hs
    induction hs with
    | nil => exact fun _ => .refl
    | cons h hs ih =>
      intro s
      exact (s.steps_closeUpvalue s.stack h).trans (ih { s with heap := _ })
  unfold closeUpvalues
  split
  · exact .refl
  · exact (hclose _ s).trans (TracedChange.upvalues _).steps

end HostChanges

end State

/-! ## Actions that stay within a relation -/

/-- What is left of an action takes steps of a relation only, from a state on and after each call.
The flag says whether it may make calls. -/
def Proc.Within {α : Type} (r : State → State → Prop) (calls : Bool) : Proc α → State → Prop
  | .done _ t, s => Relation.ReflTransGen r s t
  | .raised t, s => Relation.ReflTransGen r s t
  | .fault _, _ => True
  | .call t _ _ resume, s =>
    calls = true ∧ Relation.ReflTransGen r s t ∧ ∀ ok u, (resume ok u).Within r calls u

namespace Proc

variable {α β : Type} {r : State → State → Prop} {calls : Bool} {s t : State}

/-- What comes before may be steps of the relation. -/
theorem Within.of_steps {p : Proc α} (h : Relation.ReflTransGen r s t) (hp : p.Within r calls t) :
    p.Within r calls s := by
  cases p with
  | done a u => exact h.trans hp
  | raised u => exact h.trans hp
  | fault e => trivial
  | call u method argc resume => exact ⟨hp.1, h.trans hp.2.1, hp.2.2⟩

/-- One action after another. -/
theorem Within.bind {p : Proc α} {f : α → State → Proc β} (hp : p.Within r calls s)
    (hf : ∀ a t, (f a t).Within r calls t) : (p.bind f).Within r calls s := by
  induction p generalizing s with
  | done a u => exact (hf a u).of_steps hp
  | raised u => exact hp
  | fault e => trivial
  | call u method argc resume ih => exact ⟨hp.1, hp.2.1, fun ok u => ih ok u (hp.2.2 ok u)⟩

/-- An action whose exceptions are caught. -/
theorem Within.attempt {p : Proc Unit} (hp : p.Within r calls s) :
    p.attempt.Within r calls s := by
  induction p generalizing s with
  | done a u => exact hp
  | raised u => exact hp
  | fault e => trivial
  | call u method argc resume ih => exact ⟨hp.1, hp.2.1, fun ok u => ih ok u (hp.2.2 ok u)⟩

/-- More may be allowed: larger steps, and calls. -/
theorem Within.mono {r' : State → State → Prop} {calls' : Bool} {p : Proc α}
    (hp : p.Within r calls s) (hr : ∀ s t, r s t → r' s t) (hc : calls = true → calls' = true) :
    p.Within r' calls' s := by
  induction p generalizing s with
  | done a u => exact Relation.ReflTransGen.mono hr _ _ hp
  | raised u => exact Relation.ReflTransGen.mono hr _ _ hp
  | fault e => trivial
  | call u method argc resume ih =>
    exact ⟨hc hp.1, Relation.ReflTransGen.mono hr _ _ hp.2.1, fun ok u => ih ok u (hp.2.2 ok u)⟩

end Proc

/-- Actions one after another may be grouped in any way. -/
theorem Proc.bind_assoc {α β γ : Type} (p : Proc α) (f : α → State → Proc β)
    (g : β → State → Proc γ) : (p.bind f).bind g = p.bind fun a s => (f a s).bind g := by
  induction p with
  | done a s => rfl
  | raised s => rfl
  | fault e => rfl
  | call s method argc resume ih =>
    simp only [Proc.bind]
    congr
    funext ok s
    exact ih ok s

/-- An action that is followed by nothing. -/
theorem Proc.bind_end {α : Type} (p : Proc α) : p.bind .done = p := by
  induction p with
  | done a s => rfl
  | raised s => rfl
  | fault e => rfl
  | call s method argc resume ih =>
    simp only [Proc.bind]
    congr
    funext ok s
    exact ih ok s

namespace Act

instance : LawfulMonad Act :=
  LawfulMonad.mk' Act (fun x => funext fun s => (x s).bind_end) (fun _ _ => rfl)
    fun x f g => funext fun s => (x s).bind_assoc (fun a s => f a s) fun b s => g b s

/-- An action that ends is one whose parts have ended. -/
theorem bind_eq_done {α β : Type} {p : Proc α} {f : α → State → Proc β} {b : β} {t : State} :
    p.bind f = .done b t ↔ ∃ a u, p = .done a u ∧ f a u = .done b t := by
  cases p with
  | done a u =>
    refine ⟨fun hr => ⟨a, u, rfl, hr⟩, ?_⟩
    rintro ⟨_, _, ⟨⟩, hr⟩
    exact hr
  | raised u => simp [Proc.bind]
  | fault e => simp [Proc.bind]
  | call u method argc resume => simp [Proc.bind]

/-- A requirement that is met gives what was asked for and changes nothing. -/
theorem require_eq_done {α : Type} {f : State → Option α} {e : Fault} {a : α} {s t : State} :
    require f e s = .done a t ↔ f s = some a ∧ t = s := by
  unfold require
  cases f s with
  | none => simp
  | some b => simp [eq_comm]

/-- The action takes steps of a relation only, wherever it begins. The flag says whether it may make
calls. -/
def Within {α : Type} (r : State → State → Prop) (calls : Bool) (x : Act α) : Prop :=
  ∀ s, (x s).Within r calls s

section Rules

variable {α β : Type} {r : State → State → Prop} {calls : Bool}

@[simp] theorem Within.bind {x : Act α} {f : α → Act β} (hx : Within r calls x)
    (hf : ∀ a, Within r calls (f a)) : Within r calls (x >>= f) :=
  fun s => (hx s).bind fun a t => hf a t

/-- An action that has ended has made steps. -/
theorem Within.done {x : Act α} (hx : Within r calls x) {a : α} {s t : State}
    (h : x s = .done a t) : Relation.ReflTransGen r s t := by
  have hs := hx s
  rwa [h] at hs

@[simp] theorem within_pure (a : α) : Within r calls (pure a : Act α) := fun _ => .refl

@[simp] theorem Within.map {x : Act α} (hx : Within r calls x) (f : α → β) :
    Within r calls (f <$> x) :=
  fun s => (hx s).bind fun _ _ => .refl

@[simp] theorem within_fault (e : Fault) : Within r calls (fault e : Act α) := fun _ => trivial

@[simp] theorem within_raise : Within r calls (raise : Act α) := fun _ => .refl

@[simp] theorem within_gets (f : State → α) : Within r calls (gets f) := fun _ => .refl

@[simp] theorem within_require (f : State → Option α) (e : Fault) :
    Within r calls (require f e) := by
  intro s
  unfold require
  split
  · exact .refl
  · trivial

@[simp] theorem within_modify {f : State → State}
    (h : ∀ s : State, Relation.ReflTransGen r s (f s)) : Within r calls (modify f) := h

@[simp] theorem Within.attempt {x : Act Unit} (h : Within r calls x) :
    Within r calls (attempt x) :=
  fun s => (h s).attempt

@[simp] theorem Within.ite {p : Prop} [Decidable p] {x y : Act α} (hx : Within r calls x)
    (hy : Within r calls y) : Within r calls (if p then x else y) := by
  split
  · exact hx
  · exact hy

@[simp] theorem Within.mapM {f : α → Act β} (hf : ∀ a, Within r calls (f a)) (as : List α) :
    Within r calls (as.mapM f) := by
  induction as with
  | nil => exact within_pure []
  | cons a as ih =>
    rw [List.mapM_cons]
    exact .bind (hf a) fun b => .bind ih fun bs => within_pure (b :: bs)

@[simp] theorem within_callSync (argc : Nat) : Within r true (callSync argc) := by
  intro s
  refine ⟨rfl, .refl, fun ok u => ?_⟩
  cases ok <;> exact .refl

@[simp] theorem within_callMethodSync (method : Value) (argc : Nat) :
    Within r true (callMethodSync method argc) := by
  intro s
  refine ⟨rfl, .refl, fun ok u => ?_⟩
  cases ok <;> exact .refl

/-- An action after which the machine goes on with the next instruction. -/
theorem Within.thenNext {x : Act Unit} (hx : Within r calls x) : Within r calls (thenNext x) :=
  hx.bind fun _ => within_pure _

end Rules

/-! ## Reading the state -/

section Reading

variable {r : State → State → Prop} {calls : Bool}

@[simp] theorem within_peek (distance : Nat) : Within r calls (peek distance) :=
  within_require _ _

@[simp] theorem within_start (count : Nat) : Within r calls (start count) := within_require _ _

@[simp] theorem within_slotAt (index : Nat) : Within r calls (slotAt index) := within_require _ _

@[simp] theorem within_object (h : Handle) : Within r calls (object h) := within_require _ _

@[simp] theorem within_frame : Within r calls frame := within_require _ _

@[simp] theorem within_height : Within r calls height := within_gets _

@[simp] theorem within_special (name : Special) : Within r calls (special name) := within_gets _

@[simp] theorem within_classOf (v : Value) : Within r calls (classOf v) := within_require _ _

@[simp] theorem within_testClass (v : Value) (c : Handle) : Within r calls (testClass v c) :=
  within_require _ _

@[simp] theorem within_findMethod (v : Value) (name : Special) :
    Within r calls (findMethod v name) :=
  (within_classOf v).bind fun _ => within_gets _

end Reading

/-! ## The stack, the heap and exceptions -/

section Primitives

variable {α : Type} {r : State → State → Prop} [AdmitsTracedChanges r] {calls : Bool}

@[simp] theorem within_stack (f : State → Array Value) :
    Within r calls (modify fun s => { s with stack := f s }) :=
  within_modify fun _ => (State.TracedChange.stack _).steps

@[simp] theorem within_push (v : Value) : Within r calls (push v) :=
  within_modify fun s => s.steps_push v

@[simp] theorem within_pop : Within r calls pop := fun s => s.steps_drop

@[simp] theorem within_dropMany (n : Nat) : Within r calls (dropMany n) := by
  induction n with
  | zero => exact within_pure ()
  | succ n ih => exact .bind (within_modify State.steps_drop) fun _ => ih

@[simp] theorem within_setSlotAt (index : Nat) (v : Value) :
    Within r calls (setSlotAt index v) := by
  intro s
  unfold setSlotAt
  split
  · exact (State.TracedChange.stack _).steps
  · trivial

@[simp] theorem within_truncate (height : Nat) : Within r calls (truncate height) :=
  within_modify fun s => s.steps_truncate height

@[simp] theorem within_replaceTop (count : Nat) (v : Value) :
    Within r calls (replaceTop count v) :=
  (within_dropMany count).bind fun _ => within_push v

/-- Making room may collect garbage. -/
theorem within_reserve (bytes : Nat) (pending : List Handle) :
    Within r calls (reserve bytes pending) := by
  intro s
  unfold reserve
  split
  · split
    next t c hc =>
    have ht : Relation.ReflTransGen r s t := by
      have := s.steps_collect pending (r := r)
      rwa [hc] at this
    split
    · trivial
    · exact ht
  · exact .refl

@[simp] theorem within_alloc {o : Object} (ho : o.isMute = true) : Within r calls (alloc o) :=
  (within_reserve _ _).bind fun _ _ => State.steps_heap (.insert o ho)

@[simp] theorem within_newString (data : ByteArray) : Within r calls (newString data) :=
  (within_reserve _ _).bind fun _ _ => State.steps_heap (.insert _ (beq_self_eq_true _))

@[simp] theorem within_pushText (text : String) : Within r calls (pushText text) := by
  simp [pushText]

@[simp] theorem within_intern (data : ByteArray) : Within r calls (intern data) :=
  (within_gets _).bind fun
    | some h => within_pure h
    | none => (within_reserve _ _).bind fun _ _ => State.steps_heap (.intern data)

@[simp] theorem within_internKey (name : String) : Within r calls (internKey name) :=
  fun _ => State.steps_heap (.intern _)

/-- An action during which nothing is collected. -/
theorem Within.withoutCollection {x : Act α} (hx : Within r calls x) :
    Within r calls (withoutCollection x) :=
  .bind (within_modify fun _ => State.steps_heap (.disable _)) fun _ =>
    hx.bind fun a => .bind (within_modify fun _ => State.steps_heap (.disable _)) fun _ =>
      within_pure a

/-- The lines are those of the active frames, whatever was collected since they were read. -/
theorem within_record (s : State) : (alloc (.stackTrace s.trace) s).Within r calls s := by
  have hrecord : ∀ t : State, t.frames = s.frames →
      Relation.ReflTransGen r t { t with heap := (t.heap.insert (.stackTrace s.trace)).1 } := by
    refine fun t ht => State.steps_heap (.record _ ?_)
    unfold State.lines
    rw [ht, State.trace, List.map_map]
    rfl
  have hcollect : ∀ pending, (s.collect pending).1.frames = s.frames := by
    intro pending
    unfold State.collect
    split <;> rfl
  unfold alloc
  rw [bind_run]
  unfold reserve
  split
  · dsimp only
    split
    · trivial
    · exact (s.steps_collect _).trans (hrecord _ (hcollect _))
  · exact hrecord s rfl

@[simp] theorem within_recordTrace (h : Handle) : Within r calls (recordTrace h) := by
  intro s
  unfold recordTrace
  rw [bind_run, gets_run, Proc.bind_done, bind_run]
  exact (within_record s).bind fun trace =>
    within_modify fun s => s.steps_setInstanceField h _ (.object trace)

@[simp] theorem within_failWith (c : Handle) (message : String) :
    Within r calls (failWith c message : Act α) := by
  unfold failWith
  repeat' with_reducible refine Within.bind ?_ fun _ => ?_
  all_goals simp

@[simp] theorem within_fail (c : CoreClass) (message : String) :
    Within r calls (fail c message : Act α) :=
  (within_gets _).bind fun h => within_failWith h message

@[simp] theorem within_raiseTop : Within r calls (raiseTop : Act α) := by
  unfold raiseTop
  repeat' first | with_reducible refine Within.bind ?_ fun _ => ?_ | split
  all_goals simp

@[simp] theorem within_checkInterrupt : Within r calls checkInterrupt := by
  intro s
  unfold checkInterrupt
  split
  · exact (within_fail _ _ { s with interrupt := false }).of_steps
      (State.TracedChange.host s.apiBase false s.output).steps
  · exact .refl

@[simp] theorem within_noMethod (c : Handle) (name : Key) :
    Within r calls (noMethod c name : Act α) := by
  simp [noMethod]

@[simp] theorem within_noName (module : Handle) (name : Key) :
    Within r calls (noName module name : Act α) := by
  simp [noName]

@[simp] theorem within_bindMethod (receiver method : Value) :
    Within r calls (bindMethod receiver method) := by
  cases method with
  | object h => exact (within_alloc (o := .boundMethod receiver h) rfl).bind fun _ => within_pure _
  | _ => exact within_pure _

end Primitives

end Act

end ScriptEngine
