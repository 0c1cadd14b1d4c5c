import ScriptEngine.Proofs.NeutralChanges
import ScriptEngine.Proofs.CodeSafety

/-!
# What one step does to generators and classes

Apart from changes that concern neither generators nor classes, a step of a machine does at most one
thing: it leaves frames, makes, resumes, suspends or completes a generator, makes a class, has a
class inherit, or gives a class a method. After that nothing is made and nothing is collected. `Turn`
lists these, and `Moves` is a turn with what goes before and after it. Which class an instruction
makes or changes, and how, can be told before it runs.
-/

namespace ScriptEngine

open Bytecode

/-- Changes an object if it is a generator. -/
def Object.mapGenerator (f : GeneratorObject → GeneratorObject) : Object → Object
  | .generator g => .generator (f g)
  | o => o

/-- What an instruction does to a class. -/
inductive ClassEvent where
  /-- A class is made. -/
  | made (c : Handle)
  /-- A class gets a superclass and its methods. -/
  | inherits (c parent : Handle)
  /-- A class gets a method of its own. -/
  | defines (c : Handle) (name : Key) (method : Value)
  deriving DecidableEq

/-! ## Changes of contents -/

namespace State

/-- Two states with the same core module, the same generators under way and, contents of containers
and variables apart, the same objects. -/
structure Alike (s t : State) : Prop where
  core : t.core = s.core
  /-- Strings stay interned, and texts keep their keys. -/
  texts : Heap.Interned s.heap →
    Heap.Interned t.heap ∧ ∀ name, t.heap.lookupKey name = s.heap.lookupKey name
  generators : t.generators = s.generators
  objects : ∀ h, (t.heap.get? h).map Object.shell = (s.heap.get? h).map Object.shell

section Alike

variable {s t u : State}

/-- Strings stay interned. -/
theorem Alike.interned (h : s.Alike t) (hi : s.heap.Interned) : t.heap.Interned := (h.texts hi).1

/-- Nothing has changed. -/
theorem Alike.refl (s : State) : s.Alike s := ⟨rfl, fun hi => ⟨hi, fun _ => rfl⟩, rfl, fun _ => rfl⟩

/-- States that are alike, one after the other. -/
theorem Alike.trans (h : s.Alike t) (h' : t.Alike u) : s.Alike u where
  core := h'.core.trans h.core
  texts hi := ⟨h'.interned (h.interned hi), fun name =>
    ((h'.texts (h.interned hi)).2 name).trans ((h.texts hi).2 name)⟩
  generators := h'.generators.trans h.generators
  objects x := (h'.objects x).trans (h.objects x)

/-- States with one heap and the same generators running. -/
theorem alike_of_heap (hf : generatorsOf t.frames = generatorsOf s.frames)
    (hh : t.heap = s.heap) (hc : t.core = s.core) : s.Alike t :=
  ⟨hc, fun hi => by rw [hh]; exact ⟨hi, fun _ => rfl⟩, hf, fun _ => by rw [hh]⟩

@[simp] theorem alike_push (s : State) (v : Value) : s.Alike (s.push v) := alike_of_heap rfl rfl rfl

@[simp] theorem alike_truncate (s : State) (height : Nat) : s.Alike (s.truncate height) :=
  alike_of_heap rfl rfl rfl

@[simp] theorem alike_settle (s : State) (slot : Nat) : s.Alike (s.settle slot) :=
  alike_of_heap rfl rfl rfl

/-- A change of a frame that stays with its generator. -/
theorem alike_modifyFrame (s : State) {f : Frame → Frame}
    (hf : ∀ x, (f x).generator = x.generator) : s.Alike (s.modifyFrame f) :=
  alike_of_heap (s.generators_modifyFrame hf) rfl rfl

/-- Closing an upvalue. -/
theorem alike_closeUpvalue (s : State) (stack : Array Value) (h : Handle) :
    s.Alike { s with heap := closeUpvalue stack s.heap h } := by
  unfold closeUpvalue openSlot?
  split
  · next slot hslot =>
    split at hslot
    · next ho =>
      refine ⟨rfl, fun hi => ?_, rfl, fun x => ?_⟩
      · exact (hi.update (f := fun _ => .upvalue (.closed (stack.getD slot .null)))
          (by rw [ho]; nofun))
      · rw [Heap.get?_update]
        split
        · next heq =>
          rw [heq, ho]
          rfl
        · rfl
    · cases hslot
  · exact .refl s

@[simp] theorem alike_closeUpvalues (s : State) (height : Nat) :
    s.Alike (s.closeUpvalues height) := by
  have hclose : ∀ (hs : List Handle) (s : State),
      s.Alike { s with heap := hs.foldl (closeUpvalue s.stack) s.heap } := by
    intro hs
    induction hs with
    | nil => exact .refl
    | cons h hs ih =>
      intro s
      exact (s.alike_closeUpvalue s.stack h).trans (ih { s with heap := _ })
  unfold closeUpvalues
  split
  · exact .refl s
  · exact (hclose _ s).trans (alike_of_heap rfl rfl rfl)

/-- The innermost frame has other handlers. -/
def setHandlers (s : State) (handlers : List Handler) : State :=
  s.modifyFrame fun f => { f with handlers := handlers }

/-- New handlers of the innermost frame. -/
theorem alike_setHandlers (s : State) (handlers : List Handler) :
    s.Alike (s.setHandlers handlers) := s.alike_modifyFrame fun _ => rfl

/-- They concern neither generators nor classes. -/
theorem neutral_setHandlers (s : State) (handlers : List Handler) :
    s.NeutralChanges (s.setHandlers handlers) := s.neutral_modifyFrame fun _ => rfl

/-- The innermost frame with new handlers. -/
theorem frame?_setHandlers {f : Frame} (hf : s.frame? = some f) (handlers : List Handler) :
    (s.setHandlers handlers).frame? = some { f with handlers := handlers } :=
  frame?_modifyFrame hf _

/-- The handlers are the new ones. -/
theorem handlers_setHandlers {f : Frame} {handlers : List Handler}
    (hf : (s.setHandlers handlers).frame? = some f) : f.handlers = handlers := by
  cases hs : s.frame? with
  | none =>
    have hempty : s.frames = #[] := by simpa [frame?] using hs
    simp [setHandlers, modifyFrame, frame?, hempty] at hf
  | some f' =>
    rw [frame?_setHandlers hs] at hf
    cases hf
    rfl

@[simp] theorem alike_restore (s : State) (h : Handler) (v : Value) (cause : Number) :
    s.Alike (s.restore h v cause) :=
  (s.alike_closeUpvalues _).trans ((alike_truncate _ _).trans
    ((alike_push _ _).trans ((alike_push _ _).trans (alike_modifyFrame _ fun _ => rfl))))

end Alike

/-! ## Turns -/

/-- The innermost frame is left. -/
def Leave (s t : State) : Prop := ∃ f, s.frame? = some f ∧ (s.leaveFrame f).Alike t

/-- A generator that is resumed runs in a frame of its own. -/
def awaken (s : State) (g : Handle) (o : GeneratorObject) (f : Frame) : State :=
  { s with
    heap := s.heap.update g fun _ =>
      .generator { o with state := .running, stack := #[], handlers := [] }
    frames := s.frames.push f }

/-- The heap once a generator is awake. -/
theorem heap_awaken (s : State) (g : Handle) (o : GeneratorObject) (f : Frame) :
    (s.awaken g o f).heap = s.heap.update g fun _ =>
      .generator { o with state := .running, stack := #[], handlers := [] } := rfl

/-- What a step does to generators and classes. -/
inductive Turn : Option ClassEvent → State → State → Prop
  /-- Frames are left. -/
  | leave {s t : State} (h : Relation.ReflTransGen Leave s t) : Turn none s t
  /-- A generator is made in place of a frame. -/
  | make {s t : State} (o : GeneratorObject) (ho : o.state = .started)
    (h : Relation.ReflTransGen Leave
      { s with heap := (s.heap.insert (.generator o)).1 } t) : Turn none s t
  | resume {s : State} {g : Handle} {o : GeneratorObject} {f : Frame}
    (hg : s.heap.get? g = some (.generator o)) (ho : o.state = .started ∨ o.state = .suspended)
    (hf : f.generator = some g) : Turn none s (s.awaken g o f)
  | suspend {s : State} {f : Frame} {g : Handle} (hf : s.frame? = some f)
    (hg : f.generator = some g) (change : GeneratorObject → GeneratorObject)
    (hc : ∀ o, (change o).state = .suspended) :
    Turn none s (s.dropFrame.update g (Object.mapGenerator change))
  /-- A generator is completed while its frame stays. -/
  | close {s : State} {f : Frame} {g : Handle} (hf : s.frame? = some f)
    (hg : f.generator = some g) : Turn none s (s.finishGenerator g)
  | made {s : State} (text : Handle) :
    Turn (some (.made (s.heap.insert (.classObject ⟨text, none, .empty, false⟩)).2)) s
      { s with heap := (s.heap.insert (.classObject ⟨text, none, .empty, false⟩)).1 }
  | inherits {s : State} {c parent : Handle} {o p : ClassObject} (hc : s.class? c = some o)
    (hp : s.class? parent = some p) (hb : p.builtin = false) :
    Turn (some (.inherits c parent)) s (s.update c (Act.inherit parent p.methods))
  | defines {s : State} {c : Handle} {o : ClassObject} {name : Key} (method : Value)
    (hc : s.class? c = some o)
    (hn : ∃ text, s.heap.string? name.handle = some text ∧ text.hash = name.hash) :
    Turn (some (.defines c name method)) s (s.defineMethod (.object c) name method)

/-- A turn with what goes before and after it. -/
def Moves (event : Option ClassEvent) (s t : State) : Prop :=
  ∃ u v, s.NeutralChanges u ∧ Turn event u v ∧ v.Alike t

section Moves

variable {s t u : State} {event : Option ClassEvent}

/-- Changes that concern neither generators nor classes are a move without a turn. -/
theorem NeutralChanges.moves (h : s.NeutralChanges t) : Moves none s t :=
  ⟨t, t, h, .leave .refl, .refl t⟩

/-- They may come before a turn. -/
theorem Moves.of_neutralChanges (h : s.NeutralChanges t) (hm : Moves event t u) :
    Moves event s u := by
  obtain ⟨v, w, hv, hturn, hw⟩ := hm
  exact ⟨v, w, h.trans hv, hturn, hw⟩

/-- What is alike may come after it. -/
theorem Moves.alike (hm : Moves event s t) (h : t.Alike u) : Moves event s u := by
  obtain ⟨v, w, hv, hturn, hw⟩ := hm
  exact ⟨v, w, hv, hturn, hw.trans h⟩

/-- A turn is a move. -/
theorem Turn.moves (h : Turn event s t) : Moves event s t := ⟨s, t, .refl, h, .refl t⟩

/-- What is seen of the innermost frame is its generator and where it begins. -/
theorem leaveFrame_congr (s : State) {f f' : Frame} (hg : f'.generator = f.generator)
    (hb : f'.base = f.base) : s.leaveFrame f' = s.leaveFrame f := by
  unfold leaveFrame
  rw [hg, hb]

/-- Unwinding leaves frames and goes on at a handler of the last one, if it has any. -/
theorem unwindFrames_leaves (exception : Value) (count : Nat) (base : Option Nat) (s : State) :
    ∃ t, Relation.ReflTransGen Leave s t ∧ t.Alike (s.unwindFrames exception count base).1 := by
  induction count generalizing base s with
  | zero =>
    refine ⟨s, .refl, ?_⟩
    cases base with
    | none => exact alike_push s exception
    | some height => exact (s.alike_truncate height).trans (alike_push _ exception)
  | succ count ih =>
    unfold unwindFrames
    cases hf : s.frame? with
    | none => exact ⟨s, .refl, alike_push s exception⟩
    | some f =>
      dsimp only
      cases hh : f.handlers with
      | cons h rest =>
        exact ⟨s, .refl, (s.alike_setHandlers rest).trans (alike_restore _ h exception _)⟩
      | nil =>
        obtain ⟨t, ht, ha⟩ := ih (some f.base) (s.leaveFrame f)
        exact ⟨t, .head ⟨f, hf, .refl _⟩ ht, ha⟩

/-- Unwinding an exception. -/
theorem moves_unwind (h : s.NeutralChanges t) (depth : Nat) : Moves none s (t.unwind depth).1 := by
  obtain ⟨u, hu, ha⟩ := unwindFrames_leaves t.top (t.frames.size - depth) none t.drop
  exact ⟨t.drop, u, h.trans t.steps_drop, .leave hu, ha⟩

end Moves

end State

/-! ## Actions that take a turn -/

/-- What is left of an action takes a turn and ends, or changes neither generators nor classes. -/
def Proc.Turns {α : Type} (event : Option ClassEvent) : Proc α → State → Prop
  | .done _ t, s => State.Moves event s t
  | .raised t, s => event = none ∧ s.NeutralChanges t
  | .fault _, _ => True
  | .call t _ _ resume, s =>
    event = none ∧ s.NeutralChanges t ∧ ∀ ok u, (resume ok u).Within State.NeutralChange true u

namespace Proc

variable {α β : Type} {event : Option ClassEvent} {s t : State}

/-- An action without a turn. -/
theorem Within.turns {p : Proc α} (h : p.Within State.NeutralChange true s) : p.Turns none s := by
  cases p with
  | done a t => exact State.NeutralChanges.moves h
  | raised t => exact ⟨rfl, h⟩
  | fault e => trivial
  | call t method argc resume => exact ⟨rfl, h.2.1, h.2.2⟩

/-- Changes that concern neither generators nor classes may come before. -/
theorem Turns.of_neutralChanges {p : Proc α} (h : s.NeutralChanges t) (hp : p.Turns event t) :
    p.Turns event s := by
  cases p with
  | done a u => exact State.Moves.of_neutralChanges h hp
  | raised u => exact ⟨hp.1, h.trans hp.2⟩
  | fault e => trivial
  | call u method argc resume => exact ⟨hp.1, h.trans hp.2.1, hp.2.2⟩

/-- A turn comes after actions without calls that take none. -/
theorem Turns.bind {p : Proc α} {f : α → State → Proc β} (hp : p.Within State.NeutralChange false s)
    (hf : ∀ a t, (f a t).Turns none t) : (p.bind f).Turns none s := by
  cases p with
  | done a t => exact Turns.of_neutralChanges hp (hf a t)
  | raised t => exact ⟨rfl, hp⟩
  | fault e => trivial
  | call t method argc resume => cases hp.1

/-- What a result shows, if there is one. -/
def announces (p : Proc α) (shown : α → State → Option ClassEvent) : Option ClassEvent :=
  match p with
  | .done a t => shown a t
  | _ => none

/-- What an action announces is what comes of its last part. -/
theorem announces_bind (p : Proc α) (f : α → State → Proc β)
    (shown : β → State → Option ClassEvent) :
    (p.bind f).announces shown = p.announces fun a t => (f a t).announces shown := by
  cases p <;> rfl

/-- What is done to a class comes after actions without calls that take no turn. -/
theorem Turns.bind_announces {p : Proc α} {f : α → State → Proc β}
    {shown : α → State → Option ClassEvent} (hp : p.Within State.NeutralChange false s)
    (hf : ∀ a t, p = .done a t → (f a t).Turns (shown a t) t) :
    (p.bind f).Turns (p.announces shown) s := by
  cases p with
  | done a t => exact Turns.of_neutralChanges hp (hf a t rfl)
  | raised t => exact ⟨rfl, hp⟩
  | fault e => trivial
  | call t method argc resume => cases hp.1

/-- After a turn nothing changes. -/
theorem Turns.map {p : Proc α} (hp : p.Turns event s) (g : α → β) :
    (p.bind fun a t => .done (g a) t).Turns event s := by
  cases p with
  | done a t => exact hp
  | raised t => exact hp
  | fault e => trivial
  | call t method argc resume =>
    exact ⟨hp.1, hp.2.1, fun ok u => (hp.2.2 ok u).bind fun a t => .refl⟩

end Proc

namespace Act

variable {α β : Type} {event : Option ClassEvent} {s : State}

/-- Two actions without a turn in the first. -/
theorem turns_bind {x : Act α} {f : α → Act β} (hx : Within State.NeutralChange false x)
    (hf : ∀ a t, (f a t).Turns none t) : ((x >>= f) s).Turns none s :=
  Proc.Turns.bind (hx s) hf

/-- What is read is there. -/
theorem turns_require {f : State → Option α} {e : Fault} {k : α → State → Proc β} {t : State}
    (h : ∀ a, f t = some a → (k a t).Turns event s) :
    ((require f e t).bind k).Turns event s := by
  unfold require
  split
  · next a ha => exact h a ha
  · trivial

/-- An action after which the machine goes on with the next instruction. -/
theorem turns_thenNext {x : Act Unit} (hx : (x s).Turns event s) :
    (thenNext x s).Turns event s :=
  hx.map fun _ => Control.next

/-! ## Generators -/

/-- Without a frame there is nothing to return from. -/
theorem returnValue_fault (hx : s.frame? = none) (v : Value) :
    returnValue v s = .fault .noFrame := by
  unfold returnValue
  rw [bind_run, show frame s = .fault .noFrame by simp [frame, require, hx]]
  rfl

section Return

variable {f : Frame}

/-- A frame without an ensure handler is left. -/
theorem returnValue_run (hx : s.frame? = some f)
    (he : State.ensureHandler? f.handlers = none) (v : Value) :
    returnValue v s =
      .done .next ((((s.setHandlers []).leaveFrame f).truncate f.base).push v) := by
  unfold returnValue
  rw [bind_run, frame, require_run _ _ hx, Proc.bind_done, bind_run, modifyGet, State.unwindReturn,
    hx]
  simp only [he]
  rfl

/-- A frame with an ensure handler goes on there. -/
theorem returnValue_ensured (hx : s.frame? = some f) {h : Handler} {rest : List Handler}
    (he : State.ensureHandler? f.handlers = some (h, rest)) (v : Value) :
    returnValue v s = .done .next ((s.setHandlers rest).restore h v causeReturn) := by
  unfold returnValue
  rw [bind_run, frame, require_run _ _ hx, Proc.bind_done, bind_run, modifyGet, State.unwindReturn,
    hx]
  simp only [he]
  rfl

/-- What a return leaves is the innermost frame. -/
theorem leave_returned (hx : s.frame? = some f) (handlers : List Handler) (v : Value) :
    State.Leave (s.setHandlers handlers)
      ((((s.setHandlers handlers).leaveFrame f).truncate f.base).push v) := by
  refine ⟨_, State.frame?_setHandlers hx handlers, ?_⟩
  rw [State.leaveFrame_congr _ rfl rfl]
  exact (State.alike_truncate _ _).trans (State.alike_push _ _)

end Return

/-- Returning goes on at an ensure handler of the frame or leaves it. -/
theorem turns_returnValue (v : Value) (s : State) : (returnValue v s).Turns none s := by
  cases hx : s.frame? with
  | none =>
    rw [returnValue_fault hx]
    trivial
  | some f =>
    cases he : State.ensureHandler? f.handlers with
    | none =>
      rw [returnValue_run hx he]
      exact State.Moves.of_neutralChanges (s.neutral_setHandlers [])
        (State.Turn.leave (.single (leave_returned hx [] v))).moves
    | some found =>
      rw [returnValue_ensured hx he]
      exact (State.NeutralChanges.moves .refl).alike
        ((s.alike_setHandlers found.2).trans (State.alike_restore _ found.1 v causeReturn))

/-- The return instruction. -/
theorem turns_return (s : State) : (execute .return s).Turns none s :=
  turns_bind within_checkInterrupt fun _ _ => turns_bind within_pop turns_returnValue

/-- The end of a handler. -/
theorem turns_endHandler (s : State) : (endHandler s).Turns none s := by
  unfold endHandler
  refine turns_bind (within_peek 0) fun v t => ?_
  split
  · exact Proc.Within.turns (within_pure _ t)
  · refine turns_bind within_pop fun cause u => ?_
    split
    · exact turns_bind within_pop turns_returnValue
    · exact Proc.Within.turns (within_raise u)

/-- A generator is made, and the frame it is made from returns it. -/
theorem turns_makeGenerator (s : State) : (makeGenerator s).Turns none s := by
  unfold makeGenerator
  refine turns_bind within_frame fun f s => ?_
  rw [bind_run, gets_run, Proc.bind_done]
  generalize ho : (GeneratorObject.mk f.closure f.function .started f.ip (s.slotsFrom f.base)
    (lowerHandlers f.base f.handlers) .null) = o
  have hstate : o.state = .started := by rw [← ho]
  unfold alloc
  rw [bind_assoc]
  refine turns_bind (within_reserve _ _) fun _ u => ?_
  rw [bind_run, modifyGet, Proc.bind_done, bind_run, modify_run, Proc.bind_done]
  -- The frame is left without its handlers, which do not matter to what is made.
  let made : State := { u.setHandlers [] with heap := (u.heap.insert (.generator o)).1 }
  change (returnValue _ made).Turns none u
  refine Proc.Turns.of_neutralChanges (u.neutral_setHandlers []) ?_
  cases hx : made.frame? with
  | none =>
    rw [returnValue_fault hx]
    trivial
  | some x =>
    have hbare : x.handlers = [] := State.handlers_setHandlers (s := u) hx
    rw [returnValue_run hx (by rw [hbare]; rfl)]
    have hleave := leave_returned hx [] (.object (u.heap.insert (.generator o)).2)
    have hmade : made.setHandlers [] = { (u.setHandlers []).setHandlers [] with
        heap := (u.heap.insert (.generator o)).1 } := rfl
    rw [hmade] at hleave ⊢
    exact State.Moves.of_neutralChanges (State.neutral_setHandlers _ [])
      (State.Turn.make o hstate (.single hleave)).moves

/-- The slots of the frame and the cells of its variables are given up before the frame is left. -/
theorem turns_suspend {f : Frame} {g : Handle} (hx : s.frame? = some f)
    (hg : f.generator = some g) (v : Value) : (suspend g f v s).Turns none s := by
  let cut := (s.closeUpvalues f.base).truncate f.base
  have hcut : s.NeutralChanges cut := (s.steps_closeUpvalues _).trans (State.steps_truncate _ _)
  have hframe : cut.frame? = some f := (s.data_closeUpvalues f.base).frame?.trans hx
  unfold suspend
  simp only [bind_run, modify_run, Proc.bind_done, gets_run, truncate, push_run,
    dropFrame_closeUpvalues]
  refine State.Moves.of_neutralChanges hcut (State.Moves.alike (State.Turn.suspend hframe hg
    (fun o => { o with
      state := .suspended
      ip := f.ip
      stack := (s.closeUpvalues f.base).dropFrame.slotsFrom f.base
      handlers := lowerHandlers f.base f.handlers
      lastYield := v }) fun _ => rfl).moves (State.alike_push _ v))

/-- A `yield` suspends the generator. -/
theorem turns_yieldValue (s : State) : (yieldValue s).Turns none s := by
  refine turns_bind within_pop fun v s => turns_require fun f hx => ?_
  cases hg : f.generator with
  | none => trivial
  | some g => exact (turns_suspend hx hg v).map fun _ => Control.next

/-- Closing a generator completes it. -/
theorem turns_generatorClose (s : State) : (execute .generatorClose s).Turns none s := by
  refine turns_thenNext (turns_require fun f hx => ?_)
  cases hg : f.generator with
  | none => exact State.NeutralChanges.moves .refl
  | some g => exact (State.Turn.close hx hg).moves

/-! ## Calls -/

/-- A generator that is not resumed raises an exception. -/
theorem turns_resumeGenerator {g : Handle} {o : GeneratorObject}
    (hg : s.heap.get? g = some (.generator o)) (argc : Nat) :
    (resumeGenerator g o argc s).Turns none s := by
  have hfail : ∀ (c : CoreClass) (message : String) (t : State), s.NeutralChanges t →
      (fail c message t : Proc Unit).Turns none s := fun c message t h =>
    Proc.Turns.of_neutralChanges h (Proc.Within.turns (within_fail c message t))
  unfold resumeGenerator
  split
  · exact hfail _ _ s .refl
  split
  · exact hfail _ _ s .refl
  next hdone hrunning =>
  have hstate : o.state = .started ∨ o.state = .suspended := by
    cases ho : o.state <;> simp_all
  split
  · exact hfail _ _ s .refl
  rw [bind_run, atFrameLimit, gets_run, Proc.bind_done]
  split
  · exact hfail _ _ s .refl
  dsimp only
  -- All that happens but for waking the generator happens to the stack.
  have hwoken : ∀ (f : Frame) (values : Array Value), f.generator = some g →
      State.Moves none s { s.awaken g o f with stack := values } := fun f values hf =>
    (State.Turn.resume hg hstate hf).moves.alike (State.alike_of_heap rfl rfl rfl)
  split
  all_goals
    simp only [bind_run, pop, pure_run, Proc.bind_done]
    refine turns_require fun base _ => ?_
    simp only [truncate, modify_run, Proc.bind_done]
    refine turns_require fun function _ => ?_
    simp only
    split
    all_goals exact hwoken _ _ rfl

/-- Calling a value may make or resume a generator. -/
theorem turns_enterValue (argc : Nat) (s : State) : (enterValue argc s).Turns none s := by
  refine turns_bind (within_start _) fun callee s => turns_bind (within_slotAt _) fun v s => ?_
  cases v with
  | object h =>
    refine turns_require fun o ho => ?_
    cases o with
    | generator g => exact (turns_resumeGenerator ho argc).map fun _ => Control.next
    | closure f upvalues =>
      exact Proc.Within.turns (((neutral_callClosure h f argc).bind fun _ => within_pure _) s)
    | native n =>
      exact Proc.Within.turns (((within_callNative n argc).bind fun _ => within_pure _) s)
    | classObject c => exact Proc.Within.turns (within_callClass h c argc s)
    | boundMethod receiver method =>
      exact Proc.Within.turns (((within_setSlotAt _ _).bind fun _ => within_pure _) s)
    | _ => exact Proc.Within.turns (within_notCallable _ s)
  | _ => exact Proc.Within.turns (within_notCallable _ s)

/-- Calling a method is no turn. -/
theorem neutral_enterMethod {r : State → State → Prop} [AdmitsNeutralChanges r] (method : Value)
    (argc : Nat) :
    Within r true (enterMethod method argc) := by
  unfold enterMethod
  repeat' first | with_reducible refine Within.bind ?_ fun _ => ?_ | split
  all_goals first | exact neutral_callClosure _ _ argc | simp

/-! ## Classes -/

/-- The class on top of the stack, with the name and the object of a method of the host. -/
def nativeMethodOf (index : UInt16) : Act (Value × Key × Value) := do
  let owner ← peek 0
  let h ← resolveNative (← declaration index) owner.handle?
  let text ← gets fun s =>
    match s.heap.get? h with
    | some (.native n) => n.name
    | _ => ""
  let name ← internKey text
  return (owner, name, .object h)

/-- The class below a method, with the name of the method. -/
def methodOf (index : UInt16) : Act (Value × Key × Value) := do
  let name ← name index
  let method ← pop
  let owner ← peek 0
  return (owner, name, method)

/-- A class gets a method, unless it is no class. -/
def defined (owner : Value) (name : Key) (method : Value) (s : State) : Option ClassEvent :=
  match owner with
  | .object c => if (s.class? c).isSome then some (.defines c name method) else none
  | _ => none

/-- A class inherits from another one, unless one of them is no class or the other one is closed to
scripts. -/
def inherited (c parent : Value) (s : State) : Option ClassEvent :=
  match c, parent with
  | .object c, .object parent =>
    match s.class? c, s.class? parent with
    | some _, some p => if p.builtin then none else some (.inherits c parent)
    | _, _ => none
  | _, _ => none

/-- The class that an instruction makes or changes, and how. -/
def declared : Op → State → Option ClassEvent
  | .newClass i, s =>
    ((do alloc (.classObject ⟨← constantHandle i, none, .empty, false⟩) : Act Handle) s).announces
      fun c _ => some (.made c)
  | .subclass, s =>
    match s.peek? 0, s.peek? 1 with
    | some c, some parent => inherited c parent s
    | _, _ => none
  | .defMethod i, s =>
    (methodOf i s).announces fun (owner, name, method) s => defined owner name method s
  | .nativeMethod i, s =>
    (nativeMethodOf i s).announces fun (owner, name, method) s => defined owner name method s
  | _, _ => none

/-- Making a class announces the class. -/
theorem declared_newClass (i : UInt16) (s : State) :
    declared (.newClass i) s =
      ((do alloc (.classObject ⟨← constantHandle i, none, .empty, false⟩) : Act Handle) s).announces
        fun c _ => some (.made c) :=
  rfl

/-- Letting a class inherit announces the superclass, if it is a class that may be inherited
from. -/
theorem declared_subclass {c parent : Value} (hc : s.peek? 0 = some c)
    (hparent : s.peek? 1 = some parent) : declared .subclass s = inherited c parent s := by
  unfold declared
  dsimp only
  rw [hc, hparent]

/-- Giving a class a method, in two parts. -/
theorem execute_defMethod (i : UInt16) : execute (.defMethod i) = thenNext (do
    let (owner, name, method) ← methodOf i
    modify (·.defineMethod owner name method)) := by
  simp only [execute, methodOf, bind_assoc, pure_bind]

/-- Giving a class a method of the host, in two parts. -/
theorem execute_nativeMethod (i : UInt16) : execute (.nativeMethod i) = thenNext (do
    let (owner, name, method) ← nativeMethodOf i
    modify (·.defineMethod owner name method)) := by
  simp only [nativeMethodOf, bind_assoc, pure_bind]
  rfl

/-- Making a class is a turn. -/
theorem turns_newClass (i : UInt16) (s : State) :
    (execute (.newClass i) s).Turns (declared (.newClass i) s) s := by
  refine turns_thenNext ?_
  rw [declared_newClass, bind_run, bind_run, Proc.announces_bind]
  refine Proc.Turns.bind_announces (within_constantHandle i s) fun text t _ => ?_
  rw [alloc, bind_run, bind_run, Proc.announces_bind, bind_run, Proc.bind_assoc]
  refine Proc.Turns.bind_announces (within_reserve _ _ t) fun _ u _ => ?_
  exact (State.Turn.made text).moves.alike (State.alike_push _ _)

/-- Of an object that is no class nothing changes. -/
theorem neutral_update {c : Handle} (hc : s.class? c = none) {f : Object → Object}
    (hf : ∀ o, (∀ k, o ≠ .classObject k) → f o = o) : s.NeutralChanges (s.update c f) := by
  have hsame : ∀ o, s.heap.get? c = some o → (f o).shell = o.shell := by
    intro o ho
    rw [hf o]
    rintro k rfl
    simp [State.class?, ho] at hc
  exact Relation.ReflTransGen.trans (State.steps_heap (.update c f hsame))
    (.single (.hostChange (.heap (.resize c))))

/-- Only a class inherits, and only from a class that is open to scripts. -/
theorem turns_subclass (s : State) :
    (execute .subclass s).Turns (declared .subclass s) s := by
  refine turns_thenNext ?_
  refine turns_require fun parent hparent => turns_require fun c hc => ?_
  rw [declared_subclass hc hparent]
  have hfail : ∀ (c : CoreClass) (message : String),
      (fail c message s : Proc Unit).Turns none s := fun c message =>
    Proc.Within.turns (within_fail c message s)
  cases c with
  | object c =>
    cases parent with
    | object h =>
      refine turns_require fun o ho => ?_
      cases o with
      | classObject p =>
        have hp : s.class? h = some p := by simp [State.class?, ho]
        cases hclass : s.class? c with
        | none =>
          simp only [inherited, hclass]
          split
          · exact Proc.Within.turns (((within_gets _).bind fun name => within_fail _ _) s)
          · refine State.NeutralChanges.moves (neutral_update hclass fun o ho => ?_)
            cases o with
            | classObject k => exact absurd rfl (ho k)
            | _ => rfl
        | some k =>
          simp only [inherited, hclass, hp]
          cases hb : p.builtin with
          | true => exact Proc.Within.turns (((within_gets _).bind fun name => within_fail _ _) s)
          | false => exact (State.Turn.inherits hclass hp hb).moves
      | _ =>
        have hp : s.class? h = none := by simp [State.class?, ho]
        have hnone : inherited (.object c) (.object h) s = none := by
          simp only [inherited, hp]
          split <;> simp_all
        rw [hnone]
        exact hfail _ _
    | _ => exact hfail _ _
  | _ => trivial

/-- Of a value that is no class nothing changes. -/
theorem turns_defineMethod (owner : Value) {name : Key} (hn : Names s name) (method : Value) :
    Proc.Turns (defined owner name method s) (.done () (s.defineMethod owner name method)) s := by
  cases owner with
  | object c =>
    cases hc : s.class? c with
    | none =>
      simp only [defined, hc, Option.isSome_none, Bool.false_eq_true, if_false]
      refine State.NeutralChanges.moves (neutral_update hc fun o ho => ?_)
      cases o with
      | classObject k => exact absurd rfl (ho k)
      | _ => rfl
    | some k =>
      simp only [defined, hc, Option.isSome_some, if_true]
      exact (State.Turn.defines method hc hn).moves
  | _ => exact State.NeutralChanges.moves .refl

/-- Giving a class a method is a turn. -/
theorem turns_defMethod (i : UInt16) (s : State) :
    (execute (.defMethod i) s).Turns (declared (.defMethod i) s) s := by
  rw [execute_defMethod]
  refine turns_thenNext (Proc.Turns.bind_announces ?_ fun found t hfound => ?_)
  · exact ((within_name i).bind fun _ => within_pop.bind fun _ => (within_peek 0).bind fun _ =>
      within_pure _) s
  · obtain ⟨owner, name, method⟩ := found
    -- The name was read before the method was popped.
    unfold methodOf at hfound
    rw [bind_run] at hfound
    obtain ⟨name', _, hname, hpop⟩ := bind_eq_done.1 hfound
    obtain ⟨rfl, hnames⟩ := name_run hname
    obtain ⟨m, _, hm, hpeek⟩ := bind_eq_done.1 hpop
    cases hm
    obtain ⟨owner', _, howner, hend⟩ := bind_eq_done.1 hpeek
    obtain ⟨-, rfl⟩ := require_eq_done.1 howner
    cases hend
    exact turns_defineMethod (s := State.drop _) _ hnames _

/-- What an action without calls has done. -/
theorem neutral_done {x : Act α} (hx : Within State.NeutralChange false x) {a : α} {t : State}
    (h : x s = .done a t) : s.NeutralChanges t := hx.done h

/-- Giving a class a method of the host is a turn. -/
theorem turns_nativeMethod (hi : s.heap.Interned) (i : UInt16) :
    (execute (.nativeMethod i) s).Turns (declared (.nativeMethod i) s) s := by
  rw [execute_nativeMethod]
  refine turns_thenNext (Proc.Turns.bind_announces ?_ fun found t hfound => ?_)
  · exact ((within_peek 0).bind fun _ => (within_declaration i).bind fun _ =>
      (neutral_resolveNative _ _).bind fun _ => (within_gets _).bind fun _ =>
        (within_internKey _).bind fun _ => within_pure _) s
  · obtain ⟨owner, name, method⟩ := found
    unfold nativeMethodOf at hfound
    rw [bind_run] at hfound
    obtain ⟨_, u, howner, hd⟩ := bind_eq_done.1 hfound
    obtain ⟨d, u₁, hd, hresolve⟩ := bind_eq_done.1 hd
    obtain ⟨h, u₂, hresolve, htext⟩ := bind_eq_done.1 hresolve
    obtain ⟨text, u₃, htext, hkey⟩ := bind_eq_done.1 htext
    cases htext
    have hneutral : s.NeutralChanges u₂ := (neutral_done (within_peek 0) howner).trans
      ((neutral_done (within_declaration i) hd).trans
        (neutral_done (neutral_resolveNative d _) hresolve))
    cases hkey
    obtain ⟨hi', hname⟩ := Heap.grows_internKey (hneutral.interned hi) _
    obtain ⟨hmem, hstring⟩ := hi'.interned.lookupKey.1 hname
    refine turns_defineMethod (s := { u₂ with heap := (u₂.heap.internKey _).1 }) owner
      ⟨_, hstring, ?_⟩ (.object h)
    exact (hi'.interned.hash_lookupKey hname).2.symm

/-- What an instruction does to generators and classes. -/
theorem turns_execute (hi : s.heap.Interned) (op : Op) :
    (execute op s).Turns (declared op s) s := by
  cases hd : op.declares with
  | true =>
    cases op with
    | newClass i => exact turns_newClass i s
    | subclass => exact turns_subclass s
    | defMethod i => exact turns_defMethod i s
    | nativeMethod i => exact turns_nativeMethod hi i
    | _ => cases hd
  | false =>
    have hnone : declared op s = none := by
      cases op <;> first | rfl | cases hd
    rw [hnone]
    cases ht : op.turns with
    | false => exact Proc.Within.turns (neutral_execute ht hd s)
    | true =>
      cases op with
      | «return» => exact turns_return s
      | endHandler => exact turns_endHandler s
      | generator => exact turns_makeGenerator s
      | yield => exact turns_yieldValue s
      | generatorClose => exact turns_generatorClose s
      | _ => cases ht

end Act

end ScriptEngine
