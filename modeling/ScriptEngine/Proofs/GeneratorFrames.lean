import ScriptEngine.Proofs.Lives
import ScriptEngine.Proofs.Unwinding

/-!
# Frames of generators

The body of a generator runs in a frame with the closure and the function that the generator was made
of. A generator is resumed with them, and nothing gives a generator or a frame others. `BodiesMatch`
says so of a state, and holds in every state of every run.

What a machine does is a number of steps of any relation that its actions, unwinding and the host in
between stay within: `AdmitsRuns` says that of a relation, and what holds of a single step then holds
of runs.
-/

namespace ScriptEngine

open Bytecode

namespace State

/-- Every frame of a generator has the closure and the function of the generator. -/
def BodiesMatch (s : State) : Prop :=
  ∀ x ∈ bodiesOf s.frames, ∃ o, s.heap.get? x.1 = some (.generator o) ∧
    o.closure = x.2.1 ∧ o.function = x.2.2

/-- A change after which frames of generators are as before. -/
def KeepsBodies (s t : State) : Prop := s.heap.Interned → s.BodiesMatch →
    t.heap.Interned ∧ t.BodiesMatch

section KeepsBodies

variable {s t : State} {f : Frame} {g : Handle} {o : GeneratorObject}

/-- A generator whose body runs is among those that run. -/
theorem mem_generators_of_bodies {x : Handle × Handle × Handle} (hx : x ∈ bodiesOf s.frames) :
    x.1 ∈ s.generators := by
  unfold generators
  rw [generatorsOf_eq]
  exact List.mem_map_of_mem hx

/-- No frame is new, and generators keep their code. -/
theorem keepsBodies_of_objects (hi : s.heap.Interned → t.heap.Interned)
    (hframes : ∀ x ∈ bodiesOf t.frames, x ∈ bodiesOf s.frames)
    (hobjects : ∀ g o, g ∈ s.generators → s.heap.get? g = some (.generator o) →
      ∃ o', t.heap.get? g = some (.generator o') ∧ o'.closure = o.closure ∧
        o'.function = o.function) : s.KeepsBodies t := by
  intro hinterned hs
  refine ⟨hi hinterned, fun x hx => ?_⟩
  obtain ⟨o, ho, hclosure, hfunction⟩ := hs x (hframes x hx)
  obtain ⟨o', ho', hclosure', hfunction'⟩ :=
    hobjects _ o (mem_generators_of_bodies (hframes x hx)) ho
  exact ⟨o', ho', hclosure'.trans hclosure, hfunction'.trans hfunction⟩

/-- A change that concerns no generators, and leaves the frames to their bodies. -/
theorem keepsBodies_neutral (h : s.NeutralChange t)
    (hframes : bodiesOf t.frames = bodiesOf s.frames) :
    s.KeepsBodies t := by
  intro hi
  refine keepsBodies_of_objects (fun hi => h.interned hi) (fun x hx => hframes ▸ hx)
    (fun g o hg ho => ?_) hi
  exact ⟨o, (h.lasts hi.toTidy).kept rfl ho (.inl (mem_roots_of_generators hg)), rfl, rfl⟩

/-- Whatever is made, generators stay. -/
theorem keepsBodies_insert (s : State) (o : Object) :
    s.KeepsBodies { s with heap := (s.heap.insert o).1 } := by
  intro hi
  refine keepsBodies_of_objects (fun hi => (hi.insert o).1) (fun _ hx => hx)
    (fun g o' _ hg => ?_) hi
  exact ⟨o', (Heap.get?_insert_of_live hi.toTidy o (Heap.isLive_of_get? hg)).trans hg, rfl, rfl⟩

/-- An object changes in place. A generator keeps its code. -/
theorem keepsBodies_update (s : State) (y : Handle) {f : Object → Object}
    (hf : ∀ text, f (.string text) = .string text)
    (hg : ∀ o, ∃ o', f (.generator o) = .generator o' ∧ o'.closure = o.closure ∧
      o'.function = o.function) : s.KeepsBodies (s.update y f) := by
  refine keepsBodies_of_objects (fun hi => (texts_update hi y hf).1) (fun _ hx => hx)
    fun g o _ ho => ?_
  rw [get?_update]
  split
  · obtain ⟨o', ho', hcode⟩ := hg o
    exact ⟨o', by rw [ho, Option.map_some, ho'], hcode⟩
  · exact ⟨o, ho, rfl, rfl⟩

/-- A frame is left. -/
theorem keepsBodies_dropFrame (s : State) : s.KeepsBodies s.dropFrame := by
  refine keepsBodies_of_objects id (fun x hx => ?_) fun g o _ ho => ⟨o, ho, rfl, rfl⟩
  unfold bodiesOf at hx ⊢
  rw [List.mem_filterMap] at hx ⊢
  obtain ⟨f, hf, hbody⟩ := hx
  refine ⟨f, ?_, hbody⟩
  rw [dropFrame, Array.toList_pop] at hf
  exact List.mem_of_mem_dropLast hf

/-- A generator that is resumed gets a frame with its code. -/
theorem keepsBodies_awaken {g : Handle} {o : GeneratorObject}
    (hg : s.heap.get? g = some (.generator o))
    {f : Frame} (hf : f.generatorCode = some (g, o.closure, o.function)) :
    s.KeepsBodies (s.awaken g o f) := by
  have hget : ∀ x, (s.awaken g o f).heap.get? x = if x = g then
      some (.generator { o with state := .running, stack := #[], handlers := [] })
      else s.heap.get? x := by
    intro x
    rw [heap_awaken, Heap.get?_update]
    split
    · next heq => rw [heq, hg]; rfl
    · rfl
  intro hi hs
  refine ⟨?_, fun x hx => ?_⟩
  · rw [heap_awaken]
    exact (hi.update (by rw [hg]; nofun)).1
  have hx : x ∈ bodiesOf (s.frames.push f) := hx
  rw [bodiesOf_push, hf, List.mem_append] at hx
  rw [hget]
  split
  · next heq =>
    refine ⟨_, rfl, ?_⟩
    obtain hold | hnew := hx
    · obtain ⟨o', ho', hcode⟩ := hs x hold
      rw [heq, hg] at ho'
      cases ho'
      exact hcode
    · obtain rfl := List.mem_singleton.1 hnew
      exact ⟨rfl, rfl⟩
  · next hne =>
    refine hs x (hx.resolve_right fun hnew => hne ?_)
    rw [List.mem_singleton.1 hnew]

end KeepsBodies

/-- A relation of states that admits whatever steps of a machine do. Strings do not change, generators
keep their code, and a generator that is resumed gets a frame with it. -/
class AdmitsSteps (r : State → State → Prop) : Prop extends AdmitsNeutralChanges r where
  insert : ∀ (s : State) (o : Object), r s { s with heap := (s.heap.insert o).1 }
  update : ∀ (s : State) (y : Handle) (f : Object → Object),
    (∀ text, f (.string text) = .string text) →
    (∀ o, ∃ o', f (.generator o) = .generator o' ∧ o'.closure = o.closure ∧
      o'.function = o.function) → r s (s.update y f)
  dropFrame : ∀ s : State, r s s.dropFrame
  awaken : ∀ (s : State) (g : Handle) (o : GeneratorObject) (f : Frame),
    s.heap.get? g = some (.generator o) → f.generatorCode = some (g, o.closure, o.function) →
    r s (s.awaken g o f)

instance : AdmitsSteps KeepsBodies where
  admits h := keepsBodies_neutral (.hostChange h) (congrArg bodiesOf h.frames)
  code _ o ho := keepsBodies_neutral (.code o ho) rfl
  modules s name globals _ _ := .head (keepsBodies_insert s (.module name.handle globals))
    (.single (keepsBodies_neutral (.modules _) rfl))
  frames s frames h := keepsBodies_neutral (.frames frames (by
    rw [generatorsOf_eq, h, ← generatorsOf_eq]
    rfl)) h
  reentrant _ count := keepsBodies_neutral (.reentrant count) rfl
  insert := keepsBodies_insert
  update s y _ hf hg := keepsBodies_update s y hf hg
  dropFrame := keepsBodies_dropFrame
  awaken _ _ _ _ hg hf := keepsBodies_awaken hg hf

/-! ## Leaving -/

section Leaving

variable {r : State → State → Prop} [AdmitsSteps r]

/-- A generator is completed. -/
theorem admits_finishGenerator (s : State) (g : Handle) : r s (s.finishGenerator g) :=
  AdmitsSteps.update s g _ (fun _ => rfl) fun _ => ⟨_, rfl, rfl, rfl⟩

/-- A frame is left, and its generator is completed. -/
theorem admits_leaveFrame (s : State) (f : Frame) :
    Relation.ReflTransGen r s (s.leaveFrame f) := by
  unfold leaveFrame
  refine Relation.ReflTransGen.trans (.single (AdmitsSteps.dropFrame s)) ?_
  cases f.generator with
  | none => exact steps_closeUpvalues _ f.base
  | some g => exact .head (admits_finishGenerator _ g) (steps_closeUpvalues _ f.base)

/-- New handlers of the innermost frame. -/
theorem admits_setHandlers (s : State) (handlers : List Handler) :
    Relation.ReflTransGen r s (s.setHandlers handlers) :=
  .single (AdmitsNeutralChanges.frames s _ (s.keepsBodies_modifyFrame fun _ => rfl))

/-- A handler goes on with a value and a cause. -/
theorem admits_restore (s : State) (k : Handler) (v : Value) (cause : Number) :
    Relation.ReflTransGen r s (s.restore k v cause) :=
  (steps_closeUpvalues s k.height).trans <| (steps_truncate _ _).trans <|
    (steps_push _ v).trans <| (steps_push _ _).trans <|
      .single (AdmitsNeutralChanges.frames _ _ (keepsBodies_modifyFrame _ fun _ => rfl))

/-- Frames are left until one has a handler. -/
theorem admits_unwindFrames (exception : Value) (count : Nat) (base : Option Nat) (s : State) :
    Relation.ReflTransGen r s (s.unwindFrames exception count base).1 := by
  induction count generalizing base s with
  | zero =>
    cases base with
    | none => exact steps_push s exception
    | some height => exact (steps_truncate s height).trans (steps_push _ exception)
  | succ count ih =>
    unfold unwindFrames
    cases s.frame? with
    | none => exact steps_push s exception
    | some f =>
      dsimp only
      cases f.handlers with
      | cons k rest => exact (admits_setHandlers s rest).trans (admits_restore _ k exception _)
      | nil => exact (admits_leaveFrame s f).trans (ih (some f.base) (s.leaveFrame f))

/-- An exception unwinds the frames of a call. -/
theorem admits_unwind (s : State) (depth : Nat) :
    Relation.ReflTransGen r s (s.unwind depth).1 :=
  s.steps_drop.trans (admits_unwindFrames _ _ none s.drop)

end Leaving

end State

namespace Act

open State

variable {r : State → State → Prop} [AdmitsSteps r] {calls : Bool} {s : State}

/-- A return with a value. -/
theorem admits_returnValue (v : Value) : Within r calls (returnValue v) := by
  intro s
  cases hx : s.frame? with
  | none =>
    rw [returnValue_fault hx]
    trivial
  | some f =>
    cases he : ensureHandler? f.handlers with
    | none =>
      rw [returnValue_run hx he]
      exact (admits_setHandlers s []).trans <| (admits_leaveFrame _ f).trans <|
        (steps_truncate _ f.base).trans (steps_push _ v)
    | some found =>
      rw [returnValue_ensured hx he]
      exact (admits_setHandlers s found.2).trans (admits_restore _ found.1 v causeReturn)

/-- An object is made. -/
theorem admits_alloc (o : Object) : Within r calls (alloc o) :=
  (within_reserve _ _).bind fun _ s => .single (AdmitsSteps.insert s o)

/-- A generator is made. -/
theorem admits_makeGenerator : Within r calls makeGenerator := by
  unfold makeGenerator
  refine within_frame.bind fun _ => (within_gets _).bind fun _ => ?_
  refine (admits_alloc _).bind fun _ => ?_
  exact (within_modify fun s => admits_setHandlers s []).bind fun _ => admits_returnValue _

/-- A generator is suspended. -/
theorem admits_suspend (g : Handle) (f : Frame) (v : Value) :
    Within r calls (suspend g f v) := by
  unfold suspend
  refine (within_modify fun s => .head (AdmitsSteps.dropFrame s) (steps_closeUpvalues _ _)).bind
    fun _ => ?_
  refine (within_gets _).bind fun window => (within_truncate _).bind fun _ => ?_
  refine (within_modify fun s => .single ?_).bind fun _ => within_push v
  refine AdmitsSteps.update s g _ (fun _ => rfl) fun o => ⟨_, rfl, ?_⟩
  exact ⟨rfl, rfl⟩

/-- A `yield`. -/
theorem admits_yieldValue : Within r calls yieldValue := by
  refine within_pop.bind fun v => within_frame.bind fun f => ?_
  cases f.generator with
  | none => exact within_fault _
  | some g => exact (admits_suspend g f v).bind fun _ => within_pure _

/-- The end of a handler. -/
theorem admits_endHandler : Within r calls endHandler := by
  unfold endHandler
  refine (within_peek 0).bind fun v => .ite (within_pure _) (within_pop.bind fun cause => ?_)
  exact .ite (within_pop.bind fun v => admits_returnValue v) within_raise

/-- A generator is closed. -/
theorem admits_generatorClose : Within r calls (execute .generatorClose) := by
  refine .thenNext (within_frame.bind fun f => ?_)
  cases f.generator with
  | none => exact within_pure _
  | some g => exact within_modify fun s => .single (admits_finishGenerator s g)

/-! ## Calls -/

omit [AdmitsSteps r] in
/-- What is read is there. -/
theorem within_read {α β : Type} {f : State → Option α} {e : Fault}
    {k : α → State → Proc β} {t : State} (h : ∀ a, f t = some a → (k a t).Within r calls s) :
    ((require f e t).bind k).Within r calls s := by
  unfold require
  split
  · next a ha => exact h a ha
  · trivial

/-- A generator is resumed. -/
theorem admits_resumeGenerator {g : Handle} {o : GeneratorObject}
    (hg : s.heap.get? g = some (.generator o)) (argc : Nat) :
    (resumeGenerator g o argc s).Within r calls s := by
  unfold resumeGenerator
  split
  · exact within_fail _ _ s
  split
  · exact within_fail _ _ s
  split
  · exact within_fail _ _ s
  rw [bind_run, atFrameLimit, gets_run, Proc.bind_done]
  split
  · exact within_overflow s
  dsimp only
  have hwoken : ∀ (f : Frame) (values : Array Value),
      f.generatorCode = some (g, o.closure, o.function) →
      Relation.ReflTransGen r s { s.awaken g o f with stack := values } := fun f values hf =>
    .head (AdmitsSteps.awaken s g o f hg hf) (.single (AdmitsHostChanges.admits (.stack values)))
  split
  all_goals
    simp only [bind_run, pop, pure_run, Proc.bind_done]
    refine within_read fun base _ => ?_
    simp only [truncate, modify_run, Proc.bind_done]
    refine within_read fun function _ => ?_
    simp only
    split
    all_goals exact hwoken _ _ rfl

/-- A value is called. -/
theorem admits_enterValue (argc : Nat) : Within r true (enterValue argc) := by
  refine (within_start _).bind fun callee => (within_slotAt _).bind fun v => ?_
  cases v with
  | object h =>
    intro s
    refine within_read fun o ho => ?_
    cases o with
    | generator g => exact (admits_resumeGenerator ho argc).bind fun _ _ => .refl
    | closure f upvalues => exact ((neutral_callClosure h f argc).bind fun _ => within_pure _) s
    | native n => exact ((within_callNative n argc).bind fun _ => within_pure _) s
    | classObject c => exact within_callClass h c argc s
    | boundMethod receiver method =>
      exact ((within_setSlotAt _ _).bind fun _ => within_pure _) s
    | _ => exact within_notCallable _ s
  | _ => exact within_notCallable _

/-! ## Classes -/

/-- A class changes in place. -/
theorem admits_mapClass (c : Handle) (f : ClassObject → ClassObject) (s : State) :
    r s (s.update c (Object.mapClass f)) :=
  AdmitsSteps.update s c _ (fun _ => rfl) fun o => ⟨o, rfl, rfl, rfl⟩

/-- A class is given a method. -/
theorem admits_defineMethod (owner : Value) (name : Key) (method : Value) (s : State) :
    Relation.ReflTransGen r s (s.defineMethod owner name method) := by
  cases owner with
  | object c => exact .single (admits_mapClass c _ s)
  | _ => exact .refl

/-- An instruction that makes or changes a class. -/
theorem admits_declares {op : Op} (hd : op.declares = true) : Within r calls (execute op) := by
  cases op with
  | newClass i =>
    refine .thenNext ((within_constantHandle i).bind fun text => ?_)
    exact (admits_alloc _).bind fun _ => within_push _
  | subclass =>
    refine .thenNext ?_
    unfold subclass
    repeat' first | with_reducible refine Within.bind ?_ fun _ => ?_ | split
    all_goals first | exact within_modify fun s => .single (admits_mapClass _ _ s) | simp
  | defMethod i =>
    rw [execute_defMethod]
    refine .thenNext (Within.bind ?_ fun found => within_modify fun s =>
      admits_defineMethod found.1 found.2.1 found.2.2 s)
    exact (within_name i).bind fun _ => within_pop.bind fun _ => (within_peek 0).bind fun _ =>
      within_pure _
  | nativeMethod i =>
    rw [execute_nativeMethod]
    refine .thenNext (Within.bind ?_ fun found => within_modify fun s =>
      admits_defineMethod found.1 found.2.1 found.2.2 s)
    exact (within_peek 0).bind fun _ => (within_declaration i).bind fun _ =>
      (neutral_resolveNative _ _).bind fun _ => (within_gets _).bind fun _ =>
        (within_internKey _).bind fun _ => within_pure _
  | _ => cases hd

/-- Any instruction. -/
theorem admits_execute (op : Op) : Within r true (execute op) := by
  cases hd : op.declares with
  | true => exact admits_declares hd
  | false =>
    cases ht : op.turns with
    | false => exact neutral_execute ht hd
    | true =>
      cases op with
      | «return» => exact within_checkInterrupt.bind fun _ => within_pop.bind admits_returnValue
      | endHandler => exact admits_endHandler
      | generator => exact admits_makeGenerator
      | yield => exact admits_yieldValue
      | generatorClose => exact admits_generatorClose
      | _ => cases ht

/-- Whatever a machine does. -/
theorem admits_action (control : Control) : Within r true (Machine.action control) := by
  cases control with
  | next => exact Machine.neutral_fetch.bind admits_execute
  | enter method argc =>
    cases method with
    | none => exact admits_enterValue argc
    | some method => exact neutral_enterMethod method argc
  | spread v iter next => exact within_spreadElement v iter next
  | refuse => exact within_overflow
  | leave returned => exact within_pure _

end Act

/-! ## Runs -/

/-- Actions that wait go on within a relation. -/
def Machine.Attends (r : State → State → Prop) (waiting : List Waiting) : Prop :=
  ∀ w ∈ waiting, ∀ ok u, (w.resume ok u).Within r true u

/-- A status that steps of a relation lead to, with actions waiting that go on within it. -/
def Status.Stays (r : State → State → Prop) (s : State) : Status → Prop
  | .running m => Relation.ReflTransGen r s m.state ∧ Machine.Attends r m.waiting
  | .ended _ t => Relation.ReflTransGen r s t
  | .fault _ => True

/-- What machines and their hosts do are steps of a relation. -/
class AdmitsRuns (r : State → State → Prop) : Prop extends State.AdmitsSteps r where
  register : ∀ (s : State) (name : NativeName) (f : HostFunction), r s (s.register name f)
  offer : ∀ (s : State) (modules : List (String × Bytecode.Module)),
    r s { s with importable := modules }

namespace AdmitsRuns

open Machine

variable {r : State → State → Prop} [AdmitsRuns r] {s t : State} {m m' : Machine} {call : Call}
  {waiting : List Waiting} {log : List ClassEvent} {α : Type} {p : Proc α}

omit [AdmitsRuns r] in
/-- A call starts. -/
theorem stays_start (h : Relation.ReflTransGen r s t) (method : Option Value) (argc : Nat)
    (hw : Attends r waiting) : (start t method argc waiting).Stays r s := by
  unfold start
  split
  · exact ⟨h, hw⟩
  · trivial

/-- What becomes of an action. -/
theorem stays_absorb {p : Proc Control} (hp : p.Within r true s)
    (hw : Attends r waiting) : (absorb call waiting p).Stays r s := by
  cases p with
  | done control t =>
    cases control with
    | next =>
      rw [absorb]
      split
      · exact ⟨hp, hw⟩
      split
      · exact ⟨hp, hw⟩
      · exact ⟨Relation.ReflTransGen.tail hp (AdmitsNeutralChanges.reentrant t _), hw⟩
    | _ => exact ⟨hp, hw⟩
  | raised t =>
    have hunwind := Relation.ReflTransGen.trans hp (State.admits_unwind t call.depth)
    rw [absorb]
    split
    · next u hu =>
      rw [hu] at hunwind
      exact ⟨hunwind, hw⟩
    · next u hu =>
      rw [hu] at hunwind
      exact ⟨hunwind.trans (u.steps_settle _), hw⟩
  | fault e => trivial
  | call t method argc resume =>
    exact stays_start hp.2.1 method argc (List.forall_mem_cons.2 ⟨hp.2.2, hw⟩)

/-- One step. -/
theorem stays_step (hw : Attends r m.waiting) : m.step.Stays r m.state := by
  obtain ⟨s, control, call, waiting⟩ := m
  cases control with
  | leave returned =>
    unfold step
    dsimp only
    have hleft : Relation.ReflTransGen r s (if call.entered then s.leaveScript else s) := by
      split
      · exact .single (AdmitsNeutralChanges.reentrant s _)
      · exact .refl
    cases waiting with
    | nil => exact hleft
    | cons w rest =>
      obtain ⟨hhead, hrest⟩ := List.forall_mem_cons.1 hw
      exact stays_absorb ((hhead returned _).of_steps hleft) hrest
  | _ => exact stays_absorb (Act.admits_action _ s) hw

/-- The steps of a run, with what waits for its calls. -/
theorem logs (h : m.Logs log m') (hw : Attends r m.waiting) :
    Relation.ReflTransGen r m.state m'.state ∧ Attends r m'.waiting := by
  induction h with
  | refl => exact ⟨.refl, hw⟩
  | step _ hs ih =>
    have hstep := stays_step ih.2
    rw [hs] at hstep
    exact ⟨ih.1.trans hstep.1, hstep.2⟩
  | interrupt _ asked ih =>
    exact ⟨ih.1.tail (AdmitsHostChanges.admits (hostChange_withInterrupt _ asked)), ih.2⟩

/-- The machine of a call that a host makes. -/
theorem called {method : Option Value} {argc : Nat}
    (hs : start s method argc [] = .running m) (hl : m.Logs log m') :
    Relation.ReflTransGen r s m'.state ∧ Attends r m'.waiting := by
  have hnone : Attends r [] := nofun
  have hstart := stays_start (t := s) .refl method argc hnone
  rw [hs] at hstart
  obtain ⟨hlogs, hw⟩ := logs hl hstart.2
  exact ⟨hstart.1.trans hlogs, hw⟩

/-- The machines that an action of the host runs. -/
theorem during (hd : p.During log m) (hp : p.Within r true s) :
    Relation.ReflTransGen r s m.state ∧ Attends r m.waiting := by
  induction hd generalizing s with
  | now hs hm =>
    obtain ⟨hcall, hw⟩ := called (r := r) hs hm
    exact ⟨Relation.ReflTransGen.trans hp.2.1 hcall, hw⟩
  | later hs hm hend _ ih =>
    obtain ⟨hcall, hw⟩ := called (r := r) hs hm
    have hstep := stays_step hw
    rw [hend] at hstep
    obtain ⟨hthen, hw'⟩ := ih (hp.2.2 _ _)
    exact ⟨(Relation.ReflTransGen.trans hp.2.1 hcall).trans (hstep.trans hthen), hw'⟩

/-- The states that it ends in. -/
theorem after (ha : p.After log t) (hp : p.Within r true s) :
    Relation.ReflTransGen r s t := by
  induction ha generalizing s with
  | done a u => exact hp
  | raised u => exact hp
  | call hs hm hend _ ih =>
    obtain ⟨hcall, hw⟩ := called (r := r) hs hm
    have hstep := stays_step hw
    rw [hend] at hstep
    exact (Relation.ReflTransGen.trans hp.2.1 hcall).trans (hstep.trans (ih (hp.2.2 _ _)))

/-- Everything that a host runs, and what it does in between. -/
theorem hosted {first : State} (h : Hosted first log s) (hi : first.heap.Interned) :
    Relation.ReflTransGen r first s := by
  induction h with
  | start => exact .refl
  | register _ name f ih => exact ih.tail (AdmitsRuns.register _ name f)
  | offer _ modules ih => exact ih.tail (AdmitsRuns.offer _ modules)
  | act _ hx ha ih =>
    exact ih.trans (after ha ((hx _).mono (fun _ _ hs => AdmitsHostChanges.admits hs) id))
  | eval hs name m ha ih =>
    exact ih.trans (after ha (Act.neutral_evalModule ((hs.becomes hi).interned hi) name m))

end AdmitsRuns

/-! ## Frames of generators in runs -/

instance : AdmitsRuns State.KeepsBodies where
  register _ _ _ hi hs := ⟨hi, hs⟩
  offer _ _ hi hs := ⟨hi, hs⟩

/-- Whatever steps keep bodies matched, bodies match in the end. -/
theorem State.bodiesMatch_of_keeps {s t : State} (h : Relation.ReflTransGen KeepsBodies s t)
    (hi : s.heap.Interned) (hs : s.BodiesMatch) : t.heap.Interned ∧ t.BodiesMatch := by
  induction h with
  | refl => exact ⟨hi, hs⟩
  | tail _ h ih => exact h ih.1 ih.2

/-- In every run, the body of a generator runs with the closure and the function that the generator
was made of. -/
theorem Hosted.bodiesMatch {settings : Settings} {log log' : List ClassEvent} {s : State}
    (h : Hosted (.create settings) log s) {name : String} {module : Bytecode.Module} {m : Machine}
    (hd : (Act.evalModule name module s).During log' m) : m.state.BodiesMatch := by
  have hfresh := (State.fresh_create settings).1
  have hfirst : (State.create settings).BodiesMatch := by
    intro x hx
    rw [hfresh.frames] at hx
    cases hx
  have hi := (h.becomes hfresh.interned).interned hfresh.interned
  have hruns := (AdmitsRuns.hosted (r := State.KeepsBodies) h hfresh.interned).trans
    (AdmitsRuns.during hd (Act.neutral_evalModule hi name module)).1
  exact (State.bodiesMatch_of_keeps hruns hfresh.interned hfirst).2

end ScriptEngine
