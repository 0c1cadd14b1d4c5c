import ScriptEngine.Proofs.Hosting
import ScriptEngine.Proofs.Unwinding

/-!
# Frames while an action runs

An action leaves the frames alone until its end. The last thing it does may be to enter a frame, to
leave the innermost one, or to move that one to another place in its code; then the machine goes on
with the next instruction. So a trace that is recorded on the way is of the frames that the action
began with. The jumps that ask for an interrupt are left out: they move first.
-/

namespace ScriptEngine

open Bytecode

/-! ## Changes that leave the frames alone -/

namespace State

/-- The frames stay, and a trace that is recorded is of these frames. -/
structure Still (s t : State) : Prop where
  frames : t.frames = s.frames
  records : s.heap.Records s.lines t.heap

section Still

variable {s t u : State} {told : List (Option Nat)}

/-- The active frames are at the same lines. -/
theorem Still.lines (h : s.Still t) : t.lines = s.lines := by
  unfold State.lines
  rw [h.frames]

/-- Nothing has changed. -/
theorem Still.refl (s : State) : s.Still s := ⟨rfl, .refl s.heap⟩

/-- Changes one after the other. -/
theorem Still.trans (h : s.Still t) (h' : t.Still u) : s.Still u :=
  ⟨h'.frames.trans h.frames, h.records.trans (h.lines ▸ h'.records)⟩

/-- A number of such changes is one. -/
theorem still_of_steps (h : Relation.ReflTransGen Still s t) : s.Still t := by
  induction h with
  | refl => exact .refl s
  | tail _ hs ih => exact ih.trans hs

instance : AdmitsLoading Still where
  attests h := ⟨h.hostChange.frames, h.records⟩
  code _ o ho := ⟨rfl, Heap.records_insert (by rintro records rfl; cases ho)⟩
  modules _ _ _ _ _ := .single ⟨rfl, Heap.records_insert nofun⟩

/-- Changing an object records nothing if it makes no trace of it. -/
theorem records_change (s : State) (h : Handle) {f : Object → Object}
    (hf : ∀ o records, f o = .stackTrace records → o = .stackTrace records) :
    s.heap.Records told (s.update h f).heap :=
  (Heap.records_update fun o records _ => hf o records).trans (Heap.records_resize _ h)

/-- A change in place that makes no trace. -/
theorem still_update (s : State) (h : Handle) {f : Object → Object}
    (hf : ∀ o records, f o = .stackTrace records → o = .stackTrace records) :
    s.Still (s.update h f) :=
  ⟨rfl, s.records_change h hf⟩

/-- Nothing is recorded where only contents change. -/
theorem Alike.records (h : s.Alike t) : s.heap.Records told t.heap := by
  intro x records hx
  have hshell := h.objects x
  rw [hx] at hshell
  obtain ⟨o, ho, hshell⟩ := Option.map_eq_some_iff.1 hshell.symm
  cases o <;> cases hshell
  exact .inl ho

/-- Leaving a frame records no trace. -/
theorem records_leaveFrame (s : State) (f : Frame) :
    s.heap.Records told (s.leaveFrame f).heap := by
  unfold leaveFrame
  cases f.generator with
  | none => exact (alike_closeUpvalues s.dropFrame f.base).records
  | some g =>
    refine (s.dropFrame.records_change g ?_).trans (alike_closeUpvalues _ f.base).records
    intro o records ho
    cases o <;> first | exact ho | cases ho

/-- So does not any change that is as if a frame had been left. -/
theorem Leave.records (h : s.Leave t) : s.heap.Records told t.heap := by
  obtain ⟨f, -, ha⟩ := h
  exact (s.records_leaveFrame f).trans ha.records

/-- Unwinding records nothing. -/
theorem records_unwind (s : State) (depth : Nat) :
    s.heap.Records told (s.unwind depth).1.heap := by
  obtain ⟨t, ht, ha⟩ := unwindFrames_leaves s.top (s.frames.size - depth) none s.drop
  have hleft : s.drop.heap.Records told t.heap := by
    clear ha
    induction ht with
    | refl => exact .refl _
    | tail _ hl ih => exact ih.trans hl.records
  exact hleft.trans ha.records

/-- A handler changes nothing of the frames but where the innermost one goes on. -/
theorem frames_restore {f : Frame} (hf : s.frame? = some f) (k : Handler) (v : Value)
    (cause : Number) :
    (s.restore k v cause).frames = s.frames.pop.push { f with ip := k.address } := by
  let raised := (((s.closeUpvalues k.height).truncate k.height).push v).push (.number cause)
  have hframes : raised.frames = s.frames := s.frames_closeUpvalues k.height
  have hraised : raised.frame? = some f := (congrArg Array.back? hframes).trans hf
  change (raised.jumpTo k.address).frames = _
  rw [jumpTo, frames_modifyFrame hraised, hframes]

end Still

end State

/-! ## Results -/

/-- Whether the machine stays in its call. -/
def Control.stays : Control → Bool
  | .leave _ => false
  | _ => true

/-- The result of an action is as required, whatever the calls that it waits for do. -/
def Proc.Results {α : Type} (post : α → Prop) : Proc α → Prop
  | .done a _ => post a
  | .raised _ | .fault _ => True
  | .call _ _ _ resume => ∀ ok u, (resume ok u).Results post

/-- The results of an action are those of its last part. -/
theorem Proc.Results.bind {α β : Type} {post : β → Prop} (p : Proc α) {f : α → State → Proc β}
    (hf : ∀ a t, (f a t).Results post) : (p.bind f).Results post := by
  induction p with
  | done a t => exact hf a t
  | raised t => trivial
  | fault e => trivial
  | call t method argc resume ih => exact ih

namespace Act

variable {α β : Type} {post : α → Prop}

/-- The same of an action wherever it begins. -/
def Results (post : α → Prop) (x : Act α) : Prop := ∀ s, (x s).Results post

/-- The same for actions that wait for a state. -/
theorem Results.bind {x : Act β} {f : β → Act α} (hf : ∀ b, Results post (f b)) :
    Results post (x >>= f) :=
  fun s => .bind (x s) hf

/-- A value that is as required. -/
theorem results_pure {a : α} (h : post a) : Results post (pure a) := fun _ => h

@[simp] theorem results_raise : Results post raise := fun _ => trivial

@[simp] theorem results_fault (e : Fault) : Results post (fault e) := fun _ => trivial

@[simp] theorem results_fail (c : CoreClass) (message : String) : Results post (fail c message) := by
  unfold fail failWith
  repeat' with_reducible refine Results.bind fun _ => ?_
  exact results_raise

@[simp] theorem results_raiseTop : Results post raiseTop := by
  unfold raiseTop
  repeat' first | with_reducible refine Results.bind fun _ => ?_ | (beta_reduce; split)
  all_goals simp

@[simp] theorem results_noMethod (c : Handle) (name : Key) : Results post (noMethod c name) :=
  .bind fun _ => results_fail _ _

@[simp] theorem results_overflow : Results post overflow := results_fail _ _

@[simp] theorem results_notCallable (v : Value) : Results post (notCallable v) :=
  .bind fun _ => results_fail _ _

@[simp] theorem results_noInteger : Results post noInteger := results_fail _ _

@[simp] theorem results_cannotLoad (name reason : String) : Results post (cannotLoad name reason) :=
  results_fail _ _

/-- An action after which the machine goes on with the next instruction. -/
theorem results_thenNext (x : Act Unit) : Results (·.stays = true) (thenNext x) :=
  .bind fun _ => results_pure rfl

/-- Calling a method by its name. -/
theorem results_invoke (name : Key) (argc : Nat) : Results (·.stays = true) (invoke name argc) := by
  unfold invoke
  repeat' first | with_reducible refine Results.bind fun _ => ?_ | split
  all_goals first | exact results_pure rfl | simp

/-- Calling the method of an operator. -/
theorem results_overload (op : Operator) (a b : Value) : Results (·.stays = true) (overload op a b) := by
  unfold overload
  repeat' first | with_reducible refine Results.bind fun _ => ?_ | (beta_reduce; split)
  all_goals first | exact results_pure rfl | simp

/-- Applying a binary operator. -/
theorem results_binary (op : Operator) : Results (·.stays = true) (binary op) := by
  unfold binary
  repeat' first | with_reducible refine Results.bind fun _ => ?_ | (beta_reduce; split)
  all_goals first | exact results_pure rfl | exact results_overload _ _ _ | simp

/-- Applying a unary operator. -/
theorem results_unary (symbol : String) (method : Special) (onNumber : Number → Option Number) :
    Results (·.stays = true) (unary symbol method onNumber) := by
  unfold unary
  repeat' first | with_reducible refine Results.bind fun _ => ?_ | split
  all_goals first | exact results_pure rfl | simp

/-- Calling the method of a subscript. -/
theorem results_subscriptOverload (v : Value) (method : Special) (argc : Nat) :
    Results (·.stays = true) (subscriptOverload v method argc) := by
  unfold subscriptOverload
  repeat' first | with_reducible refine Results.bind fun _ => ?_ | split
  all_goals first | exact results_pure rfl | simp

/-- Reading a subscript. -/
theorem results_getSubscript : Results (·.stays = true) getSubscript := by
  unfold getSubscript
  repeat' first | with_reducible refine Results.bind fun _ => ?_ | split
  all_goals first | exact results_pure rfl | exact results_subscriptOverload _ _ _

/-- Writing a subscript. -/
theorem results_setSubscript : Results (·.stays = true) setSubscript := by
  unfold setSubscript
  repeat' first | with_reducible refine Results.bind fun _ => ?_ | split
  all_goals first | exact results_pure rfl | exact results_subscriptOverload _ _ _

/-- Importing a module. -/
theorem results_importModule (name : Key) (bind : Bool) :
    Results (·.stays = true) (importModule name bind) := by
  unfold importModule
  repeat' first | with_reducible refine Results.bind fun _ => ?_ | split
  all_goals first | exact results_pure rfl | simp

/-- Adding items to a list. -/
theorem results_extendList : Results (·.stays = true) extendList := by
  unfold extendList
  repeat' first | with_reducible refine Results.bind fun _ => ?_ | split
  all_goals exact results_pure rfl

/-- Asking for the state of an iteration. -/
theorem results_askState : Results (·.stays = true) askState := by
  unfold askState
  repeat' with_reducible refine Results.bind fun _ => ?_
  exact results_pure rfl

/-- Adding one more element of an iteration. -/
theorem results_spreadElement (v iter next : Value) :
    Results (·.stays = true) (spreadElement v iter next) := by
  unfold spreadElement
  repeat' first | with_reducible refine Results.bind fun _ => ?_ | split
  all_goals exact results_pure rfl

/-- Making an instance of a class. -/
theorem results_callClass (h : Handle) (c : ClassObject) (argc : Nat) :
    Results (·.stays = true) (callClass h c argc) := by
  unfold callClass
  repeat' first | with_reducible refine Results.bind fun _ => ?_ | split
  all_goals first | exact results_pure rfl | simp

/-- No instruction that leaves code and classes alone ends the call that it runs in. -/
theorem results_execute {op : Op} (hs : op.steers = false) (hd : op.declares = false) :
    Results (·.stays = true) (execute op) := by
  cases op
  all_goals first
    | (cases hs; done)
    | (cases hd; done)
    | exact results_thenNext _
    | (simp only [execute]
       repeat' with_reducible refine Results.bind fun _ => ?_
       first
         | exact results_pure rfl
         | exact results_binary _
         | exact results_unary _ _ _
         | exact results_getSubscript
         | exact results_setSubscript
         | exact results_extendList
         | exact results_raiseTop
         | exact results_invoke _ _
         | exact results_askState)

end Act

/-! ## Actions that change frames at their end -/

/-- What frames become when an action ends with a control, in a call that began with a number of
frames. -/
inductive Control.Reframes (depth : Nat) (frames : Array Frame) : Control → Array Frame → Prop
  | stays {control : Control} (h : control.stays = true) : Reframes depth frames control frames
  | enters (f : Frame) : Reframes depth frames .next (frames.push f)
  | moves (h : depth < frames.size) (f : Frame) : Reframes depth frames .next (frames.pop.push f)
  | leaves (h : depth < frames.size) : Reframes depth frames .next frames.pop

/-- What is left of an action leaves frames alone until its end, as long as the calls that it waits
for leave it the frames that it had, and a trace is of the frames of the moment. -/
def Proc.Calm (depth : Nat) : Proc Control → State → Prop
  | .done control t, s =>
    s.heap.Records s.lines t.heap ∧ control.Reframes depth s.frames t.frames
  | .raised t, s => s.Still t
  | .fault _, _ => True
  | .call t _ _ resume, s =>
    s.Still t ∧ ∀ ok u, s.frames.size ≤ u.frames.size → (resume ok u).Calm depth u

namespace Proc

variable {α : Type} {depth : Nat} {s t : State}

/-- What comes before may leave the frames alone. -/
theorem Calm.of_still {p : Proc Control} (h : s.Still t) (hp : p.Calm depth t) :
    p.Calm depth s := by
  cases p with
  | done control u => exact ⟨h.records.trans (h.lines ▸ hp.1), h.frames ▸ hp.2⟩
  | raised u => exact h.trans hp
  | fault e => trivial
  | call u method argc resume =>
    exact ⟨h.trans hp.1, fun ok w hw => hp.2 ok w (by rwa [h.frames])⟩

/-- An action that leaves the frames alone throughout changes none at its end. -/
theorem Within.calm {p : Proc Control} (hp : p.Within State.Still true s)
    (hg : p.Results (·.stays = true)) : p.Calm depth s := by
  induction p generalizing s with
  | done control t =>
    have hstill := State.still_of_steps hp
    exact ⟨hstill.records, by rw [hstill.frames]; exact .stays hg⟩
  | raised t => exact State.still_of_steps hp
  | fault e => trivial
  | call t method argc resume ih =>
    exact ⟨State.still_of_steps hp.2.1, fun ok u _ => ih ok u (hp.2.2 ok u) (hg ok u)⟩

/-- What comes after an action that leaves frames alone finds at least the frames that there were. -/
theorem Calm.bind {p : Proc α} {f : α → State → Proc Control} (hp : p.Within State.Still true s)
    (hf : ∀ a t, s.frames.size ≤ t.frames.size → (f a t).Calm depth t) :
    (p.bind f).Calm depth s := by
  induction p generalizing s with
  | done a t =>
    have hstill := State.still_of_steps hp
    exact .of_still hstill (hf a t (by rw [hstill.frames]))
  | raised t => exact State.still_of_steps hp
  | fault e => trivial
  | call t method argc resume ih =>
    exact ⟨State.still_of_steps hp.2.1, fun ok u hu =>
      ih ok u (hp.2.2 ok u) fun a w hw => hf a w (hu.trans hw)⟩

end Proc

namespace Act

variable {α : Type} {depth : Nat} {s t : State}

/-- Something that leaves the frames alone, and what comes after it. -/
theorem calm_bind {x : Act α} {f : α → Act Control} (hx : Within State.Still true x)
    (hf : ∀ a t, s.frames.size ≤ t.frames.size → (f a t).Calm depth t) :
    ((x >>= f) s).Calm depth s :=
  .bind (hx s) hf

/-- The same for actions that wait for a state. -/
theorem calm_of_within {x : Act Control} (hx : Within State.Still true x)
    (hg : Results (·.stays = true) x) : (x s).Calm depth s :=
  (hx s).calm (hg s)

/-- What is read is there. -/
theorem calm_require {f : State → Option α} {e : Fault} {k : α → State → Proc Control}
    (h : ∀ a, f s = some a → (k a s).Calm depth s) : ((require f e s).bind k).Calm depth s := by
  unfold require
  split
  · next a ha => exact h a ha
  · trivial

/-- Making an object that is no trace. -/
theorem still_alloc {calls : Bool} {o : Object} (ho : ∀ records, o ≠ .stackTrace records) :
    Within State.Still calls (alloc o) :=
  (within_reserve _ _).bind fun _ _ =>
    .single ⟨rfl, Heap.records_insert fun records hr => absurd hr (ho records)⟩

/-- A change of the state that leaves the frames alone. -/
theorem still_modify {calls : Bool} {f : State → State} (h : ∀ s : State, s.Still (f s)) :
    Within State.Still calls (modify f) :=
  fun s => .single (h s)

/-! ### Jumps and handlers -/

/-- The innermost frame changes last. -/
theorem calm_modifyFrame (hd : depth < s.frames.size) (f : Frame → Frame) :
    (Proc.done Control.next (s.modifyFrame f)).Calm depth s := by
  have hf : s.frame? = some s.frames[s.frames.size - 1] :=
    Array.back?_eq_getElem?.trans (Array.getElem?_eq_getElem (by omega))
  exact ⟨.refl s.heap, by rw [State.frames_modifyFrame hf]; exact .moves hd _⟩

/-- A jump if the value on top is truthy. -/
theorem calm_jumpIf (hd : depth < s.frames.size) (distance : UInt16) :
    (execute (.jumpIfTrue distance) s).Calm depth s := by
  change (((pop >>= fun v => if v.isTruthy then jumpBy distance else pure ()) >>= fun _ =>
    pure Control.next) s).Calm depth s
  rw [bind_assoc]
  refine calm_bind within_pop fun v t ht => ?_
  split
  · exact calm_modifyFrame (s := t) (by omega) _
  · exact calm_of_within (within_pure _) (results_pure rfl)

/-- A jump if the value on top is falsy. -/
theorem calm_jumpUnless (hd : depth < s.frames.size) (distance : UInt16) :
    (execute (.jumpIfFalse distance) s).Calm depth s := by
  change (((pop >>= fun v => if v.isTruthy then pure () else jumpBy distance) >>= fun _ =>
    pure Control.next) s).Calm depth s
  rw [bind_assoc]
  refine calm_bind within_pop fun v t ht => ?_
  split
  · exact calm_of_within (within_pure _) (results_pure rfl)
  · exact calm_modifyFrame (s := t) (by omega) _

/-- Asking for an element, with a jump if there is none. -/
theorem calm_askElement (hd : depth < s.frames.size) (distance : Nat) :
    (askElement distance s).Calm depth s := by
  unfold askElement
  refine calm_bind within_pop fun state t ht => calm_bind (within_start 3) fun slot u hu =>
    calm_bind (within_setSlotAt slot state) fun _ w hw => ?_
  split
  · refine calm_of_within ?_ ?_
    · exact (within_peek 3).bind fun v => (within_peek 0).bind fun next => (within_push v).bind
        fun _ => (within_push state).bind fun _ => within_pure _
    · exact .bind fun _ => .bind fun _ => .bind fun _ => .bind fun _ => results_pure rfl
  · exact calm_modifyFrame (s := w) (by omega) _

/-! ### Returns and generators -/

/-- A frame is left last, whatever has been done to it. -/
theorem calm_left (hd : depth < s.frames.size) (hpop : t.frames.pop = s.frames.pop)
    (hr : s.heap.Records s.lines t.heap) (f : Frame) (height : Nat) (v : Value) :
    (Proc.done Control.next (((t.leaveFrame f).truncate height).push v)).Calm depth s := by
  refine ⟨hr.trans (t.records_leaveFrame f), ?_⟩
  change Control.Reframes depth s.frames .next (t.leaveFrame f).frames
  rw [State.frames_leaveFrame, hpop]
  exact .leaves hd

/-- New handlers of the innermost frame leave the others alone. -/
theorem frames_setHandlers_pop (s : State) (handlers : List Handler) :
    (s.setHandlers handlers).frames.pop = s.frames.pop := by
  cases hf : s.frame? with
  | none =>
    have hempty : s.frames = #[] := by simpa [State.frame?] using hf
    simp [State.setHandlers, State.modifyFrame, hempty]
  | some f =>
    unfold State.setHandlers
    rw [State.frames_modifyFrame hf, Array.pop_push]

/-- A return with a value leaves the frame or goes on at an `ensure` part. -/
theorem calm_returnValue (hd : depth < s.frames.size) (v : Value) :
    (returnValue v s).Calm depth s := by
  cases hf : s.frame? with
  | none =>
    rw [returnValue_fault hf]
    trivial
  | some f =>
    cases he : State.ensureHandler? f.handlers with
    | none =>
      rw [returnValue_run hf he]
      exact calm_left hd (frames_setHandlers_pop s []) (.refl s.heap) f _ v
    | some found =>
      rw [returnValue_ensured hf he]
      refine ⟨((s.alike_setHandlers found.2).trans (State.alike_restore _ found.1 v _)).records, ?_⟩
      rw [State.frames_restore (State.frame?_setHandlers hf found.2), frames_setHandlers_pop]
      exact .moves hd _

/-- The return instruction. -/
theorem calm_return (hd : depth < s.frames.size) : (execute .return s).Calm depth s :=
  calm_bind within_checkInterrupt fun _ t ht => calm_bind within_pop fun v u hu =>
    calm_returnValue (by omega) v

/-- The end of a handler goes on, raises again or returns. -/
theorem calm_endHandler (hd : depth < s.frames.size) : (endHandler s).Calm depth s := by
  unfold endHandler
  refine calm_bind (within_peek 0) fun v t ht => ?_
  split
  · exact calm_of_within (within_pure _) (results_pure rfl)
  · refine calm_bind within_pop fun cause u hu => ?_
    split
    · exact calm_bind within_pop fun v w hw => calm_returnValue (by omega) v
    · exact calm_of_within within_raise results_raise

/-- Making a generator leaves the frame of its call. -/
theorem calm_makeGenerator (hd : depth < s.frames.size) : (makeGenerator s).Calm depth s := by
  unfold makeGenerator
  refine calm_bind within_frame fun f t ht => calm_bind (within_gets _) fun window u hu =>
    calm_bind (still_alloc nofun) fun h w hw => ?_
  rw [bind_run, modify_run, Proc.bind_done]
  change (returnValue _ (w.setHandlers [])).Calm depth w
  cases hx : (w.setHandlers []).frame? with
  | none =>
    rw [returnValue_fault hx]
    trivial
  | some x =>
    have hdw : depth < w.frames.size := by omega
    rw [returnValue_run hx (by rw [State.handlers_setHandlers hx]; rfl)]
    refine calm_left (t := (w.setHandlers []).setHandlers []) hdw ?_ (.refl w.heap) x _ _
    rw [frames_setHandlers_pop, frames_setHandlers_pop]

/-- A `yield` leaves the frame. -/
theorem calm_yieldValue (hd : depth < s.frames.size) : (yieldValue s).Calm depth s := by
  unfold yieldValue
  refine calm_bind within_pop fun v t ht => calm_require fun f hf => ?_
  cases f.generator with
  | none => trivial
  | some g =>
    simp only [suspend, bind_run, modify_run, Proc.bind_done, gets_run, truncate, push_run,
      pure_run]
    have hclosed : t.dropFrame.heap.Records t.lines (t.dropFrame.closeUpvalues f.base).heap :=
      (State.alike_closeUpvalues t.dropFrame f.base).records
    dsimp only [State.push, State.update, State.truncate, State.dropFrame] at hclosed ⊢
    refine ⟨hclosed.trans ?_, ?_⟩
    · refine Heap.Records.trans (Heap.records_update fun o records _ ho => ?_)
        (Heap.records_resize _ g)
      cases o <;> first | exact ho | cases ho
    · change Control.Reframes depth t.frames .next (t.dropFrame.closeUpvalues f.base).frames
      rw [State.frames_closeUpvalues]
      exact .leaves (by omega)

/-- Closing a generator changes no frame. -/
theorem calm_generatorClose : (execute .generatorClose s).Calm depth s := by
  refine calm_of_within (.thenNext (within_frame.bind fun f => ?_)) (results_thenNext _)
  cases f.generator with
  | none => exact within_pure ()
  | some g =>
    refine still_modify fun s => s.still_update g fun o records ho => ?_
    cases o <;> first | exact ho | cases ho

/-! ### Calls -/

/-- A frame is entered. -/
theorem calm_pushFrame (f : Frame) : ((pushFrame f >>= fun _ => pure Control.next) s).Calm depth s :=
  ⟨.refl s.heap, .enters f⟩

/-- Calling a closure. -/
theorem calm_callClosure (closure function : Handle) (argc : Nat) :
    ((callClosure closure function argc >>= fun _ => pure Control.next) s).Calm depth s := by
  unfold callClosure
  rw [bind_assoc]
  refine calm_bind (within_gets _) fun full t _ => ?_
  split
  · exact calm_of_within (within_overflow.bind fun _ => within_pure _)
      (.bind fun _ => results_pure rfl)
  · simp only [bind_assoc]
    exact calm_bind (within_require _ _) fun f _ _ => calm_bind (within_adjustArguments _ _)
      fun total _ _ => calm_bind (within_start _) fun base _ _ => calm_pushFrame _

/-- Resuming a generator. -/
theorem calm_resumeGenerator (h : Handle) (g : GeneratorObject) (argc : Nat) :
    ((resumeGenerator h g argc >>= fun _ => pure Control.next) s).Calm depth s := by
  have hfail : ∀ {x : Act Unit} {t : State}, Within State.Still true x →
      ((x >>= fun _ => pure Control.next) t).Calm depth t := fun hx =>
    calm_of_within (hx.bind fun _ => within_pure _) (.bind fun _ => results_pure rfl)
  unfold resumeGenerator
  split
  · exact hfail (within_fail _ _)
  split
  · exact hfail (within_fail _ _)
  split
  · exact hfail (within_fail _ _)
  rw [bind_assoc]
  refine calm_bind (within_gets _) fun full t _ => ?_
  split
  · exact hfail within_overflow
  -- Whether an argument is sent, and whether it is used, makes no difference.
  by_cases hargc : argc = 1
  all_goals
    first | rw [if_pos hargc] | rw [if_neg hargc]
    simp only [bind_assoc]
    refine calm_bind (by first | exact within_pop | exact within_pure _) fun sent t _ =>
      calm_bind (within_start 1) fun base t _ => calm_bind (within_truncate base) fun _ t _ =>
        calm_bind (still_modify fun s => ⟨rfl, Heap.records_update fun _ _ _ hne => nomatch hne⟩)
          fun _ t _ => calm_bind (within_require _ _) fun f t _ =>
            calm_bind (within_stack _) fun _ t _ => ?_
    by_cases hstate : g.state = .suspended
  · rw [if_pos hstate, bind_assoc]
    exact calm_bind (within_push sent) fun _ t _ => calm_pushFrame _
  · rw [if_neg hstate]
    exact calm_pushFrame _
  · rw [if_pos hstate, bind_assoc]
    exact calm_bind (within_push sent) fun _ t _ => calm_pushFrame _
  · rw [if_neg hstate]
    exact calm_pushFrame _

/-- Calling a value. -/
theorem calm_enterValue (argc : Nat) : (enterValue argc s).Calm depth s := by
  unfold enterValue
  refine calm_bind (within_start _) fun callee t _ => calm_bind (within_slotAt _) fun v t _ => ?_
  split
  · refine calm_bind (within_object _) fun o t _ => ?_
    split
    · exact calm_callClosure _ _ argc
    · exact calm_of_within ((within_callNative _ argc).bind fun _ => within_pure _)
        (.bind fun _ => results_pure rfl)
    · exact calm_of_within (within_callClass _ _ argc) (results_callClass _ _ argc)
    · exact calm_of_within ((within_setSlotAt _ _).bind fun _ => within_pure _)
        (.bind fun _ => results_pure rfl)
    · exact calm_resumeGenerator _ _ argc
    · exact calm_of_within (within_notCallable _) (results_notCallable _)
  · exact calm_of_within (within_notCallable _) (results_notCallable _)

/-- Calling a method that has been found. -/
theorem calm_enterMethod (method : Value) (argc : Nat) :
    (enterMethod method argc s).Calm depth s := by
  have hinstead : ∀ t : State, ((do
      let callee ← start (argc + 1)
      setSlotAt callee method
      return Control.call argc : Act Control) t).Calm depth t := fun t =>
    calm_of_within ((within_start _).bind fun _ => (within_setSlotAt _ _).bind fun _ =>
      within_pure _) (.bind fun _ => .bind fun _ => results_pure rfl)
  unfold enterMethod
  split
  · refine calm_bind (within_object _) fun o t _ => ?_
    split
    · exact calm_callClosure _ _ argc
    · exact calm_of_within ((within_callNative _ argc).bind fun _ => within_pure _)
        (.bind fun _ => results_pure rfl)
    · exact hinstead t
  · exact hinstead s

/-! ### Classes -/

/-- Making a class. -/
theorem calm_newClass (i : UInt16) : (execute (.newClass i) s).Calm depth s :=
  calm_of_within (.thenNext ((within_constantHandle i).bind fun _ =>
    (still_alloc (by nofun)).bind fun _ => within_push _)) (results_thenNext _)

/-- Giving a class a method leaves the frames alone. -/
theorem still_defineMethod (owner : Value) (name : Key) (method : Value) {calls : Bool} :
    Within State.Still calls (modify (·.defineMethod owner name method)) := by
  refine still_modify fun s => ?_
  unfold State.defineMethod
  split
  · refine s.still_update _ fun o records ho => ?_
    cases o <;> first | exact ho | cases ho
  · exact .refl s

/-- Letting a class inherit. -/
theorem calm_subclass : (execute .subclass s).Calm depth s := by
  refine calm_of_within (.thenNext ?_) (results_thenNext _)
  unfold subclass
  repeat' first | with_reducible refine Within.bind ?_ fun _ => ?_ | split
  all_goals first
    | exact still_modify fun s => s.still_update _ fun o records ho => by
        cases o <;> first | exact ho | cases ho
    | simp

/-- Giving a class a method. -/
theorem calm_defMethod (i : UInt16) : (execute (.defMethod i) s).Calm depth s :=
  calm_of_within (.thenNext ((within_name i).bind fun _ => within_pop.bind fun _ =>
    (within_peek 0).bind fun _ => still_defineMethod _ _ _)) (results_thenNext _)

/-- Giving a class a method of the host. -/
theorem calm_nativeMethod (i : UInt16) : (execute (.nativeMethod i) s).Calm depth s :=
  calm_of_within (.thenNext ((within_peek 0).bind fun _ => (within_declaration i).bind fun _ =>
    (neutral_resolveNative _ _).bind fun _ => (within_gets _).bind fun _ =>
      (within_internKey _).bind fun _ => still_defineMethod _ _ _)) (results_thenNext _)

/-! ### Instructions -/

end Act

namespace Bytecode

/-- Whether an instruction moves first and then asks for an interrupt. -/
def Op.movesFirst : Op → Bool
  | .jump _ | .loop _ => .true
  | _ => .false

end Bytecode

namespace Act

variable {depth : Nat} {s : State}

/-- Every other instruction leaves frames alone until its end. -/
theorem calm_execute (hd : depth < s.frames.size) {op : Op} (hm : op.movesFirst = false) :
    (execute op s).Calm depth s := by
  cases hc : op.declares with
  | true =>
    cases op with
    | newClass i => exact calm_newClass i
    | subclass => exact calm_subclass
    | defMethod i => exact calm_defMethod i
    | nativeMethod i => exact calm_nativeMethod i
    | _ => cases hc
  | false =>
    cases hs : op.steers with
    | false => exact calm_of_within (within_execute hs hc) (results_execute hs hc)
    | true =>
      cases op with
      | jump d => cases hm
      | loop d => cases hm
      | jumpIfFalse d => exact calm_jumpUnless hd d
      | jumpIfTrue d => exact calm_jumpIf hd d
      | closure i captures =>
        exact calm_of_within (.thenNext (neutral_pushClosure i captures)) (results_thenNext _)
      | native i =>
        exact calm_of_within (.thenNext ((within_declaration i).bind fun _ =>
          (neutral_resolveNative _ none).bind fun _ => within_push _)) (results_thenNext _)
      | setupExcept d => exact calm_modifyFrame hd _
      | setupEnsure d => exact calm_modifyFrame hd _
      | popHandler => exact calm_modifyFrame hd _
      | forNext d => exact calm_askElement hd d.toNat
      | importModule i =>
        exact calm_of_within (within_named fun hn => neutral_importModule hn true)
          (.bind fun _ => results_importModule _ true)
      | importFrom i =>
        exact calm_of_within (within_named fun hn => neutral_importModule hn false)
          (.bind fun _ => results_importModule _ false)
      | subclass => cases hc
      | nativeMethod i => cases hc
      | «return» => exact calm_return hd
      | endHandler => exact calm_endHandler hd
      | generator => exact calm_makeGenerator hd
      | yield => exact calm_yieldValue hd
      | generatorClose => exact calm_generatorClose
      | _ => cases hs

/-- What a machine does next, if that is not an instruction. -/
theorem calm_action {control : Control} (hn : control ≠ .next) (hl : control.stays = true) :
    (Machine.action control s).Calm depth s := by
  cases control with
  | next => exact absurd rfl hn
  | enter method argc =>
    cases method with
    | none => exact calm_enterValue argc
    | some method => exact calm_enterMethod method argc
  | spread v iter next =>
    exact calm_of_within (within_spreadElement v iter next) (results_spreadElement v iter next)
  | refuse => exact calm_of_within within_overflow results_overflow
  | leave returned => cases hl

end Act

end ScriptEngine
