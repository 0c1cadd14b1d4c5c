import ScriptEngine.Proofs.HostChanges

/-!
# Actions whose calls return at once

An action that compares or hashes values calls methods and goes on when they have returned. Methods
of the core module return without a frame of their own, but may call such methods in turn. `Ends`
follows an action through all calls of this kind to the result it ends with. It ends so wherever it
runs: as an action of the host, and inside a machine whatever waits for it there. A method of the
core module leaves its result in place of receiver and arguments.
-/

namespace ScriptEngine

/-- An action ends with a result; the methods that it calls return without a frame of their own. -/
inductive Proc.Ends : {α : Type} → Proc α → α → State → Prop
  | done {α : Type} (a : α) (s : State) : Ends (.done a s) a s
  | call {α : Type} {s t u : State} {method : Value} {argc : Nat}
    {resume : Bool → State → Proc α} {a : α} (hsize : argc + 1 ≤ s.stack.size)
    (hroom : s.reentrant < s.settings.maxReentrant)
    (hbody : Ends (Act.enterMethod method argc s) .next t)
    (hframes : t.frames.size = s.frames.size) (hrest : Ends (resume true t) a u) :
    Ends (.call s (some method) argc resume) a u

/-! ## What is made of an action -/

/-- What is made of an action makes the action's calls as they come. -/
def Proc.Forwards {α β : Type} (use : Proc α → Proc β) : Prop :=
  ∀ s method argc resume,
    use (.call s method argc resume) = .call s method argc fun ok t => use (resume ok t)

theorem Proc.forwards_id {α : Type} : Forwards (α := α) id := fun _ _ _ _ => rfl

/-- What goes on after an action makes its calls as they come. -/
theorem Proc.forwards_bind {α β : Type} (f : α → State → Proc β) : Forwards (·.bind f) :=
  fun _ _ _ _ => rfl

theorem Proc.forwards_attempt : Forwards Proc.attempt := fun _ _ _ _ => rfl

/-- Uses of an action one after the other make its calls as they come. -/
theorem Proc.Forwards.comp {α β γ : Type} {use : Proc β → Proc γ} {use' : Proc α → Proc β}
    (h : Forwards use) (h' : Forwards use') : Forwards (use ∘ use') := fun s method argc resume => by
  rw [Function.comp, h', h]
  rfl

namespace Proc.Ends

variable {α β : Type} {p : Proc α} {a : α} {t u : State}

/-- An action that ends goes on to where the rest ends. -/
theorem bind (h : p.Ends a t) {f : α → State → Proc β} {b : β} (hf : (f a t).Ends b u) :
    (p.bind f).Ends b u := by
  induction h with
  | done a s => exact hf
  | call hsize hroom hbody hframes _ _ ih => exact .call hsize hroom hbody hframes (ih hf)

/-- An action that ends is attempted with success. -/
theorem attempt {p : Proc Unit} (h : p.Ends () t) : p.attempt.Ends true t := by
  induction p with
  | done a t =>
    cases h
    exact .done true _
  | raised s => cases h
  | fault f => cases h
  | call s method argc resume ih =>
    cases h with
    | call hsize hroom hbody hframes hrest =>
      exact .call hsize hroom hbody hframes (ih true _ hrest)

/-- There is one result. -/
theorem unique {b : α} (h : p.Ends a t) (h' : p.Ends b u) : a = b ∧ t = u := by
  induction h generalizing u with
  | done a s =>
    cases h'
    exact ⟨rfl, rfl⟩
  | call _ _ _ _ _ ihbody ihrest =>
    cases h' with
    | call _ _ hbody' _ hrest' =>
      obtain ⟨-, rfl⟩ := ihbody hbody'
      exact ihrest hrest'

/-! ## Inside a machine and outside -/

open Machine

/-- A status becomes another one after some steps. -/
abbrev LeadsTo (st st' : Status) : Prop := ∃ n, ∀ k, runStatus (n + k) st = runStatus k st'

/-- The machine of a call comes back to the action that waits for the call. -/
theorem leadsTo_call {s : State} {method : Value} {argc : Nat}
    (hsize : argc + 1 ≤ s.stack.size) (hroom : s.reentrant < s.settings.maxReentrant)
    (hframes : t.frames.size = s.frames.size) (waiting : List Waiting)
    (hbody : ∀ call, LeadsTo (absorb call waiting (Act.enterMethod method argc s))
      (absorb call waiting (.done .next t))) :
    ∃ slot, LeadsTo (start s (some method) argc waiting)
      (step ⟨t, .leave true, ⟨s.frames.size, slot, false⟩, waiting⟩) := by
  refine ⟨s.stack.size - 1 - argc, ?_⟩
  obtain ⟨n, hn⟩ := hbody ⟨s.frames.size, s.stack.size - 1 - argc, false⟩
  have hstart : start s (some method) argc waiting = .running
      ⟨s, .enter (some method) argc, ⟨s.frames.size, s.stack.size - 1 - argc, false⟩, waiting⟩ := by
    unfold start
    rw [if_pos hsize, if_neg (Nat.not_le.2 hroom)]
  refine ⟨n + 2, fun k => ?_⟩
  rw [hstart, show n + 2 + k = n + (k + 1) + 1 by omega]
  refine (hn (k + 1)).trans ?_
  rw [absorb, if_pos hframes]
  rfl

/-- Inside a machine the action goes on with what follows it. -/
theorem leadsTo (h : p.Ends a t) {use : Proc α → Proc Control} (huse : Forwards use) (call : Call)
    (waiting : List Waiting) :
    LeadsTo (absorb call waiting (use p)) (absorb call waiting (use (.done a t))) := by
  induction h generalizing call waiting with
  | done a s => exact ⟨0, fun k => by rw [Nat.zero_add]⟩
  | @call α s t u method argc resume a hsize hroom _ hframes _ ihbody ihrest =>
    rw [huse]
    obtain ⟨slot, n, hn⟩ := leadsTo_call hsize hroom hframes (⟨call, fun ok s => use (resume ok s)⟩ :: waiting)
      fun call' => ihbody forwards_id call' _
    obtain ⟨k, hk⟩ := ihrest huse call waiting
    refine ⟨n + k, fun j => ?_⟩
    rw [Nat.add_assoc]
    exact (hn (k + j)).trans (hk j)

/-- As an action of the host it ends after some steps, and in the same way after more. -/
theorem finish (h : p.Ends a t) : ∃ n, ∀ k, p.finish (n + k) = .done a t := by
  induction h with
  | done a s => exact ⟨0, fun _ => rfl⟩
  | @call α s t u method argc resume a hsize hroom hbody hframes _ _ ihrest =>
    obtain ⟨slot, n, hn⟩ := leadsTo_call hsize hroom hframes []
      fun call' => hbody.leadsTo forwards_id call' []
    obtain ⟨n', hn'⟩ := ihrest
    refine ⟨n + n', fun k => ?_⟩
    have hcall : runStatus (n + n' + k) (start s (some method) argc []) = .done () t := by
      rw [Nat.add_assoc, hn]
      cases hk : n' + k <;> rfl
    rw [Proc.finish, hcall, Nat.add_comm n, Nat.add_assoc]
    exact hn' (n + k)

end Proc.Ends

/-! ## Methods of the core module -/

/-- The object of a core function has its signature. -/
structure NativeObject.Implements (o : NativeObject) (s : CoreSignature) : Prop where
  function : o.function = .core s.function
  arity : o.arity = s.arity
  defaults : o.defaults.size = s.defaults.length
  vararg : o.vararg = s.vararg

namespace Act

variable {α β : Type} {s t u : State}

/-- One action after the other. -/
theorem ends_bind {x : Act α} {f : α → Act β} {a : α} {b : β} (hx : (x s).Ends a t)
    (hf : (f a t).Ends b u) : ((x >>= f) s).Ends b u := hx.bind hf

/-- An action that makes no call. -/
theorem ends_of_run {x : Act α} {a : α} (h : x s = .done a t) : (x s).Ends a t := h ▸ .done a t

/-- A signature without defaults takes the arguments as they are. -/
theorem adjustArguments_run {o : NativeObject} {g : CoreSignature} (ho : o.Implements g)
    (hd : g.defaults = []) (hv : g.vararg = false) (s : State) :
    adjustArguments o.signature g.arity.toNat s = .done g.arity.toNat s := by
  have hdefaults : o.defaults = #[] := by
    rw [← Array.size_eq_zero_iff, ho.defaults, hd]
    rfl
  have hsignature : o.signature = ⟨o.name, g.arity.toNat, #[], false⟩ := by
    unfold NativeObject.signature
    rw [hdefaults, ho.arity, ho.vararg, hv]
  have haccepts : (⟨o.name, g.arity.toNat, #[], false⟩ : Signature).accepts g.arity.toNat = true := by
    simp [Signature.accepts, Signature.least]
  unfold adjustArguments
  rw [hsignature, if_neg (by simp), if_pos haccepts]
  simp [Signature.missing]

/-- The result comes down to where the receiver stood. -/
theorem settle_push (s : State) (stack : Array Value) (v r : Value) (args : Array Value) :
    State.settle { s with stack := (stack.push v ++ args).push r } stack.size =
      { s with stack := stack.push r } := by
  simp [State.settle, State.top, State.drop, State.truncate, State.push]

section Core

variable {h : Handle} {o : NativeObject} {g : CoreSignature} {v r : Value} {args : Array Value}
  {heap : Heap}

/-- A method of the core module runs at once, in place of the call. -/
theorem enterMethod_eq (hget : s.heap.get? h = some (.native o)) (ho : o.Implements g)
    (hd : g.defaults = []) (hv : g.vararg = false) (hargs : args.size = g.arity.toNat) :
    enterMethod (.object h) args.size { s with stack := s.stack.push v ++ args } =
      (attempt (runCore g.function)
        { s with stack := s.stack.push v ++ args, apiBase := s.stack.size }).bind fun ok t =>
          let t := State.settle { t with apiBase := s.apiBase } s.stack.size
          if ok then .done .next t else .raised t := by
  have hobject : object h { s with stack := s.stack.push v ++ args } =
      .done (.native o) { s with stack := s.stack.push v ++ args } := require_run _ _ hget
  have hstart : start (g.arity.toNat + 1) { s with stack := s.stack.push v ++ args } =
      .done s.stack.size { s with stack := s.stack.push v ++ args } := by
    refine require_run _ _ ?_
    dsimp only
    rw [if_pos (by simp; omega)]
    simp
    omega
  have hadjust := adjustArguments_run ho hd hv { s with stack := s.stack.push v ++ args }
  unfold enterMethod
  simp only [bind_run, hobject, Proc.bind_done, callNative, hargs, hadjust, hstart]
  simp only [swapApiBase, modifyGet, Proc.bind_done, ho.function, runNative, Proc.bind_assoc]
  refine congrArg (Proc.bind _) (funext fun ok => funext fun t => ?_)
  cases ok <;> rfl

/-- A method of the core module leaves its result in place of receiver and arguments. -/
theorem ends_enterMethod (hget : s.heap.get? h = some (.native o)) (ho : o.Implements g)
    (hd : g.defaults = []) (hv : g.vararg = false) (hargs : args.size = g.arity.toNat)
    (hbody : (runCore g.function
      { s with stack := s.stack.push v ++ args, apiBase := s.stack.size }).Ends ()
      { s with stack := (s.stack.push v ++ args).push r, apiBase := s.stack.size, heap := heap }) :
    (enterMethod (.object h) args.size { s with stack := s.stack.push v ++ args }).Ends .next
      { s with stack := s.stack.push r, heap := heap } := by
  rw [enterMethod_eq hget ho hd hv hargs]
  refine hbody.attempt.bind ?_
  rw [settle_push { s with heap := heap }]
  exact .done _ _

/-- Calling a method of the core module leaves its result in place of receiver and arguments. -/
theorem ends_callMethodSync (hroom : s.reentrant < s.settings.maxReentrant)
    (hget : s.heap.get? h = some (.native o)) (ho : o.Implements g) (hd : g.defaults = [])
    (hv : g.vararg = false) (hargs : args.size = g.arity.toNat)
    (hbody : (runCore g.function
      { s with stack := s.stack.push v ++ args, apiBase := s.stack.size }).Ends ()
      { s with stack := (s.stack.push v ++ args).push r, apiBase := s.stack.size, heap := heap }) :
    (callMethodSync (.object h) args.size { s with stack := s.stack.push v ++ args }).Ends ()
      { s with stack := s.stack.push r, heap := heap } :=
  .call (by simp) hroom (ends_enterMethod hget ho hd hv hargs hbody) rfl (.done _ _)

end Core

end Act

end ScriptEngine
