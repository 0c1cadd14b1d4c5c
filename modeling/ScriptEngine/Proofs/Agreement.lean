import ScriptEngine.Host.Evaluate
import ScriptEngine.Proofs.Execution
import ScriptEngine.Proofs.Programs

/-!
# Agreement with the reference semantics

Running a compiled program of the core on a machine that has run nothing agrees with the reference
semantics: it ends with the same globals, raises an exception of the same class from the same line
with the same globals, or does not end, whichever the reference does.
-/

namespace ScriptEngine

open Bytecode Reference Source

/-! ## The machine, step by step -/

namespace Machine

variable {s : State} {p : Proto} {i : Image} {k k' : Config} {n : Nat}

/-- The call that the host makes, once it has a frame. -/
def hostCall : Call := ⟨0, 0, true⟩

/-- A machine that runs the host's call. -/
def running (s : State) : Status := .running ⟨s, .next, hostCall, []⟩

/-- In the middle of its code, the machine moves past the instruction and executes it. -/
theorem step_running (h : s.At p i k) {op : Op} (hop : p.chunk.code[k.pc]? = some op) :
    ∃ s', s'.At p i ⟨k.pc + 1, k.stack, k.globals⟩ ∧
      step ⟨s, .next, hostCall, []⟩ = absorb hostCall [] (Act.execute op s') := by
  obtain ⟨s', hfetch, hat⟩ := h.fetch hop
  refine ⟨s', hat, ?_⟩
  change absorb hostCall [] ((Act.fetch s).bind fun op s' => Act.execute op s') = _
  rw [hfetch]
  rfl

/-- An instruction that goes on is one step. -/
theorem step_next (h : s.At p i k) (hk : advance p.chunk k = .next k') :
    ∃ s', step ⟨s, .next, hostCall, []⟩ = running s' ∧ s'.At p i k' := by
  unfold advance at hk
  split at hk
  · next op hop =>
    obtain ⟨s₁, hat, hstep⟩ := step_running h hop
    obtain ⟨s₂, hrun, hat'⟩ := hat.executes hk
    refine ⟨s₂, ?_, hat'⟩
    rw [hstep, hrun]
    unfold absorb
    simp only [hat'.frames]
    rfl
  · cases hk

/-- A number of instructions are as many steps. -/
theorem runStatus_reaches (hr : Reference.Reaches p.chunk n k k') (h : s.At p i k) :
    ∃ s', s'.At p i k' ∧ ∀ m, runStatus (n + m) (running s) = runStatus m (running s') := by
  induction hr generalizing s with
  | refl k => exact ⟨s, h, fun m => by rw [Nat.zero_add]⟩
  | step hk _ ih =>
    obtain ⟨s₁, hstep, hat⟩ := step_next h hk
    obtain ⟨s₂, hat', hrun⟩ := ih hat
    refine ⟨s₂, hat', fun m => ?_⟩
    rw [Nat.add_right_comm]
    change runStatus (_ + m) (step ⟨s, .next, hostCall, []⟩) = _
    rw [hstep, hrun]

end Machine

/-! ## How a run ends -/

namespace State

variable {s : State} {p : Proto} {i : Image} {k : Config}

/-- A frame without captured variables and generator is simply dropped. -/
theorem leaveFrame_eq {f : Frame} (hclosed : s.openUpvalues = []) (hf : f.generator = none) :
    s.leaveFrame f = s.dropFrame := by
  unfold State.leaveFrame
  rw [hf]
  unfold State.closeUpvalues
  simp only [State.dropFrame, hclosed]

/-- An exception that no handler of the only frame catches. -/
theorem unwind_uncaught {ip : Nat} (hframes : s.frames = #[i.frame p ip])
    (hclosed : s.openUpvalues = []) :
    s.unwind 0 = ((s.drop.dropFrame.truncate 0).push s.top, false) := by
  have hframe : s.drop.frame? = some (i.frame p ip) := by
    unfold State.frame?
    change s.frames.back? = _
    rw [hframes]
    rfl
  unfold State.unwind
  rw [hframes]
  change State.unwindFrames s.top 1 none s.drop = _
  unfold State.unwindFrames
  rw [hframe]
  change State.unwindFrames s.top 0 (some 0) (s.drop.leaveFrame (i.frame p ip)) = _
  rw [leaveFrame_eq (show s.drop.openUpvalues = [] from hclosed) rfl]
  rfl

/-- The code stops at a `return`. -/
theorem eq_return_of_stop {c : Chunk} {op : Op} (h : perform c k op = .stop) : op = .return := by
  unfold perform Config.push Config.goOn Config.define Config.operate Config.goOn at h
  cases op <;> dsimp only at h
  all_goals first
    | rfl
    | cases h
    | (split at h <;> first | cases h | (split at h <;> cases h))

/-- Returning from the only frame leaves the heap as it is. -/
theorem At.return (h : s.At p i k) : ∃ s', Act.execute .return s = .done .next s' ∧
    s'.frames = #[] ∧ s'.heap = s.heap ∧ s'.modules = s.modules := by
  have hframe : s.drop.frame? = some (i.frame p k.pc) := h.frame?
  have hunwind : s.drop.unwindReturn s.top =
      (s.drop.modifyFrame fun f => { f with handlers := [] }, false) := by
    unfold State.unwindReturn
    rw [hframe]
    rfl
  have hleave : (s.drop.modifyFrame fun f => { f with handlers := [] }).leaveFrame
      (i.frame p k.pc) = (s.drop.modifyFrame fun f => { f with handlers := [] }).dropFrame :=
    leaveFrame_eq h.closed rfl
  refine ⟨((s.drop.modifyFrame fun f => { f with handlers := [] }).dropFrame.truncate 0).push s.top,
    ?_, ?_, rfl, rfl⟩
  · unfold Act.execute
    simp only [Act.bind_run, h.checkInterrupt, Proc.bind_done, Act.pop, Act.returnValue]
    rw [show Act.frame s.drop = .done (i.frame p k.pc) s.drop from Act.require_run _ _ hframe]
    simp only [Proc.bind_done, Act.bind_run, Act.modifyGet, hunwind, Bool.false_eq_true, if_false,
      Act.modify_run, hleave, Act.pure_run]
    rfl
  · change (s.frames.modify (s.frames.size - 1) _).pop = _
    rw [h.frames]
    rfl

end State

namespace Machine

variable {s : State} {p : Proto} {i : Image} {k k' : Config} {n : Nat}

/-- A run that leaves the host's call in its next step. -/
theorem runStatus_leaves {returned : Bool} {s' : State}
    (h : step ⟨s, .next, hostCall, []⟩ = .running ⟨s', .leave returned, hostCall, []⟩) :
    (∀ m, runStatus (m + 2) (running s) =
      if returned then .done () s'.leaveScript else .raised s'.leaveScript) ∧
    runStatus 1 (running s) = .unfinished := by
  refine ⟨fun m => ?_, ?_⟩
  · change runStatus (m + 1) (step ⟨s, .next, hostCall, []⟩) = _
    rw [h]
    change runStatus m (.ended returned s'.leaveScript) = _
    cases returned <;> cases m <;> rfl
  · change runStatus 0 (step ⟨s, .next, hostCall, []⟩) = _
    rw [h]
    rfl

/-- A run whose code stops ends in two steps. -/
theorem leaves_stop (h : s.At p i k) (hk : advance p.chunk k = .stop) :
    ∃ s', step ⟨s, .next, hostCall, []⟩ = .running ⟨s', .leave true, hostCall, []⟩ ∧
      s'.Exposes i.module (globalValues k.globals) := by
  unfold advance at hk
  split at hk
  · next op hop =>
    obtain rfl := State.eq_return_of_stop hk
    obtain ⟨s₁, hat, hstep⟩ := step_running h hop
    obtain ⟨s₂, hrun, hframes, hheap, hmodules⟩ := hat.return
    refine ⟨s₂, ?_, hat.exposes.congr hheap hmodules⟩
    rw [hstep, hrun]
    unfold absorb
    simp only [hframes]
    rfl
  · cases hk

/-- The names of the classes of the exceptions of the core. -/
theorem layout_refusal (reason : Refusal) :
    ∃ e, classLayout[reason.coreClass.index]? = some e ∧ e.1 = reason.className := by
  cases reason
  · exact ⟨_, rfl, rfl⟩
  · exact ⟨_, rfl, rfl⟩

/-- A run whose code raises ends in two steps. -/
theorem leaves_refuse (h : s.At p i k) {reason : Refusal} {line : Nat}
    (hk : advance p.chunk k = .refuse reason) (hline : p.chunk.lineAt? k.pc = some line) :
    ∃ s', step ⟨s, .next, hostCall, []⟩ = .running ⟨s', .leave false, hostCall, []⟩ ∧
      s'.leaveScript.Exposes i.module (globalValues k.globals) ∧
      (s'.leaveScript.report s'.top).className = reason.className ∧
      (s'.leaveScript.report s'.top).trace.map (·.line) = [some line] := by
  unfold advance at hk
  split at hk
  · next op hop =>
    obtain ⟨s₁, hat, hstep⟩ := step_running h hop
    obtain ⟨message, hrefuse⟩ := hat.refuses hk
    obtain ⟨e, he, hname⟩ := layout_refusal reason
    obtain ⟨heap, x, hfail, hreport⟩ := hat.fail he message
    generalize hs₂ : { s₁ with heap := heap, stack := s₁.stack.push (.object x) : State } = s₂ at hfail
    have htop : s₂.top = .object x := by
      subst hs₂
      unfold State.top
      rw [Array.back?_push]
      rfl
    have hframes : s₂.frames = #[i.frame p (k.pc + 1)] := by
      rw [← hs₂]
      exact hat.frames
    have hunwind := State.unwind_uncaught hframes (by rw [← hs₂]; exact hat.closed)
    rw [htop] at hunwind
    refine ⟨((s₂.drop.dropFrame.truncate 0).push (.object x)).settle 0, ?_, ?_⟩
    · rw [hstep, hrefuse _ hfail]
      unfold absorb
      simp only [hostCall, hunwind]
    · have hlast : (((s₂.drop.dropFrame.truncate 0).push (.object x)).settle 0).top = .object x := by
        unfold State.settle State.top State.push
        simp only [Array.back?_push, Option.getD_some]
      rw [hlast]
      obtain ⟨hexposes, hclass, hlines⟩ := hreport
        (((s₂.drop.dropFrame.truncate 0).push (.object x)).settle 0).leaveScript
        (by rw [← hs₂]; rfl) (by rw [← hs₂]; rfl) (by rw [← hs₂]; rfl)
      exact ⟨hexposes, hclass.trans hname, hlines.trans (congrArg (fun l => [l]) hline)⟩
  · cases hk

/-! ## The host's call -/

/-- More steps do not change how a run ends. -/
theorem runStatus_add {st : Status} (m : Nat) (h : runStatus n st ≠ .unfinished) :
    runStatus (n + m) st = runStatus n st := by
  induction n generalizing st with
  | zero =>
    cases st with
    | running mach => exact absurd rfl h
    | ended returned s => cases returned <;> cases m <;> rfl
    | fault f => cases m <;> rfl
  | succ n ih =>
    cases st with
    | running mach =>
      rw [Nat.add_right_comm]
      exact ih h
    | ended returned s => cases returned <;> cases hm : n + 1 + m <;> rfl
    | fault f => cases hm : n + 1 + m <;> rfl

/-- The host's call enters the code of the main module. -/
theorem enters (h : s.Hosts p i fun _ => none)
    (hclosure : s.heap.get? i.closure = some (.closure i.function #[])) (harity : p.arity = 0)
    (hvararg : p.vararg = false)
    (hdefaults : ∀ f, s.heap.get? i.function = some (.function f) → f.defaults = #[])
    (hlimit : s.settings.maxFrames ≠ 0) (hcalm : s.interrupt = false)
    (hclosed : s.openUpvalues = []) (hframes : s.frames = #[])
    (hstack : s.stack = #[.object i.closure]) :
    ∃ s', step ⟨s, .enter none 0, ⟨0, 0, false⟩, []⟩ = running s' ∧
      s'.At p i (Env.start.place 0 []) := by
  obtain ⟨f, hf, hp, hm, hpool⟩ := h.function
  have hfun : s.function? i.function = some f := by
    unfold State.function?
    rw [hf]
  have hsignature : f.signature = ⟨p.displayName, 0, #[], false⟩ := by
    unfold FunctionObject.signature
    rw [hp, harity, hvararg, hdefaults f hf]
    rfl
  have hcallee : Act.start 1 s = .done 0 s := Act.require_run s _ (by rw [hstack]; rfl)
  have hslot : Act.slotAt 0 s = .done (.object i.closure) s :=
    Act.require_run s _ (by rw [hstack]; rfl)
  have hroom : Act.atFrameLimit s = .done false s := by
    unfold Act.atFrameLimit
    rw [Act.gets_run, hframes, decide_eq_false (by simpa using hlimit)]
  have hadjust : Act.adjustArguments f.signature 0 s = .done 0 s := by
    rw [hsignature]
    unfold Act.adjustArguments
    have hsame : { s with stack := s.stack ++ (#[] : Array Value) } = s := by
      rw [Array.append_empty]
    exact congrArg (Proc.done 0) hsame
  have hrun : Act.enterValue 0 s = .done .next { s with frames := #[i.frame p 0] } := by
    unfold Act.enterValue Act.callClosure
    simp only [Act.bind_run, Nat.zero_add, hcallee, Proc.bind_done, hslot]
    rw [show Act.object i.closure s = .done (.closure i.function #[]) s from
      Act.require_run s _ hclosure]
    simp only [Act.bind_run, Proc.bind_done, hroom, Bool.false_eq_true, if_false]
    rw [show Act.functionOf i.function s = .done f s from Act.require_run s _ hfun]
    simp only [Proc.bind_done, hadjust, hcallee, Act.pushFrame, Act.modify_run,
      Act.pure_run, hframes, hp]
    rfl
  refine ⟨{ s with frames := #[i.frame p 0] : State }.enterScript, ?_, ?_⟩
  · change absorb _ [] (Act.enterValue 0 s) = _
    rw [hrun]
    rfl
  · exact ⟨h.congr rfl rfl rfl, hcalm, hclosed, rfl, hstack⟩

end Machine

/-! ## Evaluating a program -/

/-- What an evaluation makes of the end of the host's call. -/
def concluded : Outcome Unit → Outcome (Except EvalError Unit)
  | .done () s => .done (.ok ()) (s.truncate 0)
  | .raised s => .done (.error (.uncaught (s.report s.top))) (s.truncate 0)
  | .fault f => .fault f
  | .unfinished => .unfinished

/-- Settings that are accepted leave room for a frame and for a call. -/
theorem limits_of_valid {settings : Settings} (h : settings.invalid? = none) :
    settings.maxFrames ≠ 0 ∧ settings.maxReentrant ≠ 0 := by
  unfold Settings.invalid? at h
  split at h
  · cases h
  · split at h
    · cases h
    · split at h
      · cases h
      · exact ⟨‹_›, ‹_›⟩

/-- Top-level code takes no arguments. -/
theorem compile_main {p : Program} {m : Bytecode.Module} (h : Compile.compile p = .ok m) :
    m.main.arity = 0 ∧ m.main.vararg = false ∧ m.main.defaults = #[] := by
  unfold Compile.compile at h
  simp only at h
  split at h
  · cases h
  · split at h
    · cases h
    · cases h
      exact ⟨rfl, rfl, rfl⟩

/-- Evaluating a program runs its code from the start, after one step for the call. -/
theorem State.Fresh.evalProgram_run {s : State} (hfresh : s.Fresh) (hceiling : s.heap.maxBytes = none)
    (hlimit : s.settings.maxFrames ≠ 0) (hnesting : s.settings.maxReentrant ≠ 0) {p : Program}
    {m : Bytecode.Module} (hm : Compile.compile p = .ok m) (hv : m.main.verify = .ok ()) :
    ∃ t i, t.At m.main i (Env.start.place 0 []) ∧
      (Act.evalProgram p).run 0 s = .unfinished ∧
      ∀ steps, (Act.evalProgram p).run (steps + 1) s =
        concluded (Machine.runStatus steps (Machine.running t)) := by
  obtain ⟨i, heap, modules, hload, hhosts, hclosure, hdefaults⟩ :=
    State.hosts_load hfresh hceiling m
  generalize hs₁ : { s with heap := heap, modules := modules : State } = s₁ at hload hhosts
  have hempty : s₁.stack = #[] := by rw [← hs₁]; exact hfresh.stack
  generalize hs₂ : s₁.push (.object i.closure) = s₂
  have heval : Act.evalProgram p s = .call s₂ none 0 fun ok s =>
      if ok then .done (.ok ()) (s.truncate 0)
      else .done (.error (.uncaught (s.report s.top))) (s.truncate 0) := by
    obtain ⟨key, s', hkey⟩ : ∃ key s', Act.internKey Act.mainModule s = .done key s' := ⟨_, _, rfl⟩
    rw [Act.bind_run, hkey, Proc.bind_done] at hload
    unfold Act.evalProgram
    rw [hm]
    unfold Act.evalModule
    simp only [hv, Act.bind_run, hkey, Proc.bind_done, hload, Act.height, Act.gets_run, hempty,
      Act.push_run, hs₂]
    refine congrArg (Proc.call s₂ none 0) (funext fun ok => funext fun s => ?_)
    cases ok <;> rfl
  have hstack : s₂.stack = #[.object i.closure] := by
    rw [← hs₂]
    change s₁.stack.push _ = _
    rw [hempty]
    rfl
  have hframes : s₂.frames = #[] := by rw [← hs₂, ← hs₁]; exact hfresh.frames
  have hsettings : s₂.settings = s.settings := by rw [← hs₂, ← hs₁]; rfl
  have hreentrant : s₂.reentrant = 0 := by rw [← hs₂, ← hs₁]; exact hfresh.reentrant
  have hheap : s₂.heap = heap := by rw [← hs₂, ← hs₁]; rfl
  have hbegin : Machine.start s₂ none 0 [] = .running ⟨s₂, .enter none 0, ⟨0, 0, false⟩, []⟩ := by
    have hroom : ¬ s.settings.maxReentrant ≤ 0 := by omega
    simp only [Machine.start, hstack, hframes, hsettings, hreentrant, if_neg hroom]
    rfl
  obtain ⟨harity, hvararg, hnone⟩ := compile_main hm
  have hdefaults₂ : ∀ f, s₂.heap.get? i.function = some (.function f) → f.defaults = #[] := by
    intro f hf
    have hholds := hdefaults f (hheap ▸ hf)
    rw [hnone] at hholds
    exact Array.toList_eq_nil_iff.1 (List.forall₂_nil_left_iff.1 hholds)
  obtain ⟨s₃, hstep, hat⟩ := Machine.enters
    (hhosts.congr (by rw [← hs₂]; rfl) (by rw [← hs₂]; rfl) (by rw [← hs₂]; rfl))
    (hheap ▸ hclosure) harity hvararg hdefaults₂ (hsettings ▸ hlimit)
    (by rw [← hs₂, ← hs₁]; exact hfresh.interrupt)
    (by rw [← hs₂, ← hs₁]; exact hfresh.openUpvalues) hframes hstack
  refine ⟨s₃, i, hat, ?_, fun steps => ?_⟩
  · unfold Act.run
    rw [heval]
    unfold Proc.finish
    rw [hbegin]
    rfl
  · unfold Act.run
    rw [heval]
    unfold Proc.finish
    rw [hbegin]
    change (match Machine.runStatus steps (Machine.step _) with
      | .done () s => _
      | .raised s => _
      | .fault f => _
      | .unfinished => _) = _
    rw [hstep]
    cases Machine.runStatus steps (Machine.running s₃) <;> rfl

/-! ## Behaviours -/

/-- What can be seen of a program of the core. Of the globals, those count that no module starts
with. -/
inductive Behaviour where
  /-- It ends. -/
  | ends (globals : String → Option Datum)
  /-- It ends with an exception that comes from a line. -/
  | raises (reason : Refusal) (line : Nat) (globals : String → Option Datum)
  /-- It goes on for ever. -/
  | diverges

/-- Globals agree on the names of variables of the core. -/
def SameOwn (globals globals' : String → Option Datum) : Prop :=
  ∀ x, isOwnName x = true → globals x = globals' x

/-- The behaviour of a program by the reference semantics. Lines are counted modulo `2 ^ 32`. -/
def Reference.Shows (p : Program) : Behaviour → Prop
  | .ends globals => ∃ fuel env, Reference.run fuel p = (.ok (), env) ∧ SameOwn env.globals globals
  | .raises reason line globals => ∃ fuel pos env,
    Reference.run fuel p = (.error (.raised reason pos), env) ∧
      (UInt32.ofNat pos.line).toNat = line ∧ SameOwn env.globals globals
  | .diverges => ∀ fuel, ∃ env, Reference.run fuel p = (.error .exhausted, env)

/-- The main module of a machine has the given values of own globals. -/
def State.ShowsGlobals (s : State) (globals : String → Option Datum) : Prop :=
  ∀ x, isOwnName x = true → s.globalNamed? Act.mainModule x = (globals x).map Datum.value

/-- The behaviour of a program on a machine that has run nothing. -/
def Machine.Shows (settings : Settings) (p : Program) : Behaviour → Prop
  | .ends globals => ∃ steps s, (Act.evalProgram p).run steps (.create settings) = .done (.ok ()) s ∧
    s.ShowsGlobals globals
  | .raises reason line globals => ∃ steps e s,
    (Act.evalProgram p).run steps (.create settings) = .done (.error (.uncaught e)) s ∧
      e.className = reason.className ∧ e.trace.map (·.line) = [some line] ∧ s.ShowsGlobals globals
  | .diverges => ∀ steps, (Act.evalProgram p).run steps (.create settings) = .unfinished

/-! ## More steps -/

/-- More steps do not change what an action of the host ends with. -/
theorem Proc.finish_add {α : Type} {n : Nat} (m : Nat) (x : Proc α)
    (h : x.finish n ≠ .unfinished) : x.finish (n + m) = x.finish n := by
  induction x with
  | done a s => rfl
  | raised s => rfl
  | fault f => rfl
  | call s method argc resume ih =>
    unfold Proc.finish at h ⊢
    have hstatus : Machine.runStatus n (Machine.start s method argc []) ≠ .unfinished := by
      intro hu
      rw [hu] at h
      exact h rfl
    rw [Machine.runStatus_add m hstatus]
    generalize Machine.runStatus n (Machine.start s method argc []) = r at h
    cases r with
    | done u s => exact ih true s h
    | raised s => exact ih false s h
    | fault f => rfl
    | unfinished => exact absurd rfl h

/-- An action of the host ends in one way only. -/
theorem Act.run_unique {α : Type} {x : Act α} {s : State} {n n' : Nat} {r r' : Outcome α}
    (h : x.run n s = r) (h' : x.run n' s = r') (hr : r ≠ .unfinished) (hr' : r' ≠ .unfinished) :
    r = r' := by
  subst h h'
  unfold Act.run at hr hr' ⊢
  rw [← Proc.finish_add n' (x s) hr, Nat.add_comm, Proc.finish_add n (x s) hr']

/-! ## The run of the code of a program -/

namespace Machine

variable {s : State} {i : Image} {p : Program} {m : Bytecode.Module} {fuel : Nat}

/-- Code that was checked has a line for each instruction. -/
theorem lines_of_verify {p : Proto} (h : p.verify = .ok ()) :
    p.chunk.lines.size = p.chunk.code.size := by
  obtain ⟨name, arity, defaults, vararg, upvalueCount, ⟨code, ⟨constants⟩, lines⟩⟩ := p
  unfold Proto.verify at h
  simp only at h
  split at h
  · cases h
  · next hown =>
    unfold Proto.ownOffence? at hown
    split at hown
    · cases hown
    · exact Decidable.of_not_not ‹_›

/-- Where the code stops, the run ends with the globals of that place. -/
theorem ends_of_stop {p : Proto} {k k' : Config} (h : s.At p i k) (hr : Arrives p.chunk 0 k k')
    (hk : advance p.chunk k' = .stop) :
    ∃ n s', runStatus n (running s) = .done () s' ∧
      s'.Exposes i.module (globalValues k'.globals) := by
  obtain ⟨n, -, hreach⟩ := hr
  obtain ⟨s₁, hat, hrun⟩ := runStatus_reaches hreach h
  obtain ⟨s₂, hstep, hexposes⟩ := leaves_stop hat hk
  refine ⟨n + 2, s₂.leaveScript, ?_, hexposes.congr rfl rfl⟩
  rw [hrun, (runStatus_leaves hstep).1 0]
  rfl

/-- Where the code raises, the run ends with an exception of that class and from that line. -/
theorem raises_of_refuse {p : Proto} {k : Config} {reason : Refusal} {pos : Position}
    {globals : String → Option Datum} (h : s.At p i k)
    (hr : Refuses p.chunk k reason pos globals) :
    ∃ n s', runStatus n (running s) = .raised s' ∧
      s'.Exposes i.module (globalValues globals) ∧
      (s'.report s'.top).className = reason.className ∧
      (s'.report s'.top).trace.map (·.line) = [some (UInt32.ofNat pos.line).toNat] := by
  obtain ⟨k', ⟨n, -, hreach⟩, hk, hline, rfl⟩ := hr
  obtain ⟨s₁, hat, hrun⟩ := runStatus_reaches hreach h
  obtain ⟨s₂, hstep, hshown⟩ := leaves_refuse hat hk hline
  refine ⟨n + 2, s₂.leaveScript, ?_, hshown⟩
  rw [hrun, (runStatus_leaves hstep).1 0]
  rfl

/-- A run is not over before its code has taken its steps. -/
theorem unfinished_of_arrives {p : Proto} {k k' : Config} (h : s.At p i k)
    (hr : Arrives p.chunk fuel k k') : runStatus fuel (running s) = .unfinished := by
  obtain ⟨n, hn, hreach⟩ := hr
  obtain ⟨s₁, -, hrun⟩ := runStatus_reaches hreach h
  by_contra hover
  have hsame := runStatus_add (n - fuel) hover
  rw [Nat.add_sub_cancel' hn] at hsame
  exact hover (hsame.symm.trans (hrun 0))

end Machine

/-! ## Behaviours agree -/

/-- Behaviours that look the same. -/
def Behaviour.Same : Behaviour → Behaviour → Prop
  | .ends g, .ends g' => SameOwn g g'
  | .raises reason line g, .raises reason' line' g' =>
    reason = reason' ∧ line = line' ∧ SameOwn g g'
  | .diverges, .diverges => True
  | _, _ => False

/-- The reference semantics does not tell behaviours apart that look the same. -/
theorem Reference.Shows.congr {p : Program} {b b' : Behaviour} (h : Reference.Shows p b)
    (hb : b.Same b') : Reference.Shows p b' := by
  match b, b', hb with
  | .ends g, .ends g', hg =>
    obtain ⟨fuel, env, hrun, hown⟩ := h
    exact ⟨fuel, env, hrun, fun x hx => (hown x hx).trans (hg x hx)⟩
  | .raises reason line g, .raises _ _ g', ⟨rfl, rfl, hg⟩ =>
    obtain ⟨fuel, pos, env, hrun, hline, hown⟩ := h
    exact ⟨fuel, pos, env, hrun, hline, fun x hx => (hown x hx).trans (hg x hx)⟩
  | .diverges, .diverges, _ => exact h

/-- Data with the same value are the same. -/
theorem Reference.Datum.value_injective : Function.Injective Datum.value := by
  intro a b h
  cases a <;> cases b <;> cases h <;> rfl

/-- Refusals with the same exception class are the same. -/
theorem Reference.Refusal.className_injective : Function.Injective Refusal.className := by
  intro a b h
  cases a <;> cases b <;> first | rfl | exact absurd h (by decide)

/-- A machine has one value of each own global. -/
theorem State.ShowsGlobals.same {s : State} {g g' : String → Option Datum} (h : s.ShowsGlobals g)
    (h' : s.ShowsGlobals g') : SameOwn g g' := fun x hx =>
  Option.map_injective Datum.value_injective ((h x hx).symm.trans (h' x hx))

/-- A program has one behaviour on a machine. -/
theorem Machine.Shows.same {settings : Settings} {p : Program} {b b' : Behaviour}
    (h : Machine.Shows settings p b) (h' : Machine.Shows settings p b') : b.Same b' := by
  match b, b' with
  | .diverges, .diverges => trivial
  | .diverges, .ends _ =>
    obtain ⟨n, s, hrun, -⟩ := h'
    cases (h n).symm.trans hrun
  | .diverges, .raises .. =>
    obtain ⟨n, e, s, hrun, -⟩ := h'
    cases (h n).symm.trans hrun
  | .ends _, .diverges =>
    obtain ⟨n, s, hrun, -⟩ := h
    cases (h' n).symm.trans hrun
  | .raises .., .diverges =>
    obtain ⟨n, e, s, hrun, -⟩ := h
    cases (h' n).symm.trans hrun
  | .ends _, .ends _ =>
    obtain ⟨n, s, hrun, hg⟩ := h
    obtain ⟨n', s', hrun', hg'⟩ := h'
    cases Act.run_unique hrun hrun' nofun nofun
    exact hg.same hg'
  | .ends _, .raises .. =>
    obtain ⟨n, s, hrun, -⟩ := h
    obtain ⟨n', e, s', hrun', -⟩ := h'
    cases Act.run_unique hrun hrun' nofun nofun
  | .raises .., .ends _ =>
    obtain ⟨n, e, s, hrun, -⟩ := h
    obtain ⟨n', s', hrun', -⟩ := h'
    cases Act.run_unique hrun hrun' nofun nofun
  | .raises _ line _, .raises _ line' _ =>
    obtain ⟨n, e, s, hrun, hclass, hline, hg⟩ := h
    obtain ⟨n', e', s', hrun', hclass', hline', hg'⟩ := h'
    cases Act.run_unique hrun hrun' nofun nofun
    have hlines : [some line] = [some line'] := hline.symm.trans hline'
    exact ⟨Refusal.className_injective (hclass.symm.trans hclass'),
      Option.some.inj (List.singleton_inj.1 hlines), hg.same hg'⟩

section Programs

variable {settings : Settings} {p : Program} {m : Bytecode.Module}

/-- Every program of the core has a behaviour: it neither jumps out of nowhere nor does anything
that is not in the core. -/
theorem Reference.exists_shows (hm : Compile.compile p = .ok m) (hv : m.main.verify = .ok ())
    (hcore : programInCore p = true) : ∃ b, Reference.Shows p b := by
  by_cases hall : ∀ fuel, ∃ env, Reference.run fuel p = (.error .exhausted, env)
  · exact ⟨.diverges, hall⟩
  · obtain ⟨fuel, hover⟩ := not_forall.1 hall
    have hruns := Compile.runs_compile hm hcore (Machine.lines_of_verify hv) fuel
    rcases hrun : Reference.run fuel p with ⟨_ | _, env⟩
    · next e =>
      rw [hrun] at hruns
      cases e with
      | broke => cases hruns
      | continued => cases hruns
      | foreign => cases hruns
      | exhausted => exact absurd ⟨env, hrun⟩ hover
      | raised reason pos =>
        exact ⟨.raises reason _ env.globals, fuel, pos, env, hrun, rfl, fun _ _ => rfl⟩
    · exact ⟨.ends env.globals, fuel, env, hrun, fun _ _ => rfl⟩

/-- The main module shows the globals it has. -/
theorem State.Exposes.showsGlobals {s s' : State} {module : Handle}
    {globals globals' : String → Option Datum} (h : s.Exposes module (globalValues globals))
    (hheap : s'.heap = s.heap) (hmodules : s'.modules = s.modules) (hg : SameOwn globals globals') :
    s'.ShowsGlobals globals' := fun x hx => by
  rw [(h.congr hheap hmodules).globalNamed? hx, ← hg x hx]
  rfl

/-- A program does on a machine what the reference semantics says. -/
theorem Machine.shows_of_reference (hs : settings.invalid? = none)
    (hceiling : settings.maxHeapBytes = none) (hm : Compile.compile p = .ok m)
    (hv : m.main.verify = .ok ()) (hcore : programInCore p = true) {b : Behaviour}
    (h : Reference.Shows p b) : Machine.Shows settings p b := by
  have hruns := Compile.runs_compile hm hcore (Machine.lines_of_verify hv)
  obtain ⟨hfresh, hmax, hsettings⟩ := State.fresh_create settings
  obtain ⟨hlimit, hnesting⟩ := limits_of_valid hs
  obtain ⟨s, i, hat, hzero, hrun⟩ := hfresh.evalProgram_run (hmax.trans hceiling)
    (hsettings.symm ▸ hlimit) (hsettings.symm ▸ hnesting) hm hv
  match b with
  | .ends globals =>
    obtain ⟨fuel, env, hends, hown⟩ := h
    obtain ⟨k, harrives, hstop, hglobals⟩ := hends ▸ hruns fuel
    obtain ⟨n, s', hn, hexposes⟩ := Machine.ends_of_stop hat harrives hstop
    rw [hglobals] at hexposes
    refine ⟨n + 1, s'.truncate 0, ?_, hexposes.showsGlobals rfl rfl hown⟩
    rw [hrun, hn]
    rfl
  | .raises reason line globals =>
    obtain ⟨fuel, pos, env, hends, rfl, hown⟩ := h
    obtain ⟨n, s', hn, hexposes, hclass, hline⟩ :=
      Machine.raises_of_refuse hat (hends ▸ hruns fuel)
    refine ⟨n + 1, _, s'.truncate 0, ?_, hclass, hline, hexposes.showsGlobals rfl rfl hown⟩
    rw [hrun, hn]
    rfl
  | .diverges =>
    intro steps
    match steps with
    | 0 => exact hzero
    | steps + 1 =>
      obtain ⟨env, hends⟩ := h steps
      obtain ⟨k, harrives⟩ := hends ▸ hruns steps
      rw [hrun, Machine.unfinished_of_arrives hat harrives]
      rfl

/-- The compiler is correct on the control-flow core: on a machine without a ceiling on the heap, an
accepted program shows a behaviour if and only if the reference semantics does, and it does show
one. -/
theorem Machine.shows_iff (hs : settings.invalid? = none) (hceiling : settings.maxHeapBytes = none)
    (hm : Compile.compile p = .ok m) (hv : m.main.verify = .ok ())
    (hcore : programInCore p = true) :
    (∀ b, Machine.Shows settings p b ↔ Reference.Shows p b) ∧ ∃ b, Machine.Shows settings p b := by
  have hforward {b : Behaviour} : Reference.Shows p b → Machine.Shows settings p b :=
    Machine.shows_of_reference hs hceiling hm hv hcore
  obtain ⟨b₀, hb₀⟩ := Reference.exists_shows hm hv hcore
  refine ⟨fun b => ⟨fun hb => ?_, hforward⟩, b₀, hforward hb₀⟩
  exact hb₀.congr ((hforward hb₀).same hb)

end Programs

/-- A `for` loop with both jumps, a `while` loop, and a read of a name that means nothing. -/
def searchInVain : Program where
  file := ""
  body := [
    .declare ⟨1, 1⟩ ["found"] (some (.bool ⟨1, 13⟩ false)),
    .forLoop ⟨2, 1⟩ (some (.declare ⟨2, 6⟩ ["again"] (some (.bool ⟨2, 18⟩ true))))
      (some (.ident ⟨2, 24⟩ "again"))
      (some (.assign ⟨2, 37⟩ (.ident ⟨2, 31⟩ "again") (.unary ⟨2, 39⟩ .not (.ident ⟨2, 40⟩ "again"))))
      (.block ⟨2, 47⟩ [.branch ⟨3, 3⟩ (.ident ⟨3, 6⟩ "found") (.breakLoop ⟨3, 12⟩)
        (some (.block ⟨3, 20⟩ [
          .expression ⟨4, 5⟩ (.assign ⟨4, 11⟩ (.ident ⟨4, 5⟩ "found") (.bool ⟨4, 13⟩ true)),
          .continueLoop ⟨4, 19⟩]))]),
    .whileLoop ⟨5, 1⟩ (.ident ⟨5, 7⟩ "found")
      (.expression ⟨5, 13⟩ (.assign ⟨5, 19⟩ (.ident ⟨5, 13⟩ "found") (.null ⟨5, 21⟩))),
    .expression ⟨6, 1⟩ (.disj ⟨6, 7⟩ (.ident ⟨6, 1⟩ "found") (.ident ⟨6, 10⟩ "missing"))]

theorem Machine.shows_searchInVain : ∃ m, Compile.compile searchInVain = .ok m ∧
    m.main.verify = .ok () ∧ Machine.Shows .default searchInVain
      (.raises .name 6 fun x => if x = "found" then some .null else none) := by
  have haccepted : (match Compile.compile searchInVain with
      | .ok m => m.main.verify.toBool
      | .error _ => false) = true := by decide +kernel
  split at haccepted
  · next m hm =>
    obtain ⟨⟨⟩, hv⟩ := Compile.exists_of_toBool haccepted
    have hvalid : Settings.default.invalid? = none := by decide +kernel
    have hiff := Machine.shows_iff hvalid rfl hm hv (by decide +kernel)
    refine ⟨m, hm, hv, (hiff.1 _).2 ⟨2, ⟨6, 10⟩, _, rfl, rfl, fun x _ => ?_⟩⟩
    by_cases hx : x = "found"
    · subst hx
      rfl
    · simp only [Env.setGlobal, Env.leave, Env.enter, Env.declare, Env.start, List.foldl, if_neg hx]
  · cases haccepted

end ScriptEngine
