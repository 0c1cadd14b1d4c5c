import ScriptEngine.Proofs.Scopes

/-!
# Code for loops

A loop is a condition, a body and a step with a jump back. Each round takes at least one step of the
machine, so that a loop which uses up its fuel keeps the machine going for as many steps. The jumps
that `break` and `continue` leave behind drop the locals of the scopes they leave, and land behind
the loop and on its step.
-/

namespace ScriptEngine.Reference

open Bytecode Source

/-- A computation that jumps out of no loop. -/
def Calm {α : Type} (x : Script α) : Prop :=
  ∀ env, (x env).1 ≠ .error .broke ∧ (x env).1 ≠ .error .continued

section Calm

variable {α β : Type}

/-- A value. -/
theorem calm_pure (a : α) : Calm (pure a : Script α) := fun _ => ⟨nofun, nofun⟩

/-- A requirement. -/
theorem calm_require (a? : Option α) (reason : Refusal) (pos : Position) :
    Calm (Script.require a? reason pos) := by
  cases a? <;> exact fun _ => ⟨nofun, nofun⟩

/-- One computation after another. -/
theorem Calm.bind {x : Script α} {f : α → Script β} (hx : Calm x) (hf : ∀ a, Calm (f a)) :
    Calm (x >>= f) := by
  intro env
  change (Script.bind x f env).1 ≠ _ ∧ (Script.bind x f env).1 ≠ _
  unfold Script.bind
  have h := hx env
  generalize x env = r at h
  obtain ⟨e | a, env'⟩ := r
  · simpa using h
  · exact hf a env'

/-- A choice of two. -/
theorem calm_ite {c : Prop} [Decidable c] {x y : Script α} (hx : Calm x) (hy : Calm y) :
    Calm (if c then x else y) := by
  split
  · exact hx
  · exact hy

/-- Reading a variable. -/
theorem calm_read (name : String) (pos : Position) : Calm (Script.read name pos) :=
  fun env => calm_require (env.find? name) .name pos env

/-- Writing a variable. -/
theorem calm_write (name : String) (pos : Position) (d : Datum) :
    Calm (Script.write name pos d) := by
  intro env
  unfold Script.write
  split
  · exact ⟨nofun, nofun⟩
  · exact ⟨nofun, nofun⟩

/-- Expressions do not jump. -/
theorem calm_eval (e : Expr) : Calm (eval e) := by
  fun_induction eval e with
  | case1 => exact calm_pure _
  | case2 => exact calm_pure _
  | case3 => exact calm_pure _
  | case4 => exact calm_read _ _
  | case5 pos op l r ihl ihr => exact ihl.bind fun _ => ihr.bind fun _ => calm_require _ _ _
  | case6 pos op e ih => exact ih.bind fun _ => calm_require _ _ _
  | case7 pos l r ihl ihr => exact ihl.bind fun _ => calm_ite ihr (calm_pure _)
  | case8 pos l r ihl ihr => exact ihl.bind fun _ => calm_ite (calm_pure _) ihr
  | case9 pos c t e ihc iht ihe => exact ihc.bind fun _ => calm_ite iht ihe
  | case10 p pos name value ih =>
    exact ih.bind fun _ => (calm_write _ _ _).bind fun _ => calm_pure _
  | case11 p op pos name value ih =>
    exact (calm_read _ _).bind fun _ => ih.bind fun _ =>
      (calm_require _ _ _).bind fun _ => (calm_write _ _ _).bind fun _ => calm_pure _
  | case12 =>
    exact fun _ => ⟨fun h => Signal.noConfusion (Except.error.inj h),
      fun h => Signal.noConfusion (Except.error.inj h)⟩

end Calm

section Rounds

variable {c : Chunk} {fuel m : Nat} {x : Exits} {k : Config} {sh : List (List String)} {α : Type}

/-- What follows a computation that jumps out of no loop needs no loop around it. -/
theorem Follows.calm {f : Script α} {env : Env} {done : α → Env → Config} (hf : Calm f)
    (h : Follows c fuel x m k sh done (f env)) (x' : Exits) :
    Follows c fuel x' m k sh done (f env) := by
  have hcalm := hf env
  generalize f env = r at h hcalm
  obtain ⟨r, env'⟩ := r
  cases r with
  | ok a => exact h
  | error e =>
    cases e with
    | broke => exact absurd rfl hcalm.1
    | continued => exact absurd rfl hcalm.2
    | raised reason pos => exact h
    | exhausted => exact h
    | foreign => exact h

/-- A jump that leaves no scope. -/
theorem Exits.Reached.level {pc : Nat} {env : Env} (h : x.Reached (some pc) c k env)
    (hlen : env.scopes.length = x.shape.length) :
    env.shape = x.shape ∧ Arrives c 0 k (env.place pc []) := by
  obtain ⟨_, ⟨⟩, hshape, ha⟩ := h
  have hsame : env.outside x.shape.length = env := by
    unfold Env.outside
    rw [hlen, Nat.sub_self, List.drop_zero]
  rw [hsame] at hshape ha
  exact ⟨hshape, ha⟩

/-- As many scopes as the shape has. -/
theorem length_of_shape {env : Env} (h : env.shape = sh) : env.scopes.length = sh.length := by
  rw [← h, Env.shape, List.length_map]

/-- A body that is continued ends where it would have ended by itself. -/
theorem Follows.catchContinue {f : Script Unit} {env : Env} {exit next : Nat} (hf : Balanced f)
    (hshape : env.shape = sh)
    (h : Follows c fuel ⟨some exit, some next, sh⟩ 0 k sh (fun _ env' => env'.place next [])
      (f env)) :
    Follows c fuel ⟨some exit, none, sh⟩ 0 k sh (fun _ env' => env'.place next [])
      (Script.catching .continued f env) := by
  have hlen := (hf env).trans (length_of_shape hshape)
  unfold Script.catching
  generalize f env = r at h hlen
  obtain ⟨r, env'⟩ := r
  cases r with
  | ok a => exact h
  | error e =>
    cases e with
    | continued => exact Exits.Reached.level h hlen
    | broke => exact h
    | raised reason pos => exact h
    | exhausted => exact h
    | foreign => exact h

/-- A loop that is broken ends where it would have ended by itself. -/
theorem Follows.catchBreak {f : Script Unit} {env : Env} {exit : Nat} (hf : Balanced f)
    (hshape : env.shape = sh)
    (h : Follows c fuel ⟨some exit, none, sh⟩ 0 k sh (fun _ env' => env'.place exit [])
      (f env)) (x : Exits) :
    Follows c fuel x 0 k sh (fun _ env' => env'.place exit [])
      (Script.catching .broke f env) := by
  have hlen := (hf env).trans (length_of_shape hshape)
  unfold Script.catching
  generalize f env = r at h hlen
  obtain ⟨r, env'⟩ := r
  cases r with
  | ok a => exact h
  | error e =>
    cases e with
    | broke => exact Exits.Reached.level h hlen
    | continued =>
      obtain ⟨pc, hpc, -⟩ := h
      cases hpc
    | raised reason pos => exact h
    | exhausted => exact h
    | foreign => exact h

/-- The code of a loop, given that of its condition, body and step. Either the condition or the step
takes time. -/
theorem follows_iterate (inside next : Nat) {start exit m₁ m₂ : Nat} {condition : Script Bool}
    {body step : Script Unit} (hm : m₁ + m₂ = 1) (hb : Balanced body)
    (hcond : ∀ env, env.shape = sh → ∀ x, Follows c fuel x m₁ (env.place start []) sh
      (fun b env' => env'.place (if b then inside else exit) []) (condition env))
    (hbody : ∀ env, env.shape = sh → Follows c fuel ⟨some exit, some next, sh⟩ 0
      (env.place inside []) sh (fun _ env' => env'.place next []) (body env))
    (hstep : ∀ env, env.shape = sh → ∀ x, Follows c fuel x m₂ (env.place next []) sh
      (fun _ env' => env'.place start []) (step env)) (n : Nat) (hn : n ≤ fuel) (env : Env)
    (hshape : env.shape = sh) :
    Follows c n ⟨some exit, none, sh⟩ 0 (env.place start []) sh (fun _ env' => env'.place exit [])
      (Script.iterate condition body step n env) := by
  induction n generalizing env with
  | zero => exact ⟨_, .refl _ _⟩
  | succ n ih =>
    have hfuel : n + m₂ + m₁ = n + 1 := by omega
    have hfirst := (hcond env hshape ⟨some exit, none, sh⟩).weaken
      (show n + m₂ + m₁ ≤ fuel by omega) (Nat.le_refl _)
    have hround : Follows c (n + m₂ + m₁) ⟨some exit, none, sh⟩ (m₁ + 0) (env.place start []) sh
        (fun _ env' => env'.place exit []) (Script.iterate condition body step (n + 1) env) := by
      refine hfirst.bind fun b env₁ hshape₁ => ?_
      cases b with
      | false => exact follows_pure hshape₁ (.refl _ _)
      | true =>
        have hinner := ((hbody env₁ hshape₁).catchContinue hb hshape₁).weaken
          (show n + m₂ ≤ fuel by omega) (Nat.le_refl _)
        refine Follows.seq hinner fun _ env₂ hshape₂ => ?_
        have hback := (hstep env₂ hshape₂ ⟨some exit, none, sh⟩).weaken
          (show n + m₂ ≤ fuel by omega) (Nat.le_refl _)
        have hagain := hback.bind fun _ env₃ hshape₃ => ih (by omega) env₃ hshape₃
        exact hagain.weaken (Nat.le_refl _) (Nat.zero_le _)
    rw [hfuel] at hround
    exact hround.weaken (Nat.le_refl _) (Nat.zero_le _)

end Rounds

end ScriptEngine.Reference

namespace ScriptEngine.Compile

open Bytecode Source Reference

/-! ## Jumping out of loops -/

section Jumps

variable {outer sh sh' : List (List String)} {s t : CompilerState} {ctx : Context} {line : Nat}

/-- Seen from outside some scopes, the names are those of the others. -/
theorem shape_outside {env : Env} (h : env.shape = sh) (hsub : sh' <:+ sh) :
    (env.outside sh'.length).shape = sh' := by
  have hdrop : sh' = sh.drop (sh.length - sh'.length) := List.suffix_iff_eq_drop.1 hsub
  have hlen := length_of_shape h
  unfold Env.outside Env.shape
  rw [List.map_drop, hlen]
  exact (congrArg (List.drop _) h).trans hdrop.symm

/-- The values of outer scopes are at the bottom of the stack. -/
theorem values_outside (env : Env) (depth : Nat) :
    ∃ ds, env.values = ds ++ (env.outside depth).values := by
  refine ⟨(env.scopes.take (env.scopes.length - depth)).flatten.map Prod.snd, ?_⟩
  unfold Env.values Env.locals Env.outside
  rw [← List.map_append, ← List.flatten_append, List.take_append_drop]

/-- The code before a jump drops the locals of the scopes that the jump leaves. -/
theorem discards {count : Nat} {u : Unit} (h : AtScopes [] sh s)
    (hr : Ran (updateFunction (·.discardLocals count line)) s u t) :
    AtScopes [] sh t ∧ Emits s t [] [] ∧ t.current.loops = s.current.loops ∧
      ∀ ⦃c : Chunk⦄ ⦃env : Env⦄ ⦃sh'⦄, Fixed c s t [] → env.shape = sh → sh' <:+ sh →
        count = (localsOf sh').length →
        Arrives c 0 (env.place s.size []) ((env.outside sh'.length).place t.size []) := by
  obtain rfl : t = s.withCurrent (dropAll line s.current
      (s.current.locals.take (s.current.locals.length - count))) := ran_updateFunction.1 hr
  have hfree : ∀ l ∈ s.current.locals.take (s.current.locals.length - count),
      l.captured = false := by
    intro l hl
    have hmem := List.mem_of_mem_take hl
    rw [h.locals] at hmem
    exact (localsOf_usable hmem).2
  obtain ⟨hst, he, hsize, hcode⟩ := atScopes_dropAll line h hfree
  have hloops := he.loops
  rw [addJumps_nil] at hloops
  refine ⟨hst, he, hloops, ?_⟩
  intro c env sh' hfix hshape hsub hcount
  obtain ⟨ds, hds⟩ := values_outside env sh'.length
  have hlen : ds.length = (s.current.locals.take (s.current.locals.length - count)).length := by
    have h₁ := length_localsOf env
    have h₂ := length_localsOf (env.outside sh'.length)
    have h₃ := congrArg List.length hds
    have h₄ : s.current.locals.length = (localsOf sh).length := congrArg List.length h.locals
    rw [hshape] at h₁
    rw [shape_outside hshape hsub] at h₂
    rw [List.length_append] at h₃
    rw [List.length_take]
    omega
  have hpops : Arrives c ds.length ⟨s.size, ds ++ (env.outside sh'.length).values, env.globals⟩
      ⟨s.size + ds.length, (env.outside sh'.length).values, env.globals⟩ :=
    arrives_pops fun i hi =>
      hfix.code (Nat.le_add_right _ _) (hcode i (hlen ▸ hi)) List.not_mem_nil
  rw [← hds, hlen, ← hsize] at hpops
  exact hpops.weaken (Nat.zero_le _)

/-- Where no `try` statement is around, none is left. -/
theorem ran_exitTries {depth : Nat} {u : Unit} (htries : ctx.tries = []) :
    Ran (exitTries ctx depth line) s u t ↔ t = s := by
  unfold exitTries
  rw [if_pos (by rw [htries]; exact Nat.zero_le _), ran_pure]
  exact ⟨fun h => h.2, fun h => ⟨rfl, h⟩⟩

/-- A jump that lands on an offset is a step to it. -/
theorem LandsOn.arrives {c : Chunk} {j target : Nat} (h : LandsOn c j target) (env : Env) :
    Arrives c 0 (env.place j []) (env.place target []) := by
  obtain ⟨d, hcode, rfl⟩ := h
  exact (arrives_one (k := env.place j []) hcode rfl).weaken (Nat.zero_le _)

/-- A backward jump leads to its target. -/
theorem loop_arrives {c : Chunk} {j start : Nat} (hle : start ≤ j)
    (hmax : j - start + 1 ≤ Chunk.maxJump)
    (h : c.code[j]? = some (.loop (UInt16.ofNat (j - start + 1)))) (env : Env) :
    Arrives c 1 (env.place j []) (env.place start []) := by
  have hmod : (UInt16.ofNat (j - start + 1)).toNat = j - start + 1 :=
    toNat_word (Nat.lt_succ_of_le hmax)
  refine arrives_one (k := env.place j []) h ?_
  have htarget : j + 1 - (UInt16.ofNat (j - start + 1)).toNat = start := by omega
  change Move.next ⟨j + 1 - (UInt16.ofNat (j - start + 1)).toNat, _, _⟩ = _
  rw [htarget]
  rfl

/-- A jump recorded for a `break`. -/
theorem emits_break (line : Nat) {l : LoopRecord} {ls : List LoopRecord} (hl : s.current.loops = l :: ls) :
    Emits s ((s.withCurrent (s.current.emit (.jump 0) line)).withLoops
      ({ l with breakPatches := l.breakPatches ++ [s.size] } :: ls)) [s.size] [] where
  grown := s.chunk.grown_emit (.jump 0) line
  loops := by
    rw [hl]
    simp [addJumps, CompilerState.withLoops]
  jump j hj := by
    obtain rfl := List.mem_singleton.1 hj
    exact ⟨Nat.le_refl _, code_emit s _ line⟩
  empty h := by
    rw [hl] at h
    cases h
  targeted _ _ _ _ := rfl
  apart _ _ := List.not_mem_nil

/-- A jump recorded for a `continue` whose target comes later. -/
theorem emits_continue (line : Nat) {l : LoopRecord} {ls : List LoopRecord} (hl : s.current.loops = l :: ls)
    (htarget : l.continueTarget = none) :
    Emits s ((s.withCurrent (s.current.emit (.jump 0) line)).withLoops
      ({ l with continuePatches := l.continuePatches ++ [s.size] } :: ls)) [] [s.size] where
  grown := s.chunk.grown_emit (.jump 0) line
  loops := by
    rw [hl]
    simp [addJumps, CompilerState.withLoops]
  jump j hj := by
    obtain rfl := List.mem_singleton.1 hj
    exact ⟨Nat.le_refl _, code_emit s _ line⟩
  empty h := by
    rw [hl] at h
    cases h
  targeted l' ls' hl' h := by
    rw [hl] at hl'
    obtain ⟨rfl, -⟩ := List.cons.inj hl'
    exact absurd htarget h
  apart _ h := absurd h List.not_mem_nil

/-- `break` leads out of the innermost loop. -/
theorem codes_break {pos : Position} (htries : ctx.tries = []) (hout : outer <:+ sh) :
    Codes outer [] sh sh [] (emitBreak ctx pos)
      (fun _ => (Script.signal .broke : Script Unit)) (fun _ => []) := by
  intro s s' hs hr
  simp only [emitBreak, ran_bind, ran_get] at hr
  obtain ⟨_, s, ⟨rfl, rfl⟩, hr⟩ := hr
  cases hl : s.current.loops with
  | nil =>
    rw [hl] at hr
    exact absurd hr ran_fail
  | cons l ls =>
    rw [hl] at hr
    simp only [ran_bind, ran_exitTries htries, ran_emitJump] at hr
    obtain ⟨_, _, rfl, _, t, hrd, _, _, ⟨rfl, rfl⟩, hru⟩ := hr
    obtain ⟨hst, he, hloops, hdiscard⟩ := discards hs hrd
    rw [hl] at hloops
    have hloops' : (t.withCurrent (t.current.emit (.jump 0) pos.line)).current.loops = l :: ls :=
      hloops
    obtain rfl := (ran_updateLoop hloops').1 hru
    have hej := emits_break pos.line hloops
    have hst' := hst.emit (.jump 0) pos.line
    refine ⟨⟨hst'.locals, hst'.depth, hst'.alone, hst'.slots, hst'.pool, hst'.covered⟩, _, _,
      he.trans hej, ?_⟩
    intro c fuel x env hfix hlead hshape
    obtain ⟨hfix₁, -⟩ := hfix.split he hej
    obtain ⟨-, hcount, -⟩ := hlead.loop l ls hl
    obtain ⟨target, htarget, hlands⟩ := hlead.broke t.size (by simp)
    have hsub : x.shape <:+ sh := hlead.inside.trans hout
    refine ⟨target, htarget, shape_outside hshape hsub, ?_⟩
    exact (hdiscard hfix₁ hshape hsub hcount).trans (hlands.arrives _)

/-- `continue` leads to the next round of the innermost loop. -/
theorem codes_continue {pos : Position} (htries : ctx.tries = []) (hout : outer <:+ sh) :
    Codes outer [] sh sh [] (emitContinue ctx pos)
      (fun _ => (Script.signal .continued : Script Unit)) (fun _ => []) := by
  intro s s' hs hr
  simp only [emitContinue, ran_bind, ran_get] at hr
  obtain ⟨_, s, ⟨rfl, rfl⟩, hr⟩ := hr
  cases hl : s.current.loops with
  | nil =>
    rw [hl] at hr
    exact absurd hr ran_fail
  | cons l ls =>
    rw [hl] at hr
    simp only [ran_bind, ran_exitTries htries] at hr
    obtain ⟨_, _, rfl, _, t, hrd, hr⟩ := hr
    obtain ⟨hst, he, hloops, hdiscard⟩ := discards hs hrd
    rw [hl] at hloops
    cases htarget : l.continueTarget with
    | none =>
      simp only [htarget, ran_bind, ran_emitJump] at hr
      obtain ⟨_, _, ⟨rfl, rfl⟩, hru⟩ := hr
      have hloops' : (t.withCurrent (t.current.emit (.jump 0) pos.line)).current.loops = l :: ls :=
        hloops
      obtain rfl := (ran_updateLoop hloops').1 hru
      have hej := emits_continue pos.line hloops htarget
      have hst' := hst.emit (.jump 0) pos.line
      refine ⟨⟨hst'.locals, hst'.depth, hst'.alone, hst'.slots, hst'.pool, hst'.covered⟩, _, _,
        he.trans hej, ?_⟩
      intro c fuel x env hfix hlead hshape
      obtain ⟨hfix₁, -⟩ := hfix.split he hej
      obtain ⟨-, hcount, -⟩ := hlead.loop l ls hl
      obtain ⟨target, htarget, hlands⟩ := hlead.continued t.size (by simp)
      have hsub : x.shape <:+ sh := hlead.inside.trans hout
      refine ⟨target, htarget, shape_outside hshape hsub, ?_⟩
      exact (hdiscard hfix₁ hshape hsub hcount).trans (hlands.arrives _)
    | some start =>
      simp only [htarget] at hr
      obtain ⟨hmax, rfl⟩ := ran_emitLoop.1 hr
      refine ⟨hst.emit _ _, _, _, he.trans (emits_emit t _ _), ?_⟩
      intro c fuel x env hfix hlead hshape
      obtain ⟨hfix₁, hfix₂⟩ := hfix.split he (emits_emit t _ _)
      obtain ⟨-, hcount, hstart⟩ := hlead.loop l ls hl
      have hsub : x.shape <:+ sh := hlead.inside.trans hout
      obtain ⟨hx, hle⟩ := hstart start htarget
      refine ⟨start, hx, shape_outside hshape hsub, ?_⟩
      obtain ⟨hcode, -⟩ := hfix₂.emitted (Nat.le_refl _) List.not_mem_nil hst.covered
      have hback := loop_arrives (Nat.le_trans hle he.size) hmax hcode (env.outside x.shape.length)
      exact ((hdiscard hfix₁ hshape hsub hcount).trans hback).weaken (Nat.zero_le _)

end Jumps

/-! ## Expressions record no jumps -/

/-- The generator records no jumps for a loop. -/
def Plain {α : Type} (m : Gen α) : Prop :=
  ∀ ⦃s a s'⦄, Ran m s a s' → s'.current.loops = s.current.loops

section Plain

variable {α β : Type}

/-- One generator after another. -/
theorem Plain.bind {m : Gen α} {f : α → Gen β} (hm : Plain m) (hf : ∀ a, Plain (f a)) :
    Plain (m >>= f) := by
  intro s b s' hr
  obtain ⟨a, t, hrm, hrf⟩ := ran_bind.1 hr
  exact (hf a hrf).trans (hm hrm)

/-- An instruction. -/
theorem plain_emit (op : Op) (line : Nat) : Plain (emit op line) := by
  intro s a s' hr
  obtain rfl := ran_emit.1 hr
  rfl

/-- A jump that is patched later. -/
theorem plain_emitJump (op : Op) (line : Nat) : Plain (emitJump op line) := by
  intro s a s' hr
  obtain ⟨-, rfl⟩ := ran_emitJump.1 hr
  rfl

/-- A jump is patched. -/
theorem plain_patchJump (j : Nat) (pos : Position) : Plain (patchJump j pos) := by
  intro s a s' hr
  obtain ⟨c, -, rfl⟩ := ran_patchJump.1 hr
  rfl

/-- A constant. -/
theorem plain_addConstant (k : Constant) (pos : Position) : Plain (addConstant k pos) := by
  intro s a s' hr
  obtain ⟨c, -, rfl⟩ := ran_addConstant.1 hr
  rfl

/-- A name is resolved. -/
theorem plain_resolve (name : String) (pos : Position) : Plain (resolve name pos) :=
  fun _ _ _ hr => (ran_resolve hr).1.loops

/-- A variable is read. -/
theorem plain_getVariable (name : String) (pos : Position) : Plain (getVariable name pos) := by
  refine (plain_resolve name pos).bind fun a => ?_
  cases a with
  | slot i => exact plain_emit _ _
  | upvalue i => exact plain_emit _ _
  | global => exact (plain_addConstant _ _).bind fun _ => plain_emit _ _

/-- A variable is written. -/
theorem plain_setVariable (name : String) (pos : Position) : Plain (setVariable name pos) := by
  refine (plain_resolve name pos).bind fun a => ?_
  cases a with
  | slot i => exact plain_emit _ _
  | upvalue i => exact plain_emit _ _
  | global => exact (plain_addConstant _ _).bind fun _ => plain_emit _ _

/-- A binary operator. -/
theorem plain_emitBinary (op : BinaryOp) (line : Nat) : Plain (emitBinary op line) := by
  unfold emitBinary
  generalize binaryOps op = ops
  induction ops with
  | nil =>
    intro s a s' hr
    obtain rfl := ran_forM_nil.1 hr
    rfl
  | cons o ops ih =>
    intro s a s' hr
    obtain ⟨t, hre, hr⟩ := ran_forM_cons.1 hr
    exact (ih hr).trans (plain_emit o line hre)

/-- A unary operator of the core. -/
theorem plain_emitUnary {op : UnaryOp} (hop : isCoreUnary op = true) (pos : Position) :
    Plain (emitUnary op pos) := by
  cases op with
  | negate => exact plain_emit _ _
  | not => exact plain_emit _ _
  | bitNot => cases hop
  | length => cases hop
  | stringify => cases hop

/-- The code of an expression records no jumps. -/
theorem plain_compileExpr (ctx : Context) : ∀ e : Expr, inCore e = true → Plain (compileExpr ctx e)
  | .number _ _, _ => (plain_addConstant _ _).bind fun _ => plain_emit _ _
  | .bool _ b, _ => plain_emit _ _
  | .null _, _ => plain_emit _ _
  | .ident pos name, _ => plain_getVariable name pos
  | .binary pos op l r, h => by
    simp only [inCore, Bool.and_eq_true] at h
    rw [compileExpr]
    exact (plain_compileExpr ctx l h.1.2).bind fun _ => (plain_compileExpr ctx r h.2).bind fun _ =>
      plain_emitBinary op pos.line
  | .unary pos op e, h => by
    simp only [inCore, Bool.and_eq_true] at h
    rw [compileExpr]
    exact (plain_compileExpr ctx e h.2).bind fun _ => plain_emitUnary h.1 pos
  | .conj pos l r, h => by
    simp only [inCore, Bool.and_eq_true] at h
    rw [compileExpr]
    exact (plain_compileExpr ctx l h.1).bind fun _ => (plain_emit _ _).bind fun _ =>
      (plain_emitJump _ _).bind fun _ => (plain_emit _ _).bind fun _ =>
        (plain_compileExpr ctx r h.2).bind fun _ => plain_patchJump _ _
  | .disj pos l r, h => by
    simp only [inCore, Bool.and_eq_true] at h
    rw [compileExpr]
    exact (plain_compileExpr ctx l h.1).bind fun _ => (plain_emit _ _).bind fun _ =>
      (plain_emitJump _ _).bind fun _ => (plain_emit _ _).bind fun _ =>
        (plain_compileExpr ctx r h.2).bind fun _ => plain_patchJump _ _
  | .conditional pos c t e, h => by
    simp only [inCore, Bool.and_eq_true] at h
    rw [compileExpr]
    exact (plain_compileExpr ctx c h.1.1).bind fun _ => (plain_emitJump _ _).bind fun _ =>
      (plain_compileExpr ctx t h.1.2).bind fun _ => (plain_emitJump _ _).bind fun _ =>
        (plain_patchJump _ _).bind fun _ => (plain_compileExpr ctx e h.2).bind fun _ =>
          plain_patchJump _ _
  | .assign _ (.ident pos name) value, h => by
    simp only [inCore, Bool.and_eq_true] at h
    rw [compileExpr]
    exact (plain_compileExpr ctx value h.2).bind fun _ => plain_setVariable name pos
  | .compound _ op (.ident pos name) value, h => by
    simp only [inCore, Bool.and_eq_true] at h
    rw [compileExpr]
    exact (plain_getVariable name pos).bind fun _ => (plain_compileExpr ctx value h.2).bind fun _ =>
      (plain_emitBinary op pos.line).bind fun _ => plain_setVariable name pos

/-- Plain code for a computation that jumps out of no loop does the same in any loop. -/
theorem Codes.plain {outer sh : List (List String)} {pre : List Datum} {m : Gen Unit}
    {f : Nat → Script β} {post : β → List Datum} {s s' : CompilerState}
    (h : Codes outer [] sh sh pre m f post) (hm : Plain m) (hf : ∀ fuel, Calm (f fuel))
    (hs : AtScopes [] sh s) (hr : Ran m s () s') :
    AtScopes [] sh s' ∧ Emits s s' [] [] ∧
      ∀ ⦃c fuel x env⦄, Fixed c s s' [] → LoopJumps c x outer s [] [] → env.shape = sh → ∀ x',
        Follows c fuel x' 0 (env.place s.size pre) sh
          (fun b env' => env'.place s'.size (post b)) (f fuel env) := by
  obtain ⟨hs', bs, cs, he, hfollow⟩ := h hs hr
  have he' := emits_of_grown he.grown (hm hr)
  obtain ⟨rfl, rfl⟩ := he'.unique he
  refine ⟨hs', he', fun c fuel x env hfix hlead hshape x' => ?_⟩
  have hplain : Follows c fuel x 0 _ sh _ (f fuel env) := hfollow hfix hlead hshape
  exact hplain.calm (hf fuel) x'

end Plain

end ScriptEngine.Compile
