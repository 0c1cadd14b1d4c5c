import ScriptEngine.Proofs.Evaluation

/-!
# Code for scopes and declarations

However a computation ends, as many scopes are open as before. So the code that drops the locals of
a scope at its end, and the code that drops those of several scopes before a jump out of a loop,
leave the stack with just the variables of the scopes around.
-/

namespace ScriptEngine.Reference

open Bytecode Source

/-- A computation opens no scope that it does not close. -/
def Balanced {α : Type} (x : Script α) : Prop :=
  ∀ env, (x env).2.scopes.length = env.scopes.length

section Balanced

variable {α β : Type}

/-- A value leaves the scopes alone. -/
theorem balanced_pure (a : α) : Balanced (pure a : Script α) := fun _ => rfl

/-- So does a signal. -/
theorem balanced_signal (e : Signal) : Balanced (Script.signal e : Script α) := fun _ => rfl

/-- One computation after another. -/
theorem Balanced.bind {x : Script α} {f : α → Script β} (hx : Balanced x)
    (hf : ∀ a, Balanced (f a)) : Balanced (x >>= f) := by
  intro env
  change (Script.bind x f env).2.scopes.length = _
  unfold Script.bind
  have h := hx env
  generalize x env = r at h
  obtain ⟨_ | a, env'⟩ := r
  · exact h
  · exact (hf a env').trans h

/-- A requirement. -/
theorem balanced_require (a? : Option α) (reason : Refusal) (pos : Position) :
    Balanced (Script.require a? reason pos) := by
  cases a? <;> exact fun _ => rfl

/-- A choice of two. -/
theorem balanced_ite {c : Prop} [Decidable c] {x y : Script α} (hx : Balanced x)
    (hy : Balanced y) : Balanced (if c then x else y) := by
  split
  · exact hx
  · exact hy

/-- Reading a variable. -/
theorem balanced_read (name : String) (pos : Position) : Balanced (Script.read name pos) :=
  fun env => balanced_require (env.find? name) .name pos env

/-- Writing a variable. -/
theorem balanced_write (name : String) (pos : Position) (d : Datum) :
    Balanced (Script.write name pos d) := by
  intro env
  unfold Script.write Env.assign?
  split
  · next env' h =>
    split at h
    · cases h
      have := congrArg List.length (Env.shape_overwriteInnermost name d env.scopes)
      simpa using this
    · split at h
      · cases h
        rfl
      · cases h
  · rfl

/-- A declaration is made in the innermost scope. -/
theorem length_declare (env : Env) (name : String) (d : Datum) :
    (env.declare name d).scopes.length = env.scopes.length := by
  obtain ⟨_ | ⟨scope, rest⟩, globals⟩ := env <;> rfl

/-- Declarations. -/
theorem balanced_declareAll (names : List String) (d : Datum) :
    Balanced (Script.declareAll names d) := by
  intro env
  change (names.foldl (·.declare · d) env).scopes.length = _
  induction names generalizing env with
  | nil => rfl
  | cons name names ih => exact (ih _).trans (length_declare env name d)

/-- Names are bound to what a value is unpacked to. -/
theorem balanced_bindNames (names : List String) (pos : Position) (d : Datum) :
    Balanced (Script.bindNames names pos d) := by
  unfold Script.bindNames
  split
  · exact balanced_declareAll _ d
  · exact balanced_signal _

/-- A computation whose signal is caught. -/
theorem Balanced.catching {x : Script Unit} (hx : Balanced x) (e : Signal) :
    Balanced (Script.catching e x) := by
  intro env
  unfold Script.catching
  have h := hx env
  generalize x env = r at h
  obtain ⟨_ | _, env'⟩ := r
  · simp only
    split <;> exact h
  · exact h

/-- A computation in a scope of its own. -/
theorem Balanced.enclosed {x : Script α} (hx : Balanced x) : Balanced (Script.enclosed x) := by
  intro env
  change (x _).2.scopes.tail.length = _
  rw [List.length_tail, hx]
  rfl

/-- A loop. -/
theorem Balanced.iterate {condition : Script Bool} {body step : Script Unit}
    (hc : Balanced condition) (hb : Balanced body) (hs : Balanced step) (fuel : Nat) :
    Balanced (Script.iterate condition body step fuel) := by
  induction fuel with
  | zero => exact balanced_signal _
  | succ fuel ih =>
    refine hc.bind fun b => balanced_ite ?_ (balanced_pure ())
    exact (hb.catching _).bind fun _ => hs.bind fun _ => ih

/-- Expressions. -/
theorem balanced_eval (e : Expr) : Balanced (eval e) := by
  fun_induction eval e with
  | case1 => exact balanced_pure _
  | case2 => exact balanced_pure _
  | case3 => exact balanced_pure _
  | case4 => exact balanced_read _ _
  | case5 pos op l r ihl ihr =>
    exact ihl.bind fun _ => ihr.bind fun _ => balanced_require _ _ _
  | case6 pos op e ih => exact ih.bind fun _ => balanced_require _ _ _
  | case7 pos l r ihl ihr => exact ihl.bind fun _ => balanced_ite ihr (balanced_pure _)
  | case8 pos l r ihl ihr => exact ihl.bind fun _ => balanced_ite (balanced_pure _) ihr
  | case9 pos c t e ihc iht ihe => exact ihc.bind fun _ => balanced_ite iht ihe
  | case10 p pos name value ih =>
    exact ih.bind fun _ => (balanced_write _ _ _).bind fun _ => balanced_pure _
  | case11 p op pos name value ih =>
    exact (balanced_read _ _).bind fun _ => ih.bind fun _ =>
      (balanced_require _ _ _).bind fun _ => (balanced_write _ _ _).bind fun _ => balanced_pure _
  | case12 => exact balanced_signal _

/-- Conditions. -/
theorem balanced_holds (e : Expr) : Balanced (holds e) :=
  (balanced_eval e).bind fun _ => balanced_pure _

/-- What initialises a `for` loop. -/
def execInitial (fuel : Nat) (initial : Option Stmt) : Script Unit :=
  initial.elim (pure ()) (exec fuel)

/-- The condition of a `for` loop. -/
def execCondition (condition : Option Expr) : Script Bool := condition.elim (pure true) holds

/-- What a `for` loop does after each round. -/
def execStep (step : Option Expr) : Script Unit :=
  step.elim (pure ()) fun e => do
    let _ ← eval e
    pure ()

/-- Optional conditions. -/
theorem balanced_execCondition (condition : Option Expr) : Balanced (execCondition condition) := by
  cases condition with
  | none => exact balanced_pure _
  | some e => exact balanced_holds e

/-- Optional steps. -/
theorem balanced_execStep (step : Option Expr) : Balanced (execStep step) := by
  cases step with
  | none => exact balanced_pure _
  | some e => exact (balanced_eval e).bind fun _ => balanced_pure _

/-- How a `for` loop is executed. -/
theorem exec_forLoop (fuel : Nat) (pos : Position) (initial : Option Stmt)
    (condition step : Option Expr) (body : Stmt) :
    exec fuel (.forLoop pos initial condition step body) =
      Script.enclosed (do
        execInitial fuel initial
        Script.catching .broke
          (Script.iterate (execCondition condition) (exec fuel body) (execStep step) fuel)) := by
  cases initial <;> cases condition <;> cases step <;> rfl

mutual

/-- Statements. -/
theorem balanced_exec (fuel : Nat) : ∀ st : Stmt, Balanced (exec fuel st)
  | .expression _ e => (balanced_eval e).bind fun _ => balanced_pure _
  | .declare _ names none => balanced_declareAll names _
  | .declare pos names (some e) => (balanced_eval e).bind fun _ => balanced_bindNames _ _ _
  | .block _ body => (balanced_execAll fuel body).enclosed
  | .branch _ c t none =>
    (balanced_eval c).bind fun _ => balanced_ite (balanced_exec fuel t) (balanced_pure _)
  | .branch _ c t (some e) =>
    (balanced_eval c).bind fun _ => balanced_ite (balanced_exec fuel t) (balanced_exec fuel e)
  | .whileLoop _ c body =>
    ((balanced_holds c).iterate (balanced_exec fuel body) (balanced_pure _) fuel).catching _
  | .forLoop pos initial condition step body => by
    rw [exec_forLoop]
    refine Balanced.enclosed (.bind ?_ fun _ => .catching (.iterate ?_ (balanced_exec fuel body) ?_ fuel) _)
    · cases initial with
      | none => exact balanced_pure _
      | some s => exact balanced_exec fuel s
    · exact balanced_execCondition condition
    · exact balanced_execStep step
  | .breakLoop _ => balanced_signal _
  | .continueLoop _ => balanced_signal _
  | .forEach .. | .returnValue .. | .raise .. | .guarded .. | .withResource .. | .function ..
  | .native .. | .classDef .. | .importModule .. => balanced_signal _

/-- Statements one after another. -/
theorem balanced_execAll (fuel : Nat) : ∀ body : List Stmt, Balanced (execAll fuel body)
  | [] => balanced_pure _
  | s :: rest => (balanced_exec fuel s).bind fun _ => balanced_execAll fuel rest

end

end Balanced

/-- A jump that leads out of a scope leads out of those inside it. -/
theorem Exits.Reached.leave {x : Exits} {target : Option Nat} {c : Chunk} {k : Config} {env : Env}
    (h : x.Reached target c k env) (hlt : x.shape.length < env.scopes.length) :
    x.Reached target c k env.leave := by
  have hsame : env.leave.outside x.shape.length = env.outside x.shape.length := by
    obtain ⟨_ | ⟨first, rest⟩, globals⟩ := env
    · cases hlt
    · simp only [Env.leave, Env.outside, List.tail_cons, List.length_cons]
      rw [List.length_cons] at hlt
      rw [show rest.length + 1 - x.shape.length = rest.length - x.shape.length + 1 by omega,
        List.drop_succ_cons]
  unfold Exits.Reached
  rw [hsame]
  exact h

end ScriptEngine.Reference

namespace ScriptEngine.Compile

open Bytecode Source Reference

/-! ## Dropping locals -/

section Drop

variable {pending : List String} {sh : List (List String)} {s t s' : CompilerState} {line : Nat}

/-- Locals that nothing captures are dropped one by one. -/
theorem atScopes_dropAll (line : Nat) (h : AtScopes pending sh s) {ls : List Local}
    (hls : ∀ l ∈ ls, l.captured = false) :
    AtScopes pending sh (s.withCurrent (dropAll line s.current ls)) ∧
      Emits s (s.withCurrent (dropAll line s.current ls)) [] [] ∧
      (s.withCurrent (dropAll line s.current ls)).size = s.size + ls.length ∧
      ∀ i < ls.length,
        (s.withCurrent (dropAll line s.current ls)).chunk.code[s.size + i]? = some .pop := by
  induction ls generalizing s with
  | nil => exact ⟨h, .refl s, rfl, nofun⟩
  | cons l ls ih =>
    have hop : FunctionState.dropOp l = .pop := by
      unfold FunctionState.dropOp
      rw [hls l List.mem_cons_self]
      rfl
    have hsize := size_emit s (FunctionState.dropOp l) line
    obtain ⟨hst, he, hsize', hcode⟩ := ih (h.emit (FunctionState.dropOp l) line)
      fun l' hl' => hls l' (List.mem_cons_of_mem _ hl')
    rw [hsize] at hsize' hcode
    refine ⟨hst, (emits_emit s _ line).trans he, ?_, ?_⟩
    · exact hsize'.trans (by rw [List.length_cons]; omega)
    · intro i hi
      cases i with
      | zero =>
        have hlt : s.size < (s.withCurrent (s.current.emit (FunctionState.dropOp l) line)).size := by
          omega
        exact (he.grown.code s.size hlt List.not_mem_nil).trans
          ((code_emit s _ line).trans (congrArg some hop))
      | succ i =>
        rw [List.length_cons] at hi
        have hnext := hcode i (by omega)
        rw [Nat.add_assoc, Nat.add_comm 1] at hnext
        exact hnext

/-- Instructions that drop values leave what is below them. -/
theorem arrives_pops {c : Chunk} {pc : Nat} {dropped rest : List Datum}
    {globals : String → Option Datum} (h : ∀ i < dropped.length, c.code[pc + i]? = some .pop) :
    Arrives c dropped.length ⟨pc, dropped ++ rest, globals⟩
      ⟨pc + dropped.length, rest, globals⟩ := by
  induction dropped generalizing pc with
  | nil => exact .refl _ _
  | cons d dropped ih =>
    have hfirst : Arrives c 1 ⟨pc, d :: dropped ++ rest, globals⟩ ⟨pc + 1, dropped ++ rest, globals⟩ :=
      arrives_one (h 0 (by simp)) rfl
    have hrest : Arrives c dropped.length ⟨pc + 1, dropped ++ rest, globals⟩ _ := ih fun i hi => by
      have := h (i + 1) (by simpa using hi)
      rwa [Nat.add_comm i 1, ← Nat.add_assoc] at this
    have hall := hfirst.trans hrest
    rwa [Nat.add_assoc pc 1, Nat.add_comm 1, ← List.length_cons] at hall

/-- The locals of a shape have their depths in it. -/
theorem localsOf_depth {shape : List (List String)} {l : Local} (h : l ∈ localsOf shape) :
    ∃ d ≤ shape.length, l.depth = some d := by
  induction shape with
  | nil =>
    obtain rfl := List.mem_singleton.1 h
    exact ⟨0, Nat.le_refl 0, rfl⟩
  | cons scope rest ih =>
    rcases List.mem_append.1 h with h | h
    · obtain ⟨x, -, rfl⟩ := List.mem_map.1 h
      exact ⟨_, Nat.le_refl _, rfl⟩
    · obtain ⟨d, hd, hl⟩ := ih h
      exact ⟨d, Nat.le_succ_of_le hd, hl⟩

/-- The values of the innermost scope are on top of the stack. -/
theorem values_cons {env : Env} {scope : List String} (h : env.shape = scope :: sh) :
    ∃ vs, vs.length = scope.length ∧
      env.values = vs ++ env.leave.values ∧
      env.leave.shape = sh := by
  obtain ⟨_ | ⟨first, rest⟩, globals⟩ := env
  · cases h
  · obtain ⟨rfl, hrest⟩ := List.cons.inj h
    exact ⟨first.map Prod.snd, by simp, by simp [Env.values, Env.locals, Env.leave], hrest⟩

/-- Closing a scope drops its locals. -/
theorem closes {scope : List String} {u : Unit} (h : AtScopes [] (scope :: sh) t)
    (hr : Ran (endScope line) t u s') :
    AtScopes [] sh s' ∧ Emits t s' [] [] ∧
      ∀ ⦃c : Chunk⦄ ⦃env : Env⦄, Fixed c t s' [] → env.shape = scope :: sh →
        Arrives c 0 (env.place t.size [])
          (env.leave.place s'.size []) := by
  have hlocals : t.current.locals = scope.map (⟨·, some (sh.length + 1), false⟩) ++ localsOf sh :=
    h.locals
  have hdrop : ∀ f : FunctionState, f.depth = sh.length → f.dropScope line t.current.locals =
      { dropAll line f (scope.map (⟨·, some (sh.length + 1), false⟩)) with
        scope := .ofList (localsOf sh) } := by
    intro f hf
    rw [hlocals]
    refine dropScope_append line f _ _ ?_ ?_
    · intro l hl
      obtain ⟨x, -, rfl⟩ := List.mem_map.1 hl
      simp [hf]
    · intro l hl
      obtain ⟨d, hd, hl⟩ := localsOf_depth hl
      simpa [hl, hf] using hd
  have hs' : s' = t.withCurrent
      { dropAll line t.current (scope.map (⟨·, some (sh.length + 1), false⟩)) with
        scope := .ofList (localsOf sh), depth := sh.length } := by
    have hdepth : t.current.depth - 1 = sh.length := by
      rw [h.depth]
      rfl
    rw [ran_updateFunction.1 hr]
    simp only [hdepth]
    refine congrArg t.withCurrent ((hdrop _ rfl).trans ?_)
    rw [dropAll_withDepth]
  subst hs'
  obtain ⟨hst, he, hsize, hcode⟩ := atScopes_dropAll line h fun l hl => by
    obtain ⟨x, -, rfl⟩ := List.mem_map.1 hl
    exact (rfl : (⟨x, some (sh.length + 1), false⟩ : Local).captured = false)
  refine ⟨⟨rfl, rfl, h.alone, ?_, hst.pool, hst.covered⟩, he.congr rfl rfl rfl rfl, ?_⟩
  · have := h.slots
    rw [hlocals, List.length_append] at this
    exact Nat.le_trans (Nat.le_add_left _ _) this
  · intro c env hfix hshape
    obtain ⟨vs, hvs, hvalues, -⟩ := values_cons hshape
    have hlen : vs.length = (scope.map fun x => (⟨x, some (sh.length + 1), false⟩ : Local)).length := by
      rw [hvs, List.length_map]
    have hpops : Arrives c vs.length ⟨t.size, vs ++ env.leave.values, env.globals⟩
        ⟨t.size + vs.length, env.leave.values, env.globals⟩ :=
      arrives_pops fun i hi =>
        hfix.code (Nat.le_add_right _ _) (hcode i (hlen ▸ hi)) List.not_mem_nil
    rw [← hvalues, hlen, ← hsize] at hpops
    exact hpops.weaken (Nat.zero_le _)

end Drop

/-! ## Blocks -/

section Blocks

variable {outer sh : List (List String)} {scope : List String} {f : Nat → Script Unit}

/-- Code in a scope of its own. -/
theorem codes_inScope {line : Nat} {body : Gen Unit} (hout : outer <:+ sh)
    (hf : ∀ fuel, Balanced (f fuel))
    (h : Codes outer [] ([] :: sh) (scope :: sh) [] body f (fun _ => [])) :
    Codes outer [] sh sh [] (inScope line body) (fun fuel => Script.enclosed (f fuel))
      (fun _ => []) := by
  intro s s' hs hr
  obtain ⟨t, hrb, hre⟩ := ran_inScope.1 hr
  have hs₁ : AtScopes [] ([] :: sh)
      (s.withScope s.current.locals (s.current.depth + 1)) :=
    ⟨hs.locals, congrArg (· + 1) hs.depth, hs.alone, hs.slots, hs.pool, hs.covered⟩
  obtain ⟨ht, bs, cs, he, hfollow⟩ := h hs₁ hrb
  obtain ⟨hs', hec, hclose⟩ := closes ht hre
  have he' : Emits s t bs cs := he.congr rfl rfl rfl rfl
  have hall := he'.trans hec
  rw [List.append_nil, List.append_nil] at hall
  refine ⟨hs', bs, cs, hall, ?_⟩
  intro c fuel x env hfix hlead hshape
  have hfix' : Fixed c s s' ((bs ++ []) ++ (cs ++ [])) := by
    rwa [List.append_nil, List.append_nil]
  obtain ⟨hfix₁, hfix₂⟩ := hfix'.split he' hec
  have hbody : Follows c fuel x 0 (env.place s.size []) (scope :: sh)
      (fun _ env' => env'.place t.size []) (f fuel env.enter) :=
    hfollow ⟨hfix₁.full, hfix₁.grown⟩
      ⟨hlead.broke, hlead.continued, hlead.inside, hlead.loop⟩ (congrArg (List.cons []) hshape)
  have hlevel := hf fuel env.enter
  change Follows c fuel x 0 _ sh _ ((f fuel env.enter).1, (f fuel env.enter).2.leave)
  generalize f fuel env.enter = r at hbody hlevel
  obtain ⟨r, env'⟩ := r
  have hlt : x.shape.length < env'.scopes.length := by
    have h₁ := hlead.inside.length_le
    have h₂ := hout.length_le
    have h₃ : env.scopes.length = sh.length := by
      rw [← hshape, Env.shape, List.length_map]
    have h₄ : env'.scopes.length = env.scopes.length + 1 := hlevel
    omega
  cases r with
  | ok a =>
    obtain ⟨vs, -, -, hleave⟩ := values_cons hbody.1
    exact ⟨hleave, hbody.2.trans (hclose hfix₂ hbody.1)⟩
  | error e =>
    cases e with
    | broke => exact hbody.leave hlt
    | continued => exact hbody.leave hlt
    | raised reason pos => exact hbody
    | exhausted => exact hbody
    | foreign => exact hbody

end Blocks

/-! ## Declarations -/

/-- The names in each scope after some were declared in the innermost one. -/
def extend (names : List String) : List (List String) → List (List String)
  | [] => []
  | scope :: rest => (names.reverse ++ scope) :: rest

section Declarations

variable {outer sh : List (List String)} {pending : List String} {above : List Datum}

/-- Declaring variables outside every scope defines globals, in any order. -/
theorem declareAll_globals {env : Env} (h : env.shape = []) (names : List String) (d : Datum) :
    names.foldl (·.declare · d) env =
      { env with globals := fun x => if x ∈ names then some d else env.globals x } := by
  obtain ⟨scopes, globals⟩ := env
  obtain rfl : scopes = [] := List.map_eq_nil_iff.1 h
  induction names generalizing globals with
  | nil => simp
  | cons name names ih =>
    rw [List.foldl_cons]
    refine (ih _ rfl).trans ?_
    simp only [Env.mk.injEq, true_and]
    funext x
    by_cases hx : x ∈ names
    · simp [hx]
    · simp only [hx, if_false, List.mem_cons, or_false]

/-- Declaring variables in a scope puts them on top of the stack. -/
theorem declareAll_locals {env : Env} {scope : List String} (h : env.shape = scope :: sh)
    (names : List String) (d : Datum) :
    (names.foldl (·.declare · d) env).shape = (names.reverse ++ scope) :: sh ∧
      (names.foldl (·.declare · d) env).values = List.replicate names.length d ++ env.values ∧
      (names.foldl (·.declare · d) env).globals = env.globals := by
  induction names generalizing env scope with
  | nil => exact ⟨h, rfl, rfl⟩
  | cons name names ih =>
    obtain ⟨_ | ⟨first, rest⟩, globals⟩ := env
    · cases h
    · obtain ⟨rfl, hrest⟩ := List.cons.inj h
      have hfirst : Env.shape ⟨((name, d) :: first) :: rest, globals⟩ =
          (name :: first.map Prod.fst) :: sh := congrArg (List.cons _) hrest
      obtain ⟨hshape, hvalues, hglobals⟩ := ih hfirst
      refine ⟨?_, ?_, hglobals⟩
      · rw [List.foldl_cons]
        refine hshape.trans ?_
        simp
      · rw [List.foldl_cons]
        refine hvalues.trans ?_
        rw [List.length_cons, List.replicate_succ', List.append_assoc]
        rfl

/-- Values of variables without one. -/
theorem codes_nulls (names : List String) (line : Nat) (above : List Datum) :
    Codes outer pending sh sh above (names.forM fun _ => emit .null line) (fun _ => pure ())
      (fun _ => List.replicate names.length .null ++ above) := by
  induction names generalizing above with
  | nil => exact codes_pure outer sh pending () fun _ => above
  | cons name names ih =>
    have hfirst : Codes outer pending sh sh above (emit .null line) (fun _ => pure ())
        (fun _ => .null :: above) := codes_step fun _ _ _ _ => rfl
    rw [List.length_cons, List.replicate_succ', List.append_assoc]
    exact hfirst.bind fun _ => ih (.null :: above)

/-- Globals are defined from the values on the stack. -/
theorem codes_defineGlobals {names : List String} (hnames : ∀ name ∈ names, isOwnName name = true)
    (pos : Position) (d : Datum) :
    Codes outer pending [] [] (List.replicate names.length d)
      (names.forM fun name => do emit (.defineGlobal (← addName name pos)) pos.line)
      (fun _ => Script.declareAll names d) (fun _ => []) := by
  induction names with
  | nil => exact codes_pure outer [] pending () fun _ => []
  | cons name names ih =>
    have hfirst : Codes outer pending [] [] (d :: List.replicate names.length d)
        (do emit (.defineGlobal (← addName name pos)) pos.line)
        (fun _ => Script.declareAll [name] d) (fun _ => List.replicate names.length d) := by
      refine codes_pooled .defineGlobal (.string name) _ fun c fuel x env pc i hop hpool _ hshape => ?_
      have hstr : ownName? c i = some name :=
        ownName?_eq hpool (hnames name List.mem_cons_self)
      obtain ⟨scopes, globals⟩ := env
      obtain rfl : scopes = [] := List.map_eq_nil_iff.1 hshape
      refine ⟨rfl, (arrives_one (k := Env.place _ pc _) hop ?_).weaken (Nat.zero_le _)⟩
      unfold perform
      simp only [hstr]
      rfl
    exact hfirst.bind fun _ => ih fun x hx => hnames x (List.mem_cons_of_mem _ hx)

/-- The values of a declaration without an initial value. -/
theorem codes_noInitial (names : List String) (line : Nat) :
    Codes outer pending sh sh [] (names.forM fun _ => emit .null line) (fun _ => pure Datum.null)
      (fun d => List.replicate names.length d) :=
  (codes_nulls names line []).map (fun _ => Datum.null) fun _ => List.append_nil _

/-- The values of a declaration with an initial value, which cannot be unpacked. -/
theorem codes_initial {names : List String} (hnames : names ≠ []) {pos : Position}
    {value : Gen Unit} {f : Script Datum}
    (h : Codes outer pending sh sh [] value (fun _ => f) (fun d => [d])) :
    Codes outer pending sh sh []
      (do
        value
        if names.length > 1 then
          if names.length > maxArguments then fail .tooManyNames pos
          emit (.unpack (UInt8.ofNat names.length)) pos.line)
      (fun _ => do
        let d ← f
        if names.length > 1 then Script.signal (.raised .type pos) else pure d)
      (fun d => List.replicate names.length d) := by
  refine h.bind fun d => ?_
  by_cases hlen : names.length > 1
  · simp only [if_pos hlen]
    split
    · intro s s' hs hr
      obtain ⟨_, _, hr, -⟩ := ran_bind.1 hr
      exact absurd hr ran_fail
    · refine codes_emit [d] fun c fuel x env pc hop hline _ => ?_
      exact Follows.raise (k := env.place pc [d]) hop rfl hline rfl
  · simp only [if_neg hlen]
    have hone : names.length = 1 := by
      have := List.length_pos_iff.2 hnames
      omega
    have hpost : List.replicate names.length d = [d] := by rw [hone]; rfl
    exact hpost ▸ codes_pure outer sh pending d fun d => List.replicate names.length d

/-- Declaring names makes pending locals of them. -/
theorem AtScopes.declares {names : List String} {pos : Position} {s t : CompilerState} {u : Unit}
    (h : AtScopes [] sh s)
    (hr : Ran (names.forM fun name => updateFunctionM (·.declare name pos)) s u t) :
    AtScopes names.reverse sh t ∧ Emits s t [] [] ∧ t.size = s.size := by
  have hslots : t.current.locals.length ≤ FunctionState.maxLocals := by
    have hs := h.slots
    clear h
    induction names generalizing s u with
    | nil =>
      obtain rfl := ran_forM_nil.1 hr
      exact hs
    | cons name names ih =>
      obtain ⟨r, hrd, hr⟩ := ran_forM_cons.1 hr
      obtain ⟨g, hg, rfl⟩ := ran_updateFunctionM.1 hrd
      refine ih hr ?_
      rw [FunctionState.declare_eq] at hg
      split at hg
      · cases hg
      · split at hg
        · next hlt =>
          cases hg
          exact hlt
        · cases hg
  obtain rfl := ran_declares hr
  refine ⟨⟨?_, h.depth, h.alone, hslots, h.pool, h.covered⟩, emits_of_grown (.refl _) rfl, rfl⟩
  change _ ++ s.current.locals = _
  rw [h.locals]
  rfl

/-- Pending locals become usable in the innermost scope. -/
theorem AtScopes.initialized {names scope : List String} {s : CompilerState}
    (h : AtScopes names.reverse (scope :: sh) s) :
    AtScopes [] (extend names (scope :: sh))
      (s.withCurrent (s.current.markInitialized names.length)) := by
  have hlocals : (s.current.markInitialized names.length).locals =
      localsOf (extend names (scope :: sh)) := by
    have htake : s.current.locals.take names.length = names.reverse.map pendingLocal := by
      rw [h.locals]
      exact List.take_left' (by simp)
    have hdrop : s.current.locals.drop names.length = localsOf (scope :: sh) := by
      rw [h.locals]
      exact List.drop_left' (by simp)
    unfold FunctionState.markInitialized
    rw [htake, hdrop, h.depth]
    simp [extend, localsOf, pendingLocal, Function.comp_def]
  refine ⟨hlocals, h.depth, h.alone, ?_, h.pool, h.covered⟩
  have hslots := h.slots
  have hlen : (s.current.markInitialized names.length).locals.length =
      s.current.locals.length := by
    simp [FunctionState.markInitialized]
    omega
  exact hlen ▸ hslots

/-- A declaration around the code of its values. -/
def declareAround (pos : Position) (names : List String) (values : Gen Unit) : Gen Unit := do
  let global ← atTopLevel
  if !global then names.forM fun name => updateFunctionM (·.declare name pos)
  values
  if global then names.reverse.forM fun name => do emit (.defineGlobal (← addName name pos)) pos.line
  else updateFunction (·.markInitialized names.length)

/-- A declaration around the code of its values. -/
theorem codes_declareAround {names : List String} {pos : Position} {values : Gen Unit}
    {f : Nat → Script Datum} (hown : names.all isOwnName = true)
    (h : ∀ pending, Codes outer pending sh sh [] values f
      (fun d => List.replicate names.length d)) :
    Codes outer [] sh (extend names sh) [] (declareAround pos names values)
      (fun fuel => f fuel >>= fun d => Script.declareAll names d) (fun _ => []) := by
  intro s s' hs hr
  simp only [declareAround, ran_bind, ran_atTopLevel] at hr
  obtain ⟨_, s, ⟨rfl, rfl⟩, hr⟩ := hr
  rw [hs.depth] at hr
  cases sh with
  | nil =>
    simp only [List.length_nil, BEq.rfl, Bool.not_true, Bool.false_eq_true, if_false, if_true] at hr
    refine ((h []).bind fun d => ?_) hs hr
    have hcodes : Codes outer [] [] [] _ _ _ _ := codes_defineGlobals
      (fun name hname => List.all_eq_true.1 hown name (List.mem_reverse.1 hname)) pos d
    rw [List.length_reverse] at hcodes
    refine hcodes.congrAt fun fuel env hshape => ?_
    unfold Script.declareAll
    rw [declareAll_globals hshape, declareAll_globals hshape]
    simp only [List.mem_reverse]
  | cons scope rest =>
    have hlocal : ((scope :: rest).length == 0) = false := rfl
    simp only [hlocal, Bool.not_false, if_true, Bool.false_eq_true, if_false, ran_bind,
      ran_updateFunction] at hr
    obtain ⟨_, t, hrd, _, t', hrv, rfl⟩ := hr
    obtain ⟨hst, het, hsize⟩ := hs.declares hrd
    obtain ⟨hst', bs, cs, he, hfollow⟩ := h names.reverse hst hrv
    refine ⟨hst'.initialized, bs, cs, (het.trans he).congr rfl rfl rfl rfl, ?_⟩
    intro c fuel x env hfix hlead hshape
    have hfix' : Fixed c s t' (([] ++ bs) ++ ([] ++ cs)) := ⟨hfix.full, hfix.grown⟩
    have hlead' : LoopJumps c x outer s ([] ++ bs) ([] ++ cs) := hlead
    have hfix₂ := (hfix'.split het he).2
    have hlead₂ := (hlead'.split het).2
    rw [← hsize]
    refine Follows.seq (hfollow hfix₂ hlead₂ hshape) fun d env' hshape' => ?_
    obtain ⟨hnames, hvalues, hglobals⟩ := declareAll_locals hshape' names d
    refine ⟨hnames, ?_⟩
    have hplace : (names.foldl (·.declare · d) env').place t'.size [] =
        env'.place t'.size (List.replicate names.length d) := by
      simp [Env.place, hvalues, hglobals]
    exact hplace ▸ .refl _ _

end Declarations

end ScriptEngine.Compile
