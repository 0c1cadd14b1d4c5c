import ScriptEngine.Proofs.Fixing
import ScriptEngine.Proofs.Regions
import ScriptEngine.Proofs.Stepping

/-!
# Code for computations

`Codes` says that a generator emits code for a computation of the reference semantics: whenever it
runs at a place whose locals are the variables of the environment, the emitted code follows the
computation, in every chunk that the code becomes part of. It holds of compound generators if it
holds of their parts, so that each form of expression and statement is a matter of composing.
-/

namespace ScriptEngine.Compile

open Bytecode Source Reference

/-- The locals of scopes with the given names, above slot zero. -/
def localsOf : List (List String) → List Local
  | [] => [⟨"", some 0, false⟩]
  | scope :: rest => scope.map (⟨·, some (rest.length + 1), false⟩) ++ localsOf rest

/-- A local whose initial value is pending. -/
def pendingLocal (name : String) : Local := ⟨name, none, false⟩

/-- The function under construction is at a place where the scopes have the given names, with some
locals pending. -/
structure AtScopes (pending : List String) (shape : List (List String)) (s : CompilerState) :
    Prop where
  /-- The locals. -/
  locals : s.current.locals = pending.map pendingLocal ++ localsOf shape
  /-- The scope depth. -/
  depth : s.current.depth = shape.length
  /-- It is no nested function. -/
  alone : s.enclosing = []
  /-- Slots fit their operand. -/
  slots : s.current.locals.length ≤ FunctionState.maxLocals
  /-- Constants fit their operand. -/
  pool : s.chunk.constants.size ≤ Chunk.maxConstants
  /-- The lines cover no more than the code. -/
  covered : s.chunk.lines.size ≤ s.chunk.code.size

/-- A jump of a chunk lands on an offset. -/
def LandsOn (c : Chunk) (j target : Nat) : Prop :=
  ∃ d : UInt16, c.code[j]? = some (.jump d) ∧ j + 1 + d.toNat = target

/-- The jumps recorded for the innermost loop lead where the loop is left and continued. The scopes
around the loop's body are among the `outer` ones. -/
structure LoopJumps (c : Chunk) (x : Exits) (outer : List (List String)) (s : CompilerState)
    (breaks continues : List Nat) : Prop where
  /-- Where `break` leads. -/
  broke : ∀ j ∈ breaks, ∃ t, x.broke = some t ∧ LandsOn c j t
  /-- Where `continue` leads if its target comes later. -/
  continued : ∀ j ∈ continues, ∃ t, x.continued = some t ∧ LandsOn c j t
  /-- The scopes around the loop's body. -/
  inside : x.shape <:+ outer
  /-- The record of the loop. -/
  loop : ∀ l ls, s.current.loops = l :: ls →
    l.tryDepth = 0 ∧ l.localCount = (localsOf x.shape).length ∧
      ∀ t, l.continueTarget = some t → x.continued = some t ∧ t ≤ s.size

/-- The jumps two parts of a loop record lead where the loop says, in each part. -/
theorem LoopJumps.split {c : Chunk} {x : Exits} {outer : List (List String)} {s t : CompilerState}
    {bs cs bs' cs' : List Nat} (h : LoopJumps c x outer s (bs ++ bs') (cs ++ cs'))
    (a : Emits s t bs cs) : LoopJumps c x outer s bs cs ∧ LoopJumps c x outer t bs' cs' := by
  refine ⟨⟨?_, ?_, h.inside, h.loop⟩, ⟨?_, ?_, h.inside, ?_⟩⟩
  · exact fun j hj => h.broke j (List.mem_append_left _ hj)
  · exact fun j hj => h.continued j (List.mem_append_left _ hj)
  · exact fun j hj => h.broke j (List.mem_append_right _ hj)
  · exact fun j hj => h.continued j (List.mem_append_right _ hj)
  · intro l ls hl
    rw [a.loops] at hl
    cases hls : s.current.loops with
    | nil =>
      rw [hls] at hl
      cases hl
    | cons l' ls' =>
      rw [hls] at hl
      obtain ⟨rfl, rfl⟩ := List.cons.inj hl
      obtain ⟨htries, hcount, htarget⟩ := h.loop l' _ hls
      refine ⟨htries, hcount, fun start hstart => ?_⟩
      obtain ⟨hx, hle⟩ := htarget start hstart
      exact ⟨hx, Nat.le_trans hle a.size⟩

/-- The generator emits code for a computation, which may depend on the fuel. The stack has `pre`
above the local variables before, and `post` of the result afterwards. -/
def Codes (outer : List (List String)) (pending : List String) (shape shape' : List (List String))
    (pre : List Datum) (m : Gen Unit) {β : Type} (f : Nat → Script β) (post : β → List Datum) :
    Prop :=
  ∀ ⦃s s'⦄, AtScopes pending shape s → Ran m s () s' →
    AtScopes pending shape' s' ∧ ∃ bs cs, Emits s s' bs cs ∧
      ∀ ⦃c fuel x env⦄, Fixed c s s' (bs ++ cs) → LoopJumps c x outer s bs cs → env.shape = shape →
        Follows c fuel x 0 (env.place s.size pre) shape'
          (fun b env' => env'.place s'.size (post b)) (f fuel env)

section Codes

variable {outer sh sh' sh'' : List (List String)} {pending : List String} {α β : Type}
variable {pre : List Datum} {m n : Gen Unit}

/-- Code for one computation after the other. -/
theorem Codes.bind [Inhabited α] {f : Nat → Script α} {g : α → Nat → Script β}
    {mid : α → List Datum} {post : β → List Datum}
    (hm : Codes outer pending sh sh' pre m f mid)
    (hn : ∀ a, Codes outer pending sh' sh'' (mid a) n (g a) post) :
    Codes outer pending sh sh'' pre (m >>= fun _ => n) (fun fuel => f fuel >>= (g · fuel))
      post := by
  intro s s' hs hr
  obtain ⟨_, t, hrm, hrn⟩ := ran_bind.1 hr
  obtain ⟨ht, bs, cs, he, hf⟩ := hm hs hrm
  obtain ⟨hs', bs', cs', he', -⟩ := hn default ht hrn
  refine ⟨hs', _, _, he.trans he', ?_⟩
  intro c fuel x env hfix hlead hshape
  obtain ⟨hfix₁, hfix₂⟩ := hfix.split he he'
  obtain ⟨hlead₁, hlead₂⟩ := hlead.split he
  refine Follows.seq (hf hfix₁ hlead₁ hshape) fun a env' hshape' => ?_
  obtain ⟨-, bs'', cs'', he'', hg⟩ := hn a ht hrn
  obtain ⟨rfl, rfl⟩ := he'.unique he''
  exact hg hfix₂ hlead₂ hshape'

/-- The result may be looked at in another way. -/
theorem Codes.map {f : Nat → Script α} {mid : α → List Datum} {post : β → List Datum}
    (h : Codes outer pending sh sh' pre m f mid) (g : α → β) (hg : ∀ a, mid a = post (g a)) :
    Codes outer pending sh sh' pre m (fun fuel => f fuel >>= fun a => pure (g a)) post := by
  intro s s' hs hr
  obtain ⟨hs', bs, cs, he, hf⟩ := h hs hr
  refine ⟨hs', bs, cs, he, fun c fuel x env hfix hlead hshape => ?_⟩
  refine Follows.seq (hf hfix hlead hshape) fun a env' hshape' => follows_pure hshape' ?_
  rw [hg]
  exact .refl _ _

/-- Code for a computation is code for one that does the same where the code can run. -/
theorem Codes.congrAt {f g : Nat → Script β} {post : β → List Datum}
    (h : Codes outer pending sh sh' pre m f post)
    (hfg : ∀ fuel env, env.shape = sh → g fuel env = f fuel env) :
    Codes outer pending sh sh' pre m g post := by
  intro s s' hs hr
  obtain ⟨hs', bs, cs, he, hf⟩ := h hs hr
  refine ⟨hs', bs, cs, he, fun c fuel x env hfix hlead hshape => ?_⟩
  rw [hfg fuel env hshape]
  exact hf hfix hlead hshape

/-- Code for a computation is code for every computation equal to it. -/
theorem Codes.congr {f g : Nat → Script β} {post : β → List Datum}
    (h : Codes outer pending sh sh' pre m f post) (hfg : ∀ fuel, g fuel = f fuel) :
    Codes outer pending sh sh' pre m g post :=
  h.congrAt fun fuel env _ => by rw [hfg]

/-- No code at all is code for giving back a value. -/
theorem codes_pure (outer sh : List (List String)) (pending : List String) (b : β)
    (post : β → List Datum) :
    Codes outer pending sh sh (post b) (pure ()) (fun _ => pure b) post := by
  intro s s' hs hr
  obtain ⟨-, rfl⟩ := ran_pure.1 hr
  exact ⟨hs, [], [], .refl _, fun c fuel x env _ _ hshape => follows_pure hshape (.refl _ _)⟩

end Codes

/-! ## Single instructions -/

section Emit

variable {outer sh : List (List String)} {pending : List String} {β : Type} {pre : List Datum}

/-- Emitting an instruction keeps the locals at the scopes. -/
theorem AtScopes.emit {s : CompilerState} (h : AtScopes pending sh s) (op : Op) (line : Nat) :
    AtScopes pending sh (s.withCurrent (s.current.emit op line)) where
  locals := h.locals
  depth := h.depth
  alone := h.alone
  slots := h.slots
  pool := by
    change (s.chunk.emit op line).constants.size ≤ _
    rw [Chunk.emit_constants]
    exact h.pool
  covered := (s.chunk.grown_emit op line).covered h.covered

/-- Patching a jump keeps the locals at the scopes. -/
theorem AtScopes.patch {s s' : CompilerState} {j : Nat} {pos : Position} {u : Unit}
    (h : AtScopes pending sh s) (hr : Ran (patchJump j pos) s u s') : AtScopes pending sh s' := by
  obtain ⟨c, hc, rfl⟩ := ran_patchJump.1 hr
  refine ⟨h.locals, h.depth, h.alone, h.slots, ?_, (Chunk.grown_patchJump hc).covered h.covered⟩
  change c.constants.size ≤ _
  rw [(Chunk.patchJump?_code hc).2.1]
  exact h.pool

/-- Adding a constant keeps the locals at the scopes, emits nothing and leaves the constant at its
index. -/
theorem AtScopes.addConstant {s s' : CompilerState} {k : Constant} {pos : Position} {i : UInt16}
    (h : AtScopes pending sh s) (hr : Ran (addConstant k pos) s i s') :
    AtScopes pending sh s' ∧ Emits s s' [] [] ∧ s'.chunk.constants[i.toNat]? = some k := by
  obtain ⟨c, hc, rfl⟩ := ran_addConstant.1 hr
  obtain ⟨hget, hpool⟩ := Chunk.addConstant?_get hc h.pool
  have hg := Chunk.grown_addConstant hc
  exact ⟨⟨h.locals, h.depth, h.alone, h.slots, hpool, hg.covered h.covered⟩,
    emits_of_grown hg rfl, hget⟩

/-- One instruction is code for a computation if it does what the computation does. -/
theorem codes_emit (pre : List Datum) {op : Op} {line : Nat} {f : Nat → Script β} {post : β → List Datum}
    (h : ∀ (c : Chunk) (fuel : Nat) (x : Exits) (env : Env) (pc : Nat), c.code[pc]? = some op →
      c.lineAt? pc = some (UInt32.ofNat line).toNat → env.shape = sh →
        Follows c fuel x 0 (env.place pc pre) sh (fun b env' => env'.place (pc + 1) (post b))
          (f fuel env)) :
    Codes outer pending sh sh pre (emit op line) f post := by
  intro s s' hs hr
  obtain rfl := ran_emit.1 hr
  refine ⟨hs.emit op line, [], [], emits_emit s op line, ?_⟩
  intro c fuel x env hfix _ hshape
  obtain ⟨hop, hline⟩ := hfix.emitted (Nat.le_refl _) List.not_mem_nil hs.covered
  rw [size_emit]
  exact h c fuel x env s.size hop hline hshape

/-- An instruction that always goes on to the next. -/
theorem codes_step {op : Op} {line : Nat} {b : β} {post : β → List Datum}
    (h : ∀ (c : Chunk) (env : Env) (pc : Nat), env.shape = sh →
      perform c (env.place pc pre) op = .next (env.place (pc + 1) (post b))) :
    Codes outer pending sh sh pre (emit op line) (fun _ => pure b) post := by
  refine codes_emit _ fun c fuel x env pc hop _ hshape => follows_pure hshape ?_
  exact (arrives_one hop (h c env pc hshape)).weaken (Nat.zero_le _)

/-- An instruction that may raise an exception. -/
theorem codes_require {op : Op} {pos : Position} {d? : Option β} {reason : Refusal}
    {post : β → List Datum}
    (h : ∀ (c : Chunk) (env : Env) (pc : Nat), perform c (env.place pc pre) op =
      .orRefuse (d?.map fun b => env.place (pc + 1) (post b)) reason) :
    Codes outer pending sh sh pre (emit op pos.line) (fun _ => Script.require d? reason pos)
      post := by
  refine codes_emit _ fun c fuel x env pc hop hline hshape => ?_
  cases d? with
  | some b =>
    refine ⟨hshape, ?_⟩
    exact (arrives_one hop (h c env pc)).weaken (Nat.zero_le _)
  | none =>
    refine ⟨env.place pc pre, .refl _ _, ?_, hline, rfl⟩
    unfold advance
    rw [show (env.place pc pre).pc = pc from rfl, hop]
    exact h c env pc

/-- An instruction with a constant as its operand. -/
theorem codes_pooled (op : UInt16 → Op) (k : Constant) (pre : List Datum) {pos : Position}
    {line : Nat} {f : Nat → Script β} {post : β → List Datum}
    (h : ∀ (c : Chunk) (fuel : Nat) (x : Exits) (env : Env) (pc : Nat) (i : UInt16),
      c.code[pc]? = some (op i) → c.constants[i.toNat]? = some k →
      c.lineAt? pc = some (UInt32.ofNat line).toNat → env.shape = sh →
        Follows c fuel x 0 (env.place pc pre) sh (fun b env' => env'.place (pc + 1) (post b))
          (f fuel env)) :
    Codes outer pending sh sh pre (do emit (op (← addConstant k pos)) line) f post := by
  intro s s' hs hr
  obtain ⟨i, t, hra, hre⟩ := ran_bind.1 hr
  obtain rfl := ran_emit.1 hre
  obtain ⟨ht, he, hget⟩ := hs.addConstant hra
  refine ⟨ht.emit _ _, [], [], he.trans (emits_emit t _ _), ?_⟩
  intro c fuel x env hfix _ hshape
  have hsize : s.size = t.size := by
    obtain ⟨chunk, hc, rfl⟩ := ran_addConstant.1 hra
    change s.chunk.code.size = chunk.code.size
    rw [(Chunk.addConstant?_spec hc).1]
  obtain ⟨hop, hline⟩ := hfix.emitted he.size List.not_mem_nil ht.covered
  have hpool : c.constants[i.toNat]? = some k := by
    refine hfix.pool ?_
    change (t.chunk.emit _ _).constants[i.toNat]? = _
    rw [Chunk.emit_constants]
    exact hget
  rw [hsize, size_emit]
  exact h c fuel x env t.size i hop hpool hline hshape

/-- The code for a number pushes it. -/
theorem codes_number (pos : Position) (v : Number) (above : List Datum) :
    Codes outer pending sh sh above (emitConstant (.number v) pos) (fun _ => pure (.number v))
      (fun d => d :: above) := by
  refine codes_pooled .constant _ above fun c fuel x env pc i hop hpool _ hshape => follows_pure hshape ?_
  refine (arrives_one (k := env.place pc above) hop ?_).weaken (Nat.zero_le _)
  unfold perform
  simp only [hpool]
  rfl

end Emit

end ScriptEngine.Compile
