import ScriptEngine.Proofs.Resolving

/-!
# Sites and traces

While code is generated, the function under construction is at a site: the binders of its scopes, the
locals whose value is still being computed, and the loops around. `Sited` relates a state of the
compiler to a site and to the frames of the functions around. `Traces` says that a generator leads
from one site to another and that the instructions it emits do what some touches say, one after the
other; instructions that touch no variable do not count. The rules below are for instructions and
variables: the instruction emitted for a name reaches the place of the binder that the name means.
-/

namespace ScriptEngine.Bytecode

/-! ## Touching instructions of growing code -/

/-- An instruction is touching or leaves the touching ones as they were. -/
theorem Chunk.touching_emit (c : Chunk) (op : Op) (line : Nat) :
    (c.emit op line).touching = c.touching ++ if op.touches then [op] else [] := by
  simp only [touching, emit_code, Array.toList_push, List.filter_append]
  cases h : op.touches <;> simp [h]

/-- A change that neither adds nor removes what is selected, and leaves that alone. -/
theorem filter_modify {α : Type} {p : α → Bool} {f : α → α} (hp : ∀ a, p (f a) = p a)
    (hf : ∀ a, p a = true → f a = a) (xs : List α) (i : Nat) :
    (xs.modify i f).filter p = xs.filter p := by
  induction xs generalizing i with
  | nil => cases i <;> rfl
  | cons x xs ih =>
    cases i with
    | zero =>
      rw [List.modify_zero_cons]
      cases hx : p x with
      | false => simp [hp, hx]
      | true => rw [hf x hx]
    | succ i =>
      rw [List.modify_succ_cons, List.filter_cons, List.filter_cons, ih]

/-- Patching changes jumps only. -/
theorem Chunk.touching_patchJump {c c' : Chunk} {j : Nat} (h : c.patchJump? j = some c') :
    c'.touching = c.touching := by
  obtain ⟨-, -, -, hcode⟩ := patchJump?_code h
  rw [touching, touching, hcode, Array.toList_modify]
  refine filter_modify ?_ ?_ _ _
  · intro op
    cases op <;> rfl
  · intro op
    cases op <;> simp [Op.touches, Op.retarget?]

/-- A constant is no instruction. -/
theorem Chunk.touching_addConstant {c c' : Chunk} {k : Constant} {i : UInt16}
    (h : c.addConstant? k = some (i, c')) : c'.touching = c.touching := by
  rw [touching, touching, (addConstant?_spec h).1]

/-! ## Instructions by route -/

/-- The instruction that reads the variable named in a way. -/
def Route.get : Route → Op
  | .slot i => .getLocal i
  | .upvalue i => .getUpvalue i
  | .global i => .getGlobal i

/-- The instruction that writes the variable named in a way. -/
def Route.set : Route → Op
  | .slot i => .setLocal i
  | .upvalue i => .setUpvalue i
  | .global i => .setGlobal i

end ScriptEngine.Bytecode

namespace ScriptEngine.Compile

open Bytecode Source

/-- Instructions do to the variable they name what a touch says. -/
structure Does (op : Route → Op) (t : Place → Touch) : Prop where
  /-- They touch variables. -/
  touches : ∀ r, (op r).touches = true
  /-- They do what the touch says. -/
  rendered : ∀ {chain : List (List Capture)} {pool : Array Constant} {r : Route} {place : Place},
    r.Reaches chain pool place → (t place).Rendered chain pool (op r)

/-- Reading by a route. -/
theorem does_get : Does Route.get Touch.read where
  touches r := by cases r <;> rfl
  rendered {_ _ r _} h := ⟨r, by cases r <;> rfl, h⟩

/-- Writing by a route. -/
theorem does_set : Does Route.set Touch.write where
  touches r := by cases r <;> rfl
  rendered {_ _ r _} h := ⟨r, by cases r <;> rfl, h⟩

/-! ## Sites -/

/-- A relation between lists, split where the first one is. -/
theorem forall₂_append_left {α β : Type} {R : α → β → Prop} {xs ys : List α} {zs : List β}
    (h : List.Forall₂ R (xs ++ ys) zs) :
    ∃ us vs, zs = us ++ vs ∧ List.Forall₂ R xs us ∧ List.Forall₂ R ys vs := by
  induction xs generalizing zs with
  | nil => exact ⟨[], zs, rfl, .nil, h⟩
  | cons x xs ih =>
    cases h with
    | cons hx hrest =>
      obtain ⟨us, vs, rfl, hus, hvs⟩ := ih hrest
      exact ⟨_ :: us, vs, rfl, .cons hx hus, hvs⟩

/-- Every element of the second list is related to one of the first. -/
theorem forall₂_of_mem_right {α β : Type} {R : α → β → Prop} {xs : List α} {ys : List β}
    (h : List.Forall₂ R xs ys) {y : β} (hy : y ∈ ys) : ∃ x ∈ xs, R x y := by
  induction h with
  | nil => cases hy
  | cons hx _ ih =>
    rcases List.mem_cons.1 hy with rfl | hy
    · exact ⟨_, List.mem_cons_self, hx⟩
    · obtain ⟨x, hmem, hx⟩ := ih hy
      exact ⟨x, List.mem_cons_of_mem _ hmem, hx⟩

/-- The binders of nested scopes, each with the depth of its scope. -/
def marks : List (List Binder) → List (Binder × Nat)
  | [] => []
  | scope :: around => scope.map (·, around.length) ++ marks around

/-- The marks are the binders, innermost first. -/
theorem fst_marks (scopes : List (List Binder)) : (marks scopes).map Prod.fst = scopes.flatten := by
  induction scopes with
  | nil => rfl
  | cons scope around ih => simp [marks, ih, Function.comp_def]

/-- Marks have the depths of scopes. -/
theorem marks_depth {scopes : List (List Binder)} {m : Binder × Nat} (h : m ∈ marks scopes) :
    m.2 < scopes.length := by
  induction scopes with
  | nil => cases h
  | cons scope around ih =>
    rcases List.mem_append.1 h with h | h
    · obtain ⟨b, -, rfl⟩ := List.mem_map.1 h
      exact Nat.lt_succ_self _
    · exact Nat.lt_succ_of_lt (ih h)

/-- Takes some of the innermost binders out of nested scopes. -/
def cutScopes : Nat → List (List Binder) → List (List Binder)
  | _, [] => []
  | count, scope :: around => scope.drop count :: cutScopes (count - scope.length) around

/-- Cutting scopes leaves as many of them. -/
theorem length_cutScopes (count : Nat) (scopes : List (List Binder)) :
    (cutScopes count scopes).length = scopes.length := by
  induction scopes generalizing count with
  | nil => rfl
  | cons scope around ih => exact congrArg (· + 1) (ih _)

/-- Cutting removes the innermost marks. -/
theorem marks_cutScopes (count : Nat) (scopes : List (List Binder)) :
    marks (cutScopes count scopes) = (marks scopes).drop count := by
  induction scopes generalizing count with
  | nil => exact List.drop_nil.symm
  | cons scope around ih =>
    rw [cutScopes, marks, marks, length_cutScopes, ih, List.drop_append, List.length_map,
      List.map_drop]

/-- A place in the code of a function, as far as names go. -/
structure Site where
  /-- Locals whose initial value is being computed, innermost first. -/
  pending : List String
  /-- Binders of the innermost scope. -/
  scope : List Binder
  /-- Binders of the scopes around it. -/
  around : List (List Binder)
  /-- For every loop around, the number of `try` statements around the loop. -/
  loops : List Nat

namespace Site

/-- The binders on the frame. -/
def frame (σ : Site) : List Binder := σ.scope ++ σ.around.flatten

/-- Whether declarations make globals. -/
def top (σ : Site) : Bool := σ.around.isEmpty

/-- Behind declarations. -/
def bind (σ : Site) (bs : List Binder) : Site := { σ with scope := bs ++ σ.scope }

/-- In the initial value of some variables. -/
def await (σ : Site) (names : List String) : Site :=
  { σ with pending := names.reverse ++ σ.pending }

/-- In a scope of its own. -/
def inner (σ : Site) : Site := { σ with scope := [], around := σ.scope :: σ.around }

/-- In a loop. -/
def loop (σ : Site) (tries : Nat) : Site := { σ with loops := tries :: σ.loops }

/-- Without some of the innermost binders, in as many scopes. -/
def cut (σ : Site) (count : Nat) : Site :=
  { σ with
    scope := σ.scope.drop count
    around := cutScopes (count - σ.scope.length) σ.around }

/-- What is in sight. -/
def sight (σ : Site) (outer : List (List Binder)) : Sight := ⟨σ.frame, outer⟩

/-- Cutting a site removes the innermost binders of its frame. -/
theorem frame_cut (σ : Site) (count : Nat) : (σ.cut count).frame = σ.frame.drop count := by
  have hcut := congrArg (List.map Prod.fst) (marks_cutScopes count (σ.scope :: σ.around))
  rw [List.map_drop, fst_marks, fst_marks] at hcut
  exact hcut

end Site

/-- A local whose value is there stands for a binder of a scope at a depth. -/
def StandsAt (m : Binder × Nat) (l : String × Option Nat) : Prop := m.1.Names l.1 ∧ l.2 = some m.2

/-- Locals are those of a site: pending ones, then the binders of its scopes. -/
def Site.Lists (σ : Site) (ls : List (String × Option Nat)) : Prop :=
  ∃ usable, ls = σ.pending.map (·, none) ++ usable ∧
    List.Forall₂ StandsAt (marks (σ.scope :: σ.around)) usable

/-- The function under construction is at a site, with the frames of `outer` around it. -/
structure Sited (outer : List (List Binder)) (σ : Site) (s : CompilerState) : Prop where
  /-- Locals stand for the binders of the site. -/
  locals : σ.Lists (shapes s.current.locals)
  /-- The scope depth is that of the site. -/
  depth : s.current.depth = σ.around.length
  /-- The loops are those of the site. -/
  loops : s.current.loops.map LoopRecord.tryDepth = σ.loops
  /-- Slots fit. -/
  slots : s.current.locals.length ≤ FunctionState.maxLocals
  /-- Indices of captures fit. -/
  indices : s.current.upvalues.size ≤ FunctionState.maxUpvalues
  /-- Captures are different. -/
  distinct : s.current.upvalues.toList.Nodup
  /-- Indices of constants fit. -/
  pool : s.chunk.constants.size ≤ Chunk.maxConstants
  /-- The functions around have the frames. -/
  enclosing : List.Forall₂ Framed outer s.enclosing

section

variable {outer : List (List Binder)} {σ : Site} {s : CompilerState}

/-- At a site the locals are those of its frame. -/
theorem Sited.framed (h : Sited outer σ s) : Framed σ.frame s.current := by
  obtain ⟨usable, hls, hu⟩ := h.locals
  refine ⟨⟨_, usable, hls, ?_, ?_⟩, h.slots, h.indices, h.distinct⟩
  · intro l hl
    obtain ⟨_, -, rfl⟩ := List.mem_map.1 hl
    rfl
  · rw [Site.frame, ← List.flatten_cons, ← fst_marks, List.forall₂_map_left_iff]
    refine hu.imp fun m l hm => ⟨hm.1, ?_⟩
    rw [hm.2]
    rfl

/-- A change of the function that leaves its captures as they are and leads to a site. -/
theorem Sited.resite (h : Sited outer σ s) {σ' : Site} {g : FunctionState}
    (hl : σ'.Lists (shapes g.locals)) (hd : g.depth = σ'.around.length)
    (hloops : g.loops.map LoopRecord.tryDepth = σ'.loops)
    (hslots : g.locals.length ≤ FunctionState.maxLocals)
    (hu : g.upvalues = s.current.upvalues) (hp : g.chunk.constants.size ≤ Chunk.maxConstants) :
    Sited outer σ' (s.withCurrent g) where
  locals := hl
  depth := hd
  loops := hloops
  slots := hslots
  indices := by
    rw [withCurrent_current, hu]
    exact h.indices
  distinct := by
    rw [withCurrent_current, hu]
    exact h.distinct
  pool := hp
  enclosing := h.enclosing

/-- A change that leaves scopes and loops as they are, too. -/
theorem Sited.withCurrent (h : Sited outer σ s) {g : FunctionState}
    (hl : shapes g.locals = shapes s.current.locals) (hd : g.depth = s.current.depth)
    (hloops : g.loops.map LoopRecord.tryDepth = s.current.loops.map LoopRecord.tryDepth)
    (hu : g.upvalues = s.current.upvalues) (hp : g.chunk.constants.size ≤ Chunk.maxConstants) :
    Sited outer σ (s.withCurrent g) :=
  h.resite (hl ▸ h.locals) (hd.trans h.depth) (hloops.trans h.loops)
    ((length_eq_of_shapes hl).symm ▸ h.slots) hu hp

end

/-! ## Traces -/

/-- The touching instructions of the function under construction do what touches say. -/
def CompilerState.Rendered (s : CompilerState) (ts : List Touch) : Prop :=
  Touch.RenderedAll (chainOf s.current s.enclosing) s.chunk.constants s.chunk.touching ts

/-- A run adds instructions for some touches and may add captures. -/
structure Moves (ts : List Touch) (s s' : CompilerState) : Prop where
  /-- Captures are only added. -/
  captures : s.current.upvalues.toList <+: s'.current.upvalues.toList
  /-- The functions around gain captures at most. -/
  enclosing : List.Forall₂ Gains s.enclosing s'.enclosing
  /-- Instructions are added for the touches. -/
  rendered : ∀ before, s.Rendered before → s'.Rendered (before ++ ts)

section

variable {s t s' : CompilerState} {ts ts' : List Touch}

/-- Nothing has been touched. -/
theorem Moves.refl (s : CompilerState) : Moves [] s s :=
  ⟨List.prefix_refl _, forall₂_gains_refl _, fun before h => by rwa [List.append_nil]⟩

/-- Touches one after another. -/
theorem Moves.trans (a : Moves ts s t) (b : Moves ts' t s') : Moves (ts ++ ts') s s' where
  captures := a.captures.trans b.captures
  enclosing := forall₂_gains_trans a.enclosing b.enclosing
  rendered before h := by
    rw [← List.append_assoc]
    exact b.rendered _ (a.rendered before h)

/-- A change of the function that leaves its captures as they are and appends instructions. -/
theorem moves_withCurrent {g : FunctionState} {ops : List Op}
    (hu : g.upvalues = s.current.upvalues) (hk : PoolKept s.chunk.constants g.chunk.constants)
    (ht : g.chunk.touching = s.chunk.touching ++ ops)
    (hr : Touch.RenderedAll (chainOf s.current s.enclosing) g.chunk.constants ops ts) :
    Moves ts s (s.withCurrent g) where
  captures := ⟨[], by rw [List.append_nil, withCurrent_current, hu]⟩
  enclosing := forall₂_gains_refl _
  rendered before h := by
    have hchain : chainOf (s.withCurrent g).current (s.withCurrent g).enclosing =
        chainOf s.current s.enclosing := by
      simp [chainOf, hu]
    unfold CompilerState.Rendered
    rw [hchain, CompilerState.chunk, withCurrent_current, ht]
    exact (h.mono (List.forall₂_same.2 fun _ _ => List.prefix_refl _) hk).append hr

/-- A change of the function that appends no touching instructions. -/
theorem moves_silent {g : FunctionState} (hu : g.upvalues = s.current.upvalues)
    (hk : PoolKept s.chunk.constants g.chunk.constants) (ht : g.chunk.touching = s.chunk.touching) :
    Moves [] s (s.withCurrent g) :=
  moves_withCurrent hu hk (ht.trans (List.append_nil _).symm) .nil

end

/-- The generator leads from one site to another and emits instructions for some touches. -/
def Traces {α : Type} (outer : List (List Binder)) (σ σ' : Site) (ts : List Touch) (m : Gen α) :
    Prop :=
  ∀ ⦃s : CompilerState⦄ ⦃a : α⦄ ⦃s' : CompilerState⦄, Sited outer σ s → Ran m s a s' →
    Sited outer σ' s' ∧ Moves ts s s'

section Rules

variable {α β : Type} {outer : List (List Binder)} {σ σ₁ σ₂ : Site} {ts ts' : List Touch}

/-- Giving a value touches nothing. -/
theorem Traces.pure (a : α) : Traces outer σ σ [] (pure a : Gen α) := by
  intro s b s' hs hr
  obtain ⟨-, rfl⟩ := ran_pure.1 hr
  exact ⟨hs, .refl _⟩

/-- What is refused touches nothing, whatever is claimed of it. -/
theorem Traces.fail (cause : Cause) (pos : Position) :
    Traces outer σ σ₁ ts (fail cause pos : Gen α) :=
  fun _ _ _ _ hr => absurd hr ran_fail

/-- A check touches nothing. -/
theorem Traces.lift (x : Except Diagnostic α) : Traces outer σ σ [] (liftM x : Gen α) := by
  intro s a s' hs hr
  obtain ⟨-, rfl⟩ := ran_lift.1 hr
  exact ⟨hs, .refl _⟩

/-- Reading the state touches nothing. -/
theorem Traces.get : Traces outer σ σ [] (get : Gen CompilerState) := by
  intro s a s' hs hr
  obtain ⟨-, rfl⟩ := ran_get.1 hr
  exact ⟨hs, .refl _⟩

/-- One generator after another, which may depend on the value of the first. -/
theorem Traces.bind {m : Gen α} {f : α → Gen β} (hm : Traces outer σ σ₁ ts m)
    (hf : ∀ a, Traces outer σ₁ σ₂ ts' (f a)) : Traces outer σ σ₂ (ts ++ ts') (m >>= f) := by
  intro s b s' hs hr
  obtain ⟨a, t, hra, hrb⟩ := ran_bind.1 hr
  obtain ⟨ht, hst⟩ := hm hs hra
  obtain ⟨hs', hts'⟩ := hf a ht hrb
  exact ⟨hs', hst.trans hts'⟩

/-- What follows may depend on the state. -/
theorem Traces.withState {f : CompilerState → Gen α}
    (hf : ∀ s, Sited outer σ s → Traces outer σ σ₁ ts (f s)) :
    Traces outer σ σ₁ ts (MonadState.get >>= f) := by
  intro s a s' hs hr
  obtain ⟨_, s, hget, hr⟩ := ran_bind.1 hr
  obtain ⟨rfl, rfl⟩ := ran_get.1 hget
  exact hf _ hs hs hr

/-- First something that touches nothing. -/
theorem Traces.after {m : Gen α} {f : α → Gen β} (hm : Traces outer σ σ₁ [] m)
    (hf : ∀ a, Traces outer σ₁ σ₂ ts (f a)) : Traces outer σ σ₂ ts (m >>= f) := hm.bind hf

/-- Then something that touches nothing. -/
theorem Traces.before {m : Gen α} {f : α → Gen β} (hm : Traces outer σ σ₁ ts m)
    (hf : ∀ a, Traces outer σ₁ σ₂ [] (f a)) : Traces outer σ σ₂ ts (m >>= f) := by
  have h := hm.bind hf
  rwa [List.append_nil] at h

/-- A choice of two that touch the same. -/
theorem Traces.ite {p : Prop} [Decidable p] {m n : Gen α} (hm : p → Traces outer σ σ₁ ts m)
    (hn : ¬ p → Traces outer σ σ₁ ts n) : Traces outer σ σ₁ ts (if p then m else n) := by
  split
  · next h => exact hm h
  · next h => exact hn h

/-- A value may be changed on the way. -/
theorem Traces.map {m : Gen α} {f : α → β} (hm : Traces outer σ σ₁ ts m) :
    Traces outer σ σ₁ ts (f <$> m) := by
  rw [map_eq_pure_bind]
  exact hm.before fun a => .pure (f a)

/-- What follows a refusal does not matter. -/
theorem Traces.failed {cause : Cause} {pos : Position} {f : β → Gen α} :
    Traces outer σ σ₁ ts ((Compile.fail cause pos : Gen β) >>= f) := by
  intro s a s' _ hr
  obtain ⟨_, _, hfail, -⟩ := ran_bind.1 hr
  exact absurd hfail ran_fail

/-- What is refused in some cases. -/
theorem Traces.unless {p : Prop} [Decidable p] {cause : Cause} {pos : Position} {f : β → Gen α}
    {m : Gen α} (hm : Traces outer σ σ₁ ts m) :
    Traces outer σ σ₁ ts (if p then (Compile.fail cause pos : Gen β) >>= f else m) :=
  .ite (fun _ => .failed) fun _ => hm

/-! ### Instructions -/

/-- An instruction that does what touches say, or touches nothing. -/
theorem Sited.emitted {s s' : CompilerState} {line : Nat} {u : Unit} (hs : Sited outer σ s)
    (op : Op) (hop : Touch.RenderedAll (chainOf s.current s.enclosing)
      s.chunk.constants (if op.touches then [op] else []) ts) (hr : Ran (emit op line) s u s') :
    Sited outer σ s' ∧ Moves ts s s' := by
  obtain rfl := ran_emit.1 hr
  refine ⟨hs.withCurrent rfl rfl rfl rfl ?_, moves_withCurrent rfl ?_
    (Chunk.touching_emit _ op line) ?_⟩
  · rw [FunctionState.emit_chunk, Chunk.emit_constants]
    exact hs.pool
  · rw [FunctionState.emit_chunk, Chunk.emit_constants]
    exact .refl _
  · rw [FunctionState.emit_chunk, Chunk.emit_constants]
    exact hop

/-- An instruction that touches nothing. -/
theorem Traces.emit {op : Op} (line : Nat) (h : op.touches = false) :
    Traces outer σ σ [] (emit op line) :=
  fun _ _ _ hs hr => hs.emitted op (by rw [h]; exact .nil) hr

/-- A jump that is patched later. -/
theorem Traces.emitJump {op : Op} (line : Nat) (h : op.touches = false) :
    Traces outer σ σ [] (emitJump op line) := by
  intro s n s' hs hr
  obtain ⟨-, hr⟩ := ran_emitJump.1 hr
  exact Traces.emit line h hs (ran_emit.2 hr : Ran _ s () s')

/-- An instruction that does to a variable what a touch says. -/
theorem Sited.touched {s s' : CompilerState} {op : Route → Op} {t : Place → Touch} {r : Route}
    {line : Nat} {u : Unit} (ho : Does op t) (hs : Sited outer σ s) (place : Place)
    (hr : r.Reaches (chainOf s.current s.enclosing) s.chunk.constants place)
    (hrun : Ran (Compile.emit (op r) line) s u s') : Sited outer σ s' ∧ Moves [t place] s s' := by
  refine hs.emitted (op r) ?_ hrun
  rw [if_pos (ho.touches r)]
  exact (ho.rendered hr).alone

/-- Reading a slot of the function itself. -/
theorem Traces.getSlot (i : UInt16) (line : Nat) :
    Traces outer σ σ [.read (.own i.toNat)] (Compile.emit (.getLocal i) line) :=
  fun _ _ _ hs hr => hs.touched does_get (r := .slot i) (.own i.toNat) rfl hr

/-- Writing a slot of the function itself. -/
theorem Traces.setSlot (i : UInt16) (line : Nat) :
    Traces outer σ σ [.write (.own i.toNat)] (Compile.emit (.setLocal i) line) :=
  fun _ _ _ hs hr => hs.touched does_set (r := .slot i) (.own i.toNat) rfl hr

/-- Reading the offset of the next instruction. -/
theorem Traces.offset : Traces outer σ σ [] offset := .after .get fun _ => .pure _

/-- Patching a jump. -/
theorem Traces.patchJump (jump : Nat) (pos : Position) :
    Traces outer σ σ [] (patchJump jump pos) := by
  intro s u s' hs hr
  obtain ⟨c, hc, rfl⟩ := ran_patchJump.1 hr
  obtain ⟨-, hconst, -, -⟩ := Chunk.patchJump?_code hc
  refine ⟨hs.withCurrent rfl rfl rfl rfl ?_, moves_silent rfl ?_ (Chunk.touching_patchJump hc)⟩
  · exact hconst ▸ hs.pool
  · exact hconst ▸ .refl _

/-- One after another for each element of a list, none of which touches anything. -/
theorem Traces.forM {f : α → Gen PUnit} (hf : ∀ a, Traces outer σ σ [] (f a)) (as : List α) :
    Traces outer σ σ [] (as.forM f) := by
  induction as with
  | nil => exact .pure _
  | cons a as ih => exact (hf a).after fun _ => ih

/-- Patching jumps. -/
theorem Traces.patchJumps (jumps : List Nat) (pos : Position) :
    Traces outer σ σ [] (patchJumps jumps pos) := .forM (.patchJump · pos) jumps

/-- The jump back of a loop. -/
theorem Traces.emitLoop (start : Nat) (pos : Position) :
    Traces outer σ σ [] (emitLoop start pos) :=
  .after .offset fun _ => .ite (fun _ => .emit pos.line rfl) fun _ => .fail _ _

/-- A constant. -/
theorem Traces.addConstant (k : Constant) (pos : Position) :
    Traces outer σ σ [] (addConstant k pos) := by
  intro s i s' hs hr
  obtain ⟨c, hc, rfl⟩ := ran_addConstant.1 hr
  exact ⟨hs.withCurrent rfl rfl rfl rfl (Chunk.addConstant?_get hc hs.pool).2,
    moves_silent rfl (Chunk.kept_addConstant hc) (Chunk.touching_addConstant hc)⟩

/-- A name in the constant pool. -/
theorem Traces.addName (name : String) (pos : Position) :
    Traces outer σ σ [] (addName name pos) := .addConstant _ pos

/-- A constant, and the instruction that pushes it. -/
theorem Traces.emitConstant (k : Constant) (pos : Position) :
    Traces outer σ σ [] (emitConstant k pos) := .after (.addConstant k pos) fun _ =>
    .emit pos.line rfl

/-! ### Variables -/

/-- Whether a name resolved in a state is found at a place. -/
def Access.Locates (s : CompilerState) (name : String) : Access → Place → Prop
  | .slot i, .own n => i.toNat = n
  | .upvalue i, .outer levels n =>
    follow (chainOf s.current s.enclosing) i.toNat = some (levels, n)
  | .global, .global x => x = name
  | _, _ => False

/-- Captures are added, here and in the functions around. -/
theorem Sited.gains {s : CompilerState} {g : FunctionState} {gs : List FunctionState}
    (hs : Sited outer σ s) (hg : Gains s.current g) (hgs : List.Forall₂ Gains s.enclosing gs)
    (hi : g.upvalues.size ≤ FunctionState.maxUpvalues) (hd : g.upvalues.toList.Nodup)
    (hf : List.Forall₂ Framed outer gs) : Sited outer σ ⟨g, gs⟩ ∧ Moves [] s ⟨g, gs⟩ := by
  constructor
  · exact
      { locals := hg.locals ▸ hs.locals
        depth := hg.depth.trans hs.depth
        loops := (congrArg _ hg.loops).trans hs.loops
        slots := (length_eq_of_shapes hg.locals).symm ▸ hs.slots
        indices := hi
        distinct := hd
        pool := by
          rw [CompilerState.chunk, hg.chunk]
          exact hs.pool
        enclosing := hf }
  · refine ⟨hg.upvalues, hgs, fun before hr => ?_⟩
    rw [List.append_nil]
    unfold CompilerState.Rendered CompilerState.chunk
    rw [hg.chunk]
    exact hr.mono (chainOf_mono hg.upvalues hgs) (.refl _)

/-- A name is resolved to the place of the binder it means. -/
theorem Sited.resolve {s s' : CompilerState} {b : Binder} {name : String} {pos : Position}
    {a : Access} (hs : Sited outer σ s) (hb : b.Names name) (hb' : b ≠ .hidden)
    (h : Ran (resolve name pos) s a s') :
    Sited outer σ s' ∧ Moves [] s s' ∧ a.Locates s' name ((σ.sight outer).place b name) := by
  simp only [Compile.resolve, ran_bind, ran_get, ran_lift] at h
  obtain ⟨_, _, ⟨rfl, rfl⟩, slot?, s, ⟨hlocal, rfl⟩, h⟩ := h
  have hslot := resolveLocal_frame hs.framed.locals hb hb' hlocal
  unfold Sight.place
  rw [show (σ.sight outer).frame = σ.frame from rfl]
  cases hfound : slotOf b σ.frame with
  | some slot =>
    rw [hfound, Option.map_some] at hslot
    obtain rfl := hslot
    obtain ⟨rfl, rfl⟩ := ran_pure.1 h
    exact ⟨hs, .refl _, hs.framed.toNat_slot hfound⟩
  | none =>
    rw [hfound, Option.map_none] at hslot
    obtain rfl := hslot
    simp only [ran_bind, ran_lift, ran_set] at h
    obtain ⟨⟨found, current, enclosing⟩, _, ⟨hup, rfl⟩, _, _, rfl, h⟩ := h
    obtain ⟨hgain, hi, hd, hgains, hframes, hled⟩ :=
      resolveUpvalue_frames hb hb' hs.enclosing hs.indices hs.distinct hup
    obtain ⟨hs', hmoves⟩ := hs.gains hgain hgains hi hd hframes
    rcases hled with ⟨hnone, rfl⟩ | ⟨⟨levels, slot⟩, i, hv, rfl, hfollow⟩
    · obtain ⟨rfl, rfl⟩ := ran_pure.1 h
      refine ⟨hs', hmoves, ?_⟩
      simp only [Site.sight, hnone]
      rfl
    · obtain ⟨rfl, rfl⟩ := ran_pure.1 h
      refine ⟨hs', hmoves, ?_⟩
      simp only [Site.sight, hv]
      exact hfollow

/-- Emits an instruction for a variable that has been resolved. -/
def emitAccess (op : Route → Op) (name : String) (pos : Position) : Access → Gen Unit
  | .slot i => Compile.emit (op (.slot i)) pos.line
  | .upvalue i => Compile.emit (op (.upvalue i)) pos.line
  | .global => do Compile.emit (op (.global (← Compile.addName name pos))) pos.line

/-- Reading a variable is resolving its name and reading by the route found. -/
theorem getVariable_eq (name : String) (pos : Position) :
    getVariable name pos = Compile.resolve name pos >>= emitAccess Route.get name pos := by
  unfold Compile.getVariable
  congr

/-- Writing a variable is resolving its name and writing by the route found. -/
theorem setVariable_eq (name : String) (pos : Position) :
    setVariable name pos = Compile.resolve name pos >>= emitAccess Route.set name pos := by
  unfold Compile.setVariable
  congr

/-- The instruction emitted for a name reaches the place of the binder that the name means. -/
theorem Traces.access {op : Route → Op} {t : Place → Touch} {b : Binder} {name : String}
    (ho : Does op t) (hb : b.Names name) (hb' : b ≠ .hidden) (pos : Position) :
    Traces outer σ σ [t ((σ.sight outer).place b name)]
      (Compile.resolve name pos >>= emitAccess op name pos) := by
  intro s u s' hs hr
  obtain ⟨a, s₁, hres, hr⟩ := ran_bind.1 hr
  obtain ⟨hs₁, hmoves, hleads⟩ := hs.resolve hb hb' hres
  generalize (σ.sight outer).place b name = place at hleads ⊢
  have hlast : Sited outer σ s' ∧ Moves [t place] s₁ s' := by
    cases a with
    | slot i =>
      cases place <;> try exact hleads.elim
      exact hs₁.touched ho (r := .slot i) _ hleads hr
    | upvalue i =>
      cases place <;> try exact hleads.elim
      exact hs₁.touched ho (r := .upvalue i) _ hleads hr
    | global =>
      cases place <;> try exact hleads.elim
      obtain rfl := hleads
      obtain ⟨i, s₂, hname, hr⟩ := ran_bind.1 hr
      obtain ⟨hs₂, hmoves₂⟩ := Traces.addName _ pos hs₁ hname
      obtain ⟨c, hc, rfl⟩ := ran_addConstant.1 hname
      obtain ⟨hs', hmoves'⟩ :=
        hs₂.touched ho (r := .global i) (.global _) (Chunk.addConstant?_get hc hs₁.pool).1 hr
      exact ⟨hs', hmoves₂.trans hmoves'⟩
  exact ⟨hlast.1, hmoves.trans hlast.2⟩

/-- A variable is read at the place of its binder. -/
theorem Traces.getVariable {b : Binder} {name : String} (hb : b.Names name) (hb' : b ≠ .hidden)
    (pos : Position) :
    Traces outer σ σ [.read ((σ.sight outer).place b name)] (getVariable name pos) := by
  rw [getVariable_eq]
  exact .access does_get hb hb' pos

/-- A variable is written at the place of its binder. -/
theorem Traces.setVariable {b : Binder} {name : String} (hb : b.Names name) (hb' : b ≠ .hidden)
    (pos : Position) :
    Traces outer σ σ [.write ((σ.sight outer).place b name)] (setVariable name pos) := by
  rw [setVariable_eq]
  exact .access does_set hb hb' pos

end Rules

end ScriptEngine.Compile
