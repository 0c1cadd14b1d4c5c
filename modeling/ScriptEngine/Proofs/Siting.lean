import ScriptEngine.Proofs.Leaving
import ScriptEngine.Proofs.Tracing

/-!
# Scopes, loops and `try` statements around a place

Opening and closing scopes, declaring locals and entering loops lead from site to site. A `break` or
`continue` leaves `try` statements on its way: it drops locals from the frame without closing their
scopes, emits the `ensure` parts inline, and goes on as if nothing had been dropped. `Guards` keeps,
for every `try` statement that has to be left, the frame it was entered with, so that its `ensure`
part is traced at that frame. `Agrees` relates the setting of a statement in the program tree to the
site and context of its code.
-/

namespace ScriptEngine.Compile

open Bytecode Source

section Rules

variable {α β : Type} {outer : List (List Binder)} {σ σ₁ σ₂ : Site} {ts ts' : List Touch}

/-! ## Scopes -/

/-- A change of the function that neither captures nor touches variables. -/
structure Quiet (f g : FunctionState) : Prop where
  /-- Captures stay. -/
  upvalues : g.upvalues = f.upvalues
  /-- Constants stay. -/
  constants : g.chunk.constants = f.chunk.constants
  /-- No touching instruction is added. -/
  touching : g.chunk.touching = f.chunk.touching

/-- Nothing has changed. -/
theorem Quiet.refl (f : FunctionState) : Quiet f f := ⟨rfl, rfl, rfl⟩

/-- Quiet changes one after the other. -/
theorem Quiet.trans {f g h : FunctionState} (a : Quiet f g) (b : Quiet g h) : Quiet f h :=
  ⟨b.upvalues.trans a.upvalues, b.constants.trans a.constants, b.touching.trans a.touching⟩

/-- Dropping locals is quiet. -/
theorem quiet_dropAll (line : Nat) (f : FunctionState) (ls : List Local) :
    Quiet f (dropAll line f ls) := by
  induction ls generalizing f with
  | nil => exact .refl f
  | cons l ls ih =>
    have hdrop : Quiet f (f.emit (FunctionState.dropOp l) line) := by
      have hop : (FunctionState.dropOp l).touches = false := by
        unfold FunctionState.dropOp
        split <;> rfl
      refine ⟨rfl, by rw [FunctionState.emit_chunk, Chunk.emit_constants], ?_⟩
      rw [FunctionState.emit_chunk, Chunk.touching_emit, hop]
      exact List.append_nil _
    exact hdrop.trans (ih _)

@[simp] theorem dropAll_loops (line : Nat) (f : FunctionState) (ls : List Local) :
    (dropAll line f ls).loops = f.loops := by
  induction ls generalizing f with
  | nil => rfl
  | cons l ls ih => exact ih _

/-- Another scope, other loops and code that touches nothing. -/
theorem Sited.quiet {s : CompilerState} {g : FunctionState} (hs : Sited outer σ s)
    (hq : Quiet s.current g) (hl : σ₁.Lists (shapes g.locals)) (hd : g.depth = σ₁.around.length)
    (hloops : g.loops.map LoopRecord.tryDepth = σ₁.loops)
    (hslots : g.locals.length ≤ FunctionState.maxLocals) :
    Sited outer σ₁ (s.withCurrent g) ∧ Moves [] s (s.withCurrent g) :=
  ⟨hs.resite hl hd hloops hslots hq.upvalues (hq.constants ▸ hs.pool),
    moves_silent hq.upvalues (hq.constants ▸ .refl _) hq.touching⟩

/-- A scope begins. -/
theorem Traces.beginScope : Traces outer σ σ.inner [] beginScope := by
  intro s u s' hs hr
  obtain rfl := ran_beginScope.1 hr
  exact hs.quiet ⟨rfl, rfl, rfl⟩ hs.locals (congrArg (· + 1) hs.depth) hs.loops hs.slots

/-- The locals of the innermost scope are dropped at its end. -/
theorem Traces.endScope (line : Nat) (hp : σ₁.pending = []) (hp' : σ.pending = [])
    (ha : σ₁.around = σ.scope :: σ.around) (hl : σ₁.loops = σ.loops) :
    Traces outer σ₁ σ [] (endScope line) := by
  intro s u s' hs hr
  obtain rfl := ran_updateFunction.1 hr
  obtain ⟨usable, hls, hu⟩ := hs.locals
  rw [hp, List.map_nil, List.nil_append] at hls
  rw [ha] at hu
  obtain ⟨_, _, rfl, hinner, houter⟩ := forall₂_append_left hu
  obtain ⟨inner, outside, hsplit, rfl, rfl⟩ := shapes_split hls
  have hdepth : s.current.depth - 1 = σ.around.length := by
    rw [hs.depth, ha]
    rfl
  have hin : ∀ l ∈ inner, l.depth.any (s.current.depth - 1 < ·) = true := by
    intro l hmem
    obtain ⟨m, hm, hstands⟩ := forall₂_of_mem_right hinner (List.mem_map_of_mem hmem)
    obtain ⟨b, -, rfl⟩ := List.mem_map.1 hm
    have hd : l.depth = some (σ.around.length + 1) := hstands.2
    rw [hd, hdepth]
    exact decide_eq_true (Nat.lt_succ_self _)
  have hout : ∀ l ∈ outside, l.depth.any (s.current.depth - 1 < ·) = false := by
    intro l hmem
    obtain ⟨m, hm, hstands⟩ := forall₂_of_mem_right houter (List.mem_map_of_mem hmem)
    have hd : l.depth = some m.2 := hstands.2
    rw [hd, hdepth]
    exact decide_eq_false (Nat.not_lt.2 (Nat.le_of_lt_succ (marks_depth hm)))
  have hdrop : FunctionState.dropScope line { s.current with depth := s.current.depth - 1 }
      s.current.locals = { dropAll line { s.current with depth := s.current.depth - 1 } inner with
        scope := .ofList outside } := by
    rw [hsplit]
    exact dropScope_append line { s.current with depth := s.current.depth - 1 } inner outside hin hout
  simp only [FunctionState.locals_withDepth, hdrop]
  have hquiet := quiet_dropAll line { s.current with depth := s.current.depth - 1 } inner
  refine hs.quiet ⟨hquiet.upvalues, hquiet.constants, hquiet.touching⟩ ?_ ?_ ?_ ?_
  · rw [Site.Lists, hp']
    exact ⟨_, rfl, houter⟩
  · exact (dropAll_depth _ _ _).trans hdepth
  · refine (congrArg _ (dropAll_loops _ _ _)).trans (hs.loops.trans hl)
  · have hslots := hs.slots
    rw [hsplit, List.length_append] at hslots
    exact Nat.le_trans (Nat.le_add_left _ _) hslots

/-- Something in a scope of its own. -/
theorem Traces.inScope {body : Gen Unit} (line : Nat) (hp : σ.pending = []) (bs : List Binder)
    (h : Traces outer σ.inner (σ.inner.bind bs) ts body) :
    Traces outer σ σ ts (inScope line body) :=
  Traces.beginScope.after fun _ => h.before fun _ => .endScope line hp hp rfl rfl

/-- A local is only declared where there is room for it. -/
theorem declare_lt {f g : FunctionState} {name : String} {pos : Position}
    (h : f.declare name pos = .ok g) : f.locals.length < FunctionState.maxLocals := by
  rw [FunctionState.declare_eq] at h
  split at h
  · cases h
  · split at h
    · assumption
    · cases h

/-- The same for a local that has its value. -/
theorem define_lt {f g : FunctionState} {name : String} {pos : Position}
    (h : f.define name pos = .ok g) : f.locals.length < FunctionState.maxLocals := by
  unfold FunctionState.define at h
  cases hd : f.declare name pos with
  | error e =>
    rw [hd] at h
    cases h
  | ok f' => exact declare_lt hd

/-- What is declared is not in sight yet. -/
theorem Traces.declare (name : String) (pos : Position) :
    Traces outer σ (σ.await [name]) [] (updateFunctionM (·.declare name pos)) := by
  intro s u s' hs hr
  obtain ⟨g, hg, rfl⟩ := ran_updateFunctionM.1 hr
  have hlt := declare_lt hg
  obtain rfl := declare_ok hg
  obtain ⟨usable, hls, hu⟩ := hs.locals
  refine hs.quiet ⟨rfl, rfl, rfl⟩ ⟨usable, ?_, hu⟩ hs.depth hs.loops hlt
  rw [FunctionState.locals_mk, shapes_cons, hls]
  rfl

/-- Locals are declared whose values are still being computed. -/
theorem Traces.declares (names : List String) (pos : Position) :
    Traces outer σ (σ.await names) []
      (names.forM fun name => updateFunctionM (·.declare name pos)) := by
  induction names generalizing σ with
  | nil => exact .pure _
  | cons name names ih =>
    have hone : Traces outer σ (σ.await [name]) [] _ := .declare name pos
    have hrest := hone.after fun _ => ih
    have heq : (σ.await [name]).await names = σ.await (name :: names) := by
      simp [Site.await]
    rwa [heq] at hrest

/-- Declared names are in sight once their values are there. -/
theorem Traces.markInitialized {names : List String} (hnames : names.all isOrdinary = true)
    (hp : σ.pending = []) :
    Traces outer (σ.await names) (σ.bind (bindersOf names)) []
      (updateFunction (·.markInitialized names.length)) := by
  intro s u s' hs hr
  obtain rfl := ran_updateFunction.1 hr
  obtain ⟨usable, hls, hu⟩ := hs.locals
  simp only [Site.await, hp, List.append_nil] at hls hu
  have hlen : (names.reverse.map fun name => (name, (none : Option Nat))).length = names.length := by
    simp
  have hmark := shapes_markInitialized s.current hls
  rw [hlen] at hmark
  have hsame : (s.current.markInitialized names.length).locals.length = s.current.locals.length := by
    rw [← length_shapes, hmark, ← length_shapes, hls]
    simp
  refine hs.quiet ⟨rfl, rfl, rfl⟩ ?_ hs.depth hs.loops (hsame ▸ hs.slots)
  refine ⟨_, by simp only [Site.bind, hp, List.map_nil, List.nil_append]; exact hmark, ?_⟩
  simp only [Site.bind, marks, List.map_append, List.append_assoc]
  refine List.rel_append ?_ hu
  rw [bindersOf, ← List.map_reverse, List.map_map, List.map_map, List.forall₂_map_left_iff,
    List.forall₂_map_right_iff]
  refine List.forall₂_same.2 fun name hmem => ⟨⟨rfl, ?_⟩, congrArg some hs.depth⟩
  exact List.all_eq_true.1 hnames name (List.mem_reverse.1 hmem)

/-- A local whose value is there is in sight at once. -/
theorem Traces.defineLocal {b : Binder} {name : String} (hb : b.Names name) (hp : σ.pending = [])
    (pos : Position) : Traces outer σ (σ.bind [b]) [] (defineLocal name pos) := by
  intro s u s' hs hr
  obtain ⟨g, hg, rfl⟩ := ran_defineLocal.1 hr
  have hlt := define_lt hg
  obtain rfl := define_ok hg
  obtain ⟨usable, hls, hu⟩ := hs.locals
  rw [hp, List.map_nil, List.nil_append] at hls
  refine hs.quiet ⟨rfl, rfl, rfl⟩ ⟨(name, some s.current.depth) :: usable, ?_, ?_⟩ hs.depth hs.loops
    hlt
  · rw [FunctionState.locals_mk, shapes_cons, hls, Site.bind, hp]
    rfl
  · exact .cons ⟨hb, congrArg some hs.depth⟩ hu

/-- What follows may depend on whether declarations make globals. -/
theorem Traces.withTop {f : Bool → Gen α} (h : Traces outer σ σ₁ ts (f σ.top)) :
    Traces outer σ σ₁ ts (atTopLevel >>= f) := by
  unfold atTopLevel
  rw [bind_assoc]
  refine .withState fun s hs => ?_
  have heq : (s.current.depth == 0) = σ.top := by
    rw [hs.depth, Site.top]
    cases σ.around <;> rfl
  rw [pure_bind, heq]
  exact h

/-- The locals are those of the frame and those whose values are still being computed. -/
theorem Sited.length {s : CompilerState} (hs : Sited outer σ s) :
    s.current.locals.length = σ.pending.length + σ.frame.length := by
  obtain ⟨usable, hls, hu⟩ := hs.locals
  have hframe := congrArg List.length (fst_marks (σ.scope :: σ.around))
  rw [List.length_map, hu.length_eq] at hframe
  rw [← length_shapes, hls, List.length_append, List.length_map, hframe]
  rfl

/-- What follows may depend on the number of locals. -/
theorem Traces.withCount {f : Nat → Gen α} (hp : σ.pending = [])
    (h : Traces outer σ σ₁ ts (f σ.frame.length)) : Traces outer σ σ₁ ts (localCount >>= f) := by
  unfold localCount
  rw [bind_assoc]
  refine .withState fun s hs => ?_
  rw [pure_bind, hs.length, hp, List.length_nil, Nat.zero_add]
  exact h

/-- Slots fit their operands. -/
theorem Traces.fitting {m : Gen α}
    (h : σ.frame.length ≤ FunctionState.maxLocals → Traces outer σ σ₁ ts m) :
    Traces outer σ σ₁ ts m := by
  intro s a s' hs hr
  refine h ?_ hs hr
  have hlen := hs.length
  have hslots := hs.slots
  omega

/-- A value is bound to a variable. -/
theorem Traces.defineVariable {name : String} (hname : isOrdinary name = true)
    (hp : σ.pending = []) (pos : Position) :
    Traces outer σ (σ.bind (if σ.top then [] else [.named name])) [] (defineVariable name pos) := by
  refine .withTop ?_
  cases σ.top with
  | true => exact Traces.addName name pos |>.after fun _ => .emit pos.line rfl
  | false => exact .defineLocal (b := .named name) ⟨rfl, hname⟩ hp pos

/-! ## Loops -/

/-- A loop begins. -/
theorem Traces.beginLoop (ctx : Context) (target : Option Nat) :
    Traces outer σ (σ.loop ctx.tries.length) [] (beginLoop ctx target) := by
  intro s u s' hs hr
  obtain rfl := ran_beginLoop.1 hr
  exact hs.quiet ⟨rfl, rfl, rfl⟩ hs.locals hs.depth (congrArg (_ :: ·) hs.loops) hs.slots

/-- A change of the innermost loop that leaves its depth alone. -/
theorem Traces.updateLoop {g : LoopRecord → LoopRecord} (hg : ∀ l, (g l).tryDepth = l.tryDepth) :
    Traces outer σ σ [] (updateLoop g) := by
  intro s u s' hs hr
  obtain rfl := ran_updateFunction.1 hr
  split
  · exact ⟨hs, .refl _⟩
  · next l rest hl =>
    refine hs.quiet ⟨rfl, rfl, rfl⟩ hs.locals hs.depth ?_ hs.slots
    rw [← hs.loops, hl, List.map_cons, List.map_cons, hg]

/-- The jumps to the next round are patched. -/
theorem Traces.patchContinues (pos : Position) : Traces outer σ σ [] (patchContinues pos) := by
  refine .after .get fun s => ?_
  split
  · exact .pure _
  · exact .after (.patchJumps _ pos) fun _ => .updateLoop fun _ => rfl

/-- A loop ends. -/
theorem Traces.endLoop {tries : Nat} (pos : Position) :
    Traces outer (σ.loop tries) σ [] (endLoop pos) := by
  refine .withState fun s hs => ?_
  have hloops := hs.loops
  split
  · next hl =>
    rw [hl] at hloops
    cases hloops
  · next l rest hl =>
    rw [hl] at hloops
    have hforget : Traces outer (σ.loop tries) σ []
        (updateFunction fun f => { f with loops := rest }) := by
      intro t u t' ht hr
      obtain rfl := ran_updateFunction.1 hr
      exact ht.quiet ⟨rfl, rfl, rfl⟩ ht.locals ht.depth (List.tail_eq_of_cons_eq hloops) ht.slots
    exact hforget.after fun _ => .patchJumps _ pos

/-! ## Leaving `try` statements -/

/-- Locals are dropped, but not forgotten. -/
theorem Traces.discardLocals (count line : Nat) :
    Traces outer σ σ [] (updateFunction (·.discardLocals count line)) := by
  intro s u s' hs hr
  obtain rfl := ran_discardLocals.1 hr
  refine hs.quiet (quiet_dropAll _ _ _) ?_ ?_ ?_ ?_
  · rw [dropAll_locals]
    exact hs.locals
  · rw [dropAll_depth]
    exact hs.depth
  · rw [dropAll_loops]
    exact hs.loops
  · rw [dropAll_locals]
    exact hs.slots

/-- Forgetting the locals from a slot up. The scope depth stays. -/
theorem Traces.truncate (count : Nat) (hp : σ.pending = []) :
    Traces outer σ (σ.cut (σ.frame.length - count)) []
      (updateFunction fun f => { f with scope := .ofList (f.locals.drop (f.locals.length - count)) }) := by
  intro s u s' hs hr
  obtain rfl := ran_updateFunction.1 hr
  have hlen := hs.length
  rw [hp, List.length_nil, Nat.zero_add] at hlen
  obtain ⟨usable, hls, hu⟩ := hs.locals
  rw [hp, List.map_nil, List.nil_append] at hls
  refine hs.quiet ⟨rfl, rfl, rfl⟩ ?_ ?_ hs.loops ?_
  · refine ⟨usable.drop (σ.frame.length - count), ?_, ?_⟩
    · rw [Site.cut, hp, List.map_nil, List.nil_append, ← hls, hlen, shapes, FunctionState.locals_mk, List.map_drop]
      rfl
    · exact marks_cutScopes _ (σ.scope :: σ.around) ▸ List.forall₂_drop _ hu
  · exact hs.depth.trans (length_cutScopes _ _).symm
  · refine Nat.le_trans ?_ hs.slots
    exact (List.drop_sublist _ _).length_le

/-- An optional part does what touches say. -/
def Optionally (P : List Touch → Gen Unit → Prop) (ts : List Touch) : Option (Gen Unit) → Prop
  | none => ts = []
  | some m => P ts m

/-- An inlined `ensure` part does what touches say wherever the frame is that of its statement. -/
def Inlines (outer : List (List Binder)) (loops : List Nat) (frame : List Binder)
    (ts : List Touch) (m : Gen Unit) : Prop :=
  ∀ σ : Site, σ.pending = [] → σ.frame = frame → σ.loops = loops → Traces outer σ σ ts m

/-- An optional part. -/
theorem Traces.optional {P : List Touch → Gen Unit → Prop} {o : Option (Gen Unit)}
    {f : Gen Unit → Gen PUnit} (h : Optionally P ts o)
    (hf : ∀ m, P ts m → Traces outer σ σ ts (f m)) : Traces outer σ σ ts (o.forM f) := by
  cases o with
  | none =>
    obtain rfl : ts = [] := h
    exact .pure _
  | some m => exact hf m h

/-- An optional part that gives a value. -/
theorem Traces.optionalMap {P : List Touch → Gen Unit → Prop} {o : Option (Gen Unit)}
    {f : Gen Unit → Gen β} (h : Optionally P ts o)
    (hf : ∀ m, P ts m → Traces outer σ σ ts (f m)) : Traces outer σ σ ts (o.mapM f) := by
  cases o with
  | none =>
    obtain rfl : ts = [] := h
    exact .pure _
  | some m => exact (hf m h).map

/-- The `try` statements that leaving the innermost loop leaves, and what their `ensure` parts do to
variables. -/
inductive Guards (outer : List (List Binder)) (loops : List Nat) :
    List Binder → List TryBlock → List (List Touch) → Prop
  /-- These are all. -/
  | all {frame : List Binder} {tries : List TryBlock}
    (depth : ∀ d, loops.head? = some d → d = tries.length) : Guards outer loops frame tries []
  /-- One more, which was entered with fewer locals. -/
  | inside {frame below above : List Binder} {b : TryBlock} {tries : List TryBlock}
    {ts : List Touch} {pending : List (List Touch)} (split : frame = above ++ below)
    (count : b.localCount = below.length)
    (ensure : Optionally (Inlines outer loops below) ts b.ensure)
    (rest : Guards outer loops below tries pending) :
    Guards outer loops frame (b :: tries) (ts :: pending)

section Leaving

variable {loops : List Nat} {frame : List Binder} {tries : List TryBlock}
variable {pending : List (List Touch)}

/-- Guards are as they were under more binders. -/
theorem Guards.more (h : Guards outer loops frame tries pending) (bs : List Binder) :
    Guards outer loops (bs ++ frame) tries pending := by
  cases h with
  | all depth => exact .all depth
  | inside split count ensure rest =>
    exact .inside (split ▸ (List.append_assoc _ _ _).symm) count ensure rest

/-- The loops begin at no more `try` statements than there are. -/
theorem Guards.depth_le (h : Guards outer loops frame tries pending) {d : Nat}
    (hd : loops.head? = some d) : d ≤ tries.length := by
  induction h with
  | all depth => exact Nat.le_of_eq (depth d hd)
  | inside _ _ _ _ ih => exact Nat.le_succ_of_le ih

/-- From a loop inside all of them, no `try` statement has to be left. -/
theorem Guards.nothing (h : Guards outer loops frame tries pending) {d : Nat}
    (hd : loops.head? = some d) (hle : tries.length ≤ d) : pending = [] := by
  cases h with
  | all _ => rfl
  | inside _ _ _ rest => exact absurd (rest.depth_le hd) (Nat.not_le.2 hle)

/-- Leaving `try` statements runs their `ensure` parts, each with the frame of its statement. -/
theorem traces_leaveTries (line : Nat) {d : Nat} (h : Guards outer loops frame tries pending)
    (hd : loops.head? = some d) (hp : σ.pending = []) (hf : σ.frame = frame)
    (hl : σ.loops = loops) :
    ∃ σ', σ'.pending = [] ∧ σ'.around.length = σ.around.length ∧ σ'.loops = loops ∧
      Traces outer σ σ' pending.flatten (leaveTries line (tries.take (tries.length - d))) := by
  induction h generalizing σ with
  | all depth =>
    rw [depth d hd, Nat.sub_self, List.take_zero]
    exact ⟨σ, hp, rfl, hl, .pure _⟩
  | @inside frame below above b tries ts pending split count ensure rest ih =>
    have hle := rest.depth_le hd
    rw [List.length_cons, Nat.sub_add_comm hle, List.take_succ_cons, leaveTries]
    have hcut : (σ.cut (σ.frame.length - b.localCount)).frame = below := by
      rw [Site.frame_cut, hf, split, count, List.length_append, Nat.add_sub_cancel_right,
        List.drop_left]
    obtain ⟨σ', hp', ha', hl', hrest⟩ := @ih (σ.cut (σ.frame.length - b.localCount)) hp hcut hl
    have hpart : Traces outer (σ.cut (σ.frame.length - b.localCount))
        (σ.cut (σ.frame.length - b.localCount)) ts (b.ensure.forM id) :=
      .optional ensure fun m hm => hm _ hp hcut hl
    refine ⟨σ', hp', ha'.trans (length_cutScopes _ _), hl', ?_⟩
    exact .after (.discardLocals _ line) fun _ => .after (.truncate _ hp) fun _ =>
      .after (.forM (fun _ => .emit line rfl) _) fun _ => hpart.bind fun _ => hrest

/-- Behind the code that leaves `try` statements the locals are those before it. -/
theorem Traces.exitTries {ctx : Context} (line : Nat) {d : Nat}
    (h : Guards outer σ.loops σ.frame ctx.tries pending) (hd : σ.loops.head? = some d)
    (hp : σ.pending = []) : Traces outer σ σ pending.flatten (exitTries ctx d line) := by
  unfold Compile.exitTries
  refine .ite (fun hle => ?_) fun _ => ?_
  · rw [h.nothing hd hle]
    exact .pure _
  · obtain ⟨σ', -, ha, hl, hleave⟩ := traces_leaveTries line h hd hp rfl rfl
    refine .withState fun s hs => hleave.before fun _ => ?_
    intro t u t' ht hr
    obtain rfl := ran_updateFunction.1 hr
    have hshapes := shapes_mergeCaptures s.current.locals t.current.locals
    refine ht.quiet ⟨rfl, rfl, rfl⟩ (hshapes ▸ hs.locals) (ht.depth.trans ha) (ht.loops.trans hl) ?_
    exact (length_eq_of_shapes hshapes).symm ▸ hs.slots

/-- A jump out of a loop touches what the `ensure` parts touch that it emits. -/
theorem Traces.emitBreak {ctx : Context} (h : Guards outer σ.loops σ.frame ctx.tries pending)
    (hp : σ.pending = []) (pos : Position) :
    Traces outer σ σ pending.flatten (emitBreak ctx pos) := by
  refine .withState fun s hs => ?_
  split
  · exact .fail _ _
  · next l rest hl =>
    have hd : σ.loops.head? = some l.tryDepth := by
      rw [← hs.loops, hl]
      rfl
    exact (Traces.exitTries pos.line h hd hp).before fun _ => .after (.discardLocals _ _) fun _ =>
      .after (.emitJump pos.line rfl) fun _ => .updateLoop fun _ => rfl

/-- So does a jump to the next round. -/
theorem Traces.emitContinue {ctx : Context} (h : Guards outer σ.loops σ.frame ctx.tries pending)
    (hp : σ.pending = []) (pos : Position) :
    Traces outer σ σ pending.flatten (emitContinue ctx pos) := by
  refine .withState fun s hs => ?_
  split
  · exact .fail _ _
  · next l rest hl =>
    have hd : σ.loops.head? = some l.tryDepth := by
      rw [← hs.loops, hl]
      rfl
    refine (Traces.exitTries pos.line h hd hp).before fun _ => .after (.discardLocals _ _) fun _ => ?_
    split
    · exact .emitLoop _ pos
    · exact .after (.emitJump pos.line rfl) fun _ => .updateLoop fun _ => rfl

end Leaving

end Rules

/-! ## Settings of statements -/

/-- The frame with more binders. -/
theorem Site.frame_bind (σ : Site) (bs : List Binder) : (σ.bind bs).frame = bs ++ σ.frame :=
  List.append_assoc _ _ _

/-- Binders one after the other. -/
theorem Site.bind_bind (σ : Site) (bs cs : List Binder) :
    (σ.bind bs).bind cs = σ.bind (cs ++ bs) := by
  simp [Site.bind]

/-- More binders are seen first. -/
theorem Site.sight_bind (σ : Site) (bs : List Binder) (outer : List (List Binder)) :
    (σ.bind bs).sight outer = (σ.sight outer).bind bs := by
  rw [Site.sight, Site.frame_bind]
  rfl

/-- What surrounds a statement in the program tree is what surrounds it in the code. -/
structure Agrees (outer : List (List Binder)) (σ : Site) (ctx : Context) (c : Setting) : Prop where
  /-- All values are there. -/
  settled : σ.pending = []
  /-- The same binders are in sight. -/
  sight : c.sight = σ.sight outer
  /-- The function is a constructor in both. -/
  constructs : c.constructs = (ctx.kind == .constructor)
  /-- Leaving the innermost loop runs the same `ensure` parts. -/
  guards : Guards outer σ.loops σ.frame ctx.tries c.pending

section Agrees

variable {outer : List (List Binder)} {σ : Site} {ctx : Context} {c : Setting}

/-- A context agrees with a site under more binders. -/
theorem Agrees.bind (h : Agrees outer σ ctx c) (bs : List Binder) :
    Agrees outer (σ.bind bs) ctx (c.bind bs) where
  settled := h.settled
  sight := by rw [Site.sight_bind, ← h.sight, Setting.bind]
  constructs := h.constructs
  guards := by
    rw [Site.frame_bind]
    exact h.guards.more bs

/-- It agrees in a scope. -/
theorem Agrees.inner (h : Agrees outer σ ctx c) : Agrees outer σ.inner ctx c :=
  ⟨h.settled, h.sight, h.constructs, h.guards⟩

/-- It agrees in a loop. -/
theorem Agrees.loop (h : Agrees outer σ ctx c) :
    Agrees outer (σ.loop ctx.tries.length) ctx c.loop where
  settled := h.settled
  sight := h.sight
  constructs := h.constructs
  guards := .all fun _ hd => (Option.some.inj hd).symm

/-- Inside a `try` statement whose `ensure` part does what touches say. -/
theorem Agrees.guarded (h : Agrees outer σ ctx c) (handlers : Nat) {ts : List Touch}
    (ensure : Option (Gen Unit))
    (he : Optionally (Inlines outer σ.loops σ.frame) ts ensure) :
    Agrees outer σ (ctx.within σ.frame.length handlers ensure) (c.guarded ts) where
  settled := h.settled
  sight := h.sight
  constructs := h.constructs
  guards := .inside (List.nil_append _).symm rfl he h.guards

/-- Where the frame and the loops are the same. -/
theorem Agrees.elsewhere (h : Agrees outer σ ctx c) {σ' : Site} (hp : σ'.pending = [])
    (hf : σ'.frame = σ.frame) (hl : σ'.loops = σ.loops) : Agrees outer σ' ctx c where
  settled := hp
  sight := by rw [h.sight, Site.sight, Site.sight, hf]
  constructs := h.constructs
  guards := by
    rw [hf, hl]
    exact h.guards

end Agrees

end ScriptEngine.Compile
