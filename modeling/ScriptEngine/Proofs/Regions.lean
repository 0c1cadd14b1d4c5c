import ScriptEngine.Proofs.Growth

/-!
# Scopes and loops of a function under construction

Opening and closing scopes and loops changes the records of a function and adds code that drops
locals or pays what the loop's jumps owe. The lemmas here carry growth into a scope or a loop and out
of it again: what a scope has declared is dropped at its end, and what a loop has recorded is patched
at its end.
-/

namespace ScriptEngine.Compile

open Bytecode Source

@[simp] theorem FunctionState.locals_withDepth (f : FunctionState) (depth : Nat) :
    ({ f with depth := depth } : FunctionState).locals = f.locals := rfl

/-- The state with other loops. -/
def CompilerState.withLoops (s : CompilerState) (loops : List LoopRecord) : CompilerState :=
  s.withCurrent { s.current with loops := loops }

/-- Locals with their values on the stack, declared no deeper than a scope depth. -/
def Settled (depth : Nat) (ls : List (String × Option Nat)) : Prop :=
  ∀ x ∈ ls, ∃ d ≤ depth, x.2 = some d

/-- Locals settled at a depth are settled at every greater one. -/
theorem Settled.mono {d d' : Nat} {ls : List (String × Option Nat)} (h : Settled d ls)
    (hd : d ≤ d') : Settled d' ls := by
  intro x hx
  obtain ⟨e, he, hx'⟩ := h x hx
  exact ⟨e, Nat.le_trans he hd, hx'⟩

/-- Locals put together are settled if both lists are. -/
theorem Settled.append {d : Nat} {xs ys : List (String × Option Nat)} (hx : Settled d xs)
    (hy : Settled d ys) : Settled d (xs ++ ys) := by
  intro x h
  rcases List.mem_append.1 h with h | h
  · exact hx x h
  · exact hy x h

/-- Locals that were all declared at a depth. -/
def DeclaredAt (depth : Nat) (ls : List (String × Option Nat)) : Prop :=
  ∀ x ∈ ls, x.2 = some depth

/-- Locals declared at a depth are settled there. -/
theorem DeclaredAt.settled {d : Nat} {ls : List (String × Option Nat)} (h : DeclaredAt d ls) :
    Settled d ls := fun x hx => ⟨d, Nat.le_refl _, h x hx⟩

/-- Locals put together are declared at a depth if both lists are. -/
theorem DeclaredAt.append {d : Nat} {xs ys : List (String × Option Nat)} (hx : DeclaredAt d xs)
    (hy : DeclaredAt d ys) : DeclaredAt d (xs ++ ys) := by
  intro x h
  rcases List.mem_append.1 h with h | h
  · exact hx x h
  · exact hy x h

section Reframe

variable {exit : Option Level} {debts : List (Nat × Level)}
variable {fresh fresh' : List (String × Option Nat)}
variable {s s' : CompilerState} {τ τ' : Typing}

/-- What extends a function extends it one scope deeper as well. -/
theorem Extends.deeper (h : Extends fresh s τ s' τ') :
    Extends fresh (s.withScope s.current.locals (s.current.depth + 1)) τ
      (s'.withScope s'.current.locals (s'.current.depth + 1)) τ' :=
  ⟨h.size, h.level, congrArg (· + 1) h.depth, h.loops, h.locals, h.enclosing⟩

/-- Growth does not depend on the locals and the depth it happens at. -/
theorem Grows.reframe (h : Grows exit debts fresh s τ s' τ') {ls ls' : List Local}
    (hl : shapes ls' = fresh' ++ shapes ls) (d : Nat) :
    Grows exit debts fresh' (s.withScope ls d) τ (s'.withScope ls' d) τ' where
  size := h.size
  level := h.level
  depth := rfl
  loops := h.loops
  locals := hl
  enclosing := h.enclosing
  owes := by
    obtain ⟨bs, cs, ho⟩ := h.owes
    exact ⟨bs, cs, ho.loops, ho.nodup, ho.within, ho.empty, ho.targeted, ho.jump, ho.debt, ho.rest⟩

/-- What grows in a scope grows in the scope that was opened for it. -/
theorem Grows.deeper (h : Grows exit debts fresh s τ s' τ') :
    Grows exit debts fresh (s.withScope s.current.locals (s.current.depth + 1)) τ
      (s'.withScope s'.current.locals (s'.current.depth + 1)) τ' where
  toExtends := h.toExtends.deeper
  owes := by
    obtain ⟨bs, cs, ho⟩ := h.owes
    exact ⟨bs, cs, ho.loops, ho.nodup, ho.within, ho.empty, ho.targeted, ho.jump, ho.debt, ho.rest⟩

/-- Growth does not depend on locals that stay as they are. -/
theorem Grows.relocate (h : Grows exit debts fresh s τ s' τ') (ls : List Local) (d : Nat) :
    Grows exit debts [] (s.withScope ls d) τ (s'.withScope ls d) τ' :=
  h.reframe (List.nil_append _).symm d

/-- New locals alone are growth. -/
theorem grows_locals {ls : List Local} (hl : shapes ls = fresh ++ shapes s.current.locals) :
    Grows exit [] fresh s τ (s.withScope ls s.current.depth) τ := by
  simpa using (KeepsScopes.refl s τ).grows.reframe hl s.current.depth

end Reframe

/-! ## Declaring locals -/

section Declare

variable {f g : FunctionState} {name : String} {pos : Position}

/-- Declaring a name adds a local that is not defined yet. -/
theorem declare_ok (h : f.declare name pos = .ok g) :
    g = { f with scope := .ofList (⟨name, none, false⟩ :: f.locals) } := by
  rw [FunctionState.declare_eq] at h
  split at h
  · cases h
  · split at h
    · cases h
      rfl
    · cases h

/-- Defining a name adds a local of the current depth. -/
theorem define_ok (h : f.define name pos = .ok g) :
    g = { f with scope := .ofList (⟨name, some f.depth, false⟩ :: f.locals) } := by
  unfold FunctionState.define at h
  cases hd : f.declare name pos with
  | error e =>
    rw [hd] at h
    cases h
  | ok f' =>
    rw [hd] at h
    cases h
    rw [declare_ok hd]
    rfl

variable {s s' : CompilerState} {u : Unit}

/-- A generator that defines a local changes the locals alone. -/
theorem ran_define (h : Ran (defineLocal name pos) s u s') :
    s' = s.withScope (⟨name, some s.current.depth, false⟩ :: s.current.locals) s.current.depth := by
  obtain ⟨g, hg, rfl⟩ := ran_defineLocal.1 h
  rw [define_ok hg]
  rfl

/-- Declaring several names puts them before the locals, the last one first. -/
theorem ran_declares {names : List String}
    (h : Ran (names.forM fun name => updateFunctionM (·.declare name pos)) s u s') :
    s' = s.withScope ((names.reverse.map fun name => ⟨name, none, false⟩) ++ s.current.locals)
      s.current.depth := by
  induction names generalizing s u with
  | nil =>
    rw [ran_forM_nil.1 h]
    simp
  | cons name names ih =>
    obtain ⟨t, hd, hrest⟩ := ran_forM_cons.1 h
    obtain ⟨g, hg, rfl⟩ := ran_updateFunctionM.1 hd
    rw [declare_ok hg] at hrest
    rw [ih hrest]
    simp [CompilerState.withScope, CompilerState.withCurrent]

/-- The last locals get the current depth when they are made usable. -/
theorem shapes_markInitialized (f : FunctionState) {xs ys : List (String × Option Nat)}
    (h : shapes f.locals = xs ++ ys) :
    shapes (f.markInitialized xs.length).locals = (xs.map fun x => (x.1, some f.depth)) ++ ys := by
  have htake : (shapes f.locals).take xs.length = xs := by rw [h, List.take_left]
  have hdrop : (shapes f.locals).drop xs.length = ys := by rw [h, List.drop_left]
  rw [shapes, ← List.map_take, ← shapes] at htake
  rw [shapes, ← List.map_drop, ← shapes] at hdrop
  have hmark : ∀ ls : List Local, shapes (ls.map fun l => { l with depth := some f.depth }) =
      (shapes ls).map fun x => (x.1, some f.depth) := by
    intro ls
    simp only [shapes, List.map_map]
    rfl
  rw [FunctionState.markInitialized, FunctionState.locals_mk, shapes_append, hdrop, hmark, htake]

end Declare

/-! ## Dropping locals -/

section Drop

variable {exact : Bool} {s : CompilerState} {τ : Typing} {L : Level}

/-- The function with code that drops some locals. -/
def dropAll (line : Nat) (f : FunctionState) (ls : List Local) : FunctionState :=
  ls.foldl (fun f l => f.emit (FunctionState.dropOp l) line) f

/-- Dropping locals takes their values from the stack. -/
theorem typed_dropAll (hat : At exact s.chunk τ L) (hc : L.Covered) (line : Nat) (ls : List Local)
    (hlt : exact = true → ls.length < L.height) :
    ∃ τ', At exact (s.withCurrent (dropAll line s.current ls)).chunk τ' (L.drop ls.length) ∧
      KeepsScopes s τ (s.withCurrent (dropAll line s.current ls)) τ' := by
  induction ls generalizing s τ L with
  | nil => exact ⟨τ, hat, .refl _ _⟩
  | cons l ls ih =>
    have hop : ∀ L : Level, L.Covered → (exact = true → 1 < L.height) →
        (FunctionState.dropOp l).Safe exact L ∧
          ∀ pc, ((FunctionState.dropOp l).next pc L).Flows exact (L.drop 1) := by
      intro L hc h1
      unfold FunctionState.dropOp
      split <;>
        exact ⟨⟨h1, nofun, nofun, .inl hc⟩, fun _ => .refl _ _⟩
    obtain ⟨hsafe, hflow⟩ := hop L hc fun he => by
      have := hlt he
      rw [List.length_cons] at this
      omega
    have htarget : ∀ pc, (FunctionState.dropOp l).jumpTarget? pc = none := by
      intro pc
      unfold FunctionState.dropOp
      split <;> rfl
    obtain ⟨τ₁, hat₁, hk₁⟩ := typed_straight hat _ _ hsafe (fun _ => hflow _) (htarget _) line
    obtain ⟨τ', hat', hk⟩ := ih hat₁ hc fun he => by
        have := hlt he
        rw [List.length_cons] at this
        rw [Level.drop_height]
        omega
    rw [Level.drop_drop, Nat.add_comm] at hat'
    exact ⟨τ', hat', hk₁.trans hk⟩

/-- Closing a scope drops the locals deeper than the new depth. -/
theorem dropScope_append (line : Nat) (f : FunctionState) (ls rest : List Local)
    (hls : ∀ l ∈ ls, l.depth.any (f.depth < ·) = true)
    (hrest : ∀ l ∈ rest, l.depth.any (f.depth < ·) = false) :
    f.dropScope line (ls ++ rest) = { dropAll line f ls with scope := .ofList rest } := by
  induction ls generalizing f with
  | nil =>
    cases rest with
    | nil => rfl
    | cons l rest =>
      have h := hrest l List.mem_cons_self
      simp only [List.nil_append, FunctionState.dropScope, h]
      rfl
  | cons l ls ih =>
    have h := hls l List.mem_cons_self
    simp only [List.cons_append, FunctionState.dropScope, h, if_true]
    exact ih _ (fun l' hl' => hls l' (List.mem_cons_of_mem _ hl')) hrest

/-- Code that drops locals does not depend on the depth. -/
theorem dropAll_withDepth (line : Nat) (f : FunctionState) (ls : List Local) (d : Nat) :
    dropAll line { f with depth := d } ls = { dropAll line f ls with depth := d } := by
  induction ls generalizing f with
  | nil => rfl
  | cons l ls ih => exact ih (f.emit (FunctionState.dropOp l) line)

end Drop

/-! ## Scopes -/

section Scopes

variable {exact : Bool} {exit : Option Level} {debts : List (Nat × Level)}
variable {fresh : List (String × Option Nat)}
variable {s t t' : CompilerState} {τ υ : Typing} {L : Level} {line : Nat} {u : Unit}

/-- Locals whose shapes are two lists put together fall into two parts. -/
theorem shapes_split {ls : List Local} {xs ys : List (String × Option Nat)}
    (h : shapes ls = xs ++ ys) : ∃ ls₁ ls₂, ls = ls₁ ++ ls₂ ∧ shapes ls₁ = xs ∧ shapes ls₂ = ys :=
  List.map_eq_append_iff.1 h

/-- What a scope has declared is dropped at its end, and what it owes stays. -/
theorem Grows.endScope (h : Grows exit debts fresh
      (s.withScope s.current.locals (s.current.depth + 1)) τ t υ)
    (hfresh : DeclaredAt (s.current.depth + 1) fresh)
    (hold : Settled s.current.depth (shapes s.current.locals)) (hL : L.Ready)
    (hat : At exact t.chunk υ (L.push fresh.length)) (hr : Ran (endScope line) t u t') :
    ∃ υ', At exact t'.chunk υ' L ∧ Grows exit debts [] s τ t' υ' := by
  obtain ⟨new, old, hlocals, hnew, hold'⟩ := shapes_split h.locals
  have hdepth : t.current.depth = s.current.depth + 1 := h.depth
  have hany : ∀ l ∈ new, l.depth.any (s.current.depth < ·) = true := by
    intro l hl
    have := hfresh l.shape (hnew ▸ List.mem_map_of_mem hl)
    rw [show l.depth = some (s.current.depth + 1) from this]
    simp
  have hnone : ∀ l ∈ old, l.depth.any (s.current.depth < ·) = false := by
    intro l hl
    obtain ⟨d, hd, hdl⟩ := hold l.shape (hold' ▸ List.mem_map_of_mem hl)
    rw [show l.depth = some d from hdl]
    simp [hd]
  have hlen : new.length = fresh.length := by rw [← hnew, length_shapes]
  obtain ⟨υ', hat', hk⟩ := typed_dropAll hat (Level.covered_push.2 hL.covered) line new
    fun _ => by
      have := hL.pos
      rw [Level.push_height, hlen]
      omega
  rw [hlen, Level.drop_push] at hat'
  have ht' : t' = (t.withCurrent (dropAll line t.current new)).withScope old s.current.depth := by
    rw [Compile.endScope, ran_updateFunction] at hr
    have hdrop := dropScope_append line { t.current with depth := s.current.depth } new old
      hany hnone
    rw [dropAll_withDepth] at hdrop
    simp only [hdepth, Nat.add_sub_cancel, FunctionState.locals_withDepth, hlocals] at hr hdrop
    rw [hr, hdrop]
    rfl
  subst ht'
  have hsame : shapes old = [] ++ shapes s.current.locals := hold'
  have hg := (h.trans hk.grows).reframe hsame s.current.depth
  rw [List.append_nil, withScope_withScope, withScope_self] at hg
  exact ⟨υ', hat', hg⟩

end Scopes

/-! ## Loops -/

section Loops

variable {exact : Bool} {exit : Option Level} {debts : List (Nat × Level)}
variable {fresh : List (String × Option Nat)}
variable {s t t' : CompilerState} {τ υ : Typing} {L X : Level} {pos : Position} {u : Unit}

/-- Beginning a loop adds its record, with no jumps and the locals and `try` blocks around it. -/
theorem ran_beginLoop {ctx : Context} {target : Option Nat} :
    Ran (beginLoop ctx target) s u t ↔
      t = s.withLoops (⟨target, [], [], s.current.locals.length, ctx.tries.length⟩ ::
        s.current.loops) := ran_updateFunction

/-- Updating the loop changes the innermost record alone. -/
theorem ran_updateLoop {g : LoopRecord → LoopRecord} {l : LoopRecord} {ls : List LoopRecord}
    (hl : s.current.loops = l :: ls) :
    Ran (updateLoop g) s u t ↔ t = s.withLoops (g l :: ls) := by
  rw [updateLoop, ran_updateFunction, hl]
  rfl

/-- Debts to one level are paid by patching them one after another. -/
theorem Grows.patchAll (pre : List (Nat × Level)) {js : List Nat}
    (h : Grows exit (pre ++ js.map (·, X)) fresh s τ t υ) (hs : At exact s.chunk τ L)
    (hat : At exact t.chunk υ X) (hr : Ran (patchJumps js pos) t u t') :
    ∃ υ', At exact t'.chunk υ' X ∧ Grows exit pre fresh s τ t' υ' := by
  induction js generalizing t υ u with
  | nil =>
    obtain rfl := ran_forM_nil.1 hr
    rw [List.map_nil, List.append_nil] at h
    exact ⟨υ, hat, h⟩
  | cons j js ih =>
    obtain ⟨t₁, hrp, hrest⟩ := ran_forM_cons.1 hr
    obtain ⟨υ₁, hat₁, hg₁⟩ := h.patch pre hs hat (.refl _ _) hrp
    exact ih hg₁ hat₁ hrest

/-- Patching jumps keeps the records of loops. -/
theorem ran_patchJumps_loops {js : List Nat} (h : Ran (patchJumps js pos) t u t') :
    t'.current.loops = t.current.loops := by
  induction js generalizing t u with
  | nil =>
    obtain rfl := ran_forM_nil.1 h
    rfl
  | cons j js ih =>
    obtain ⟨t₁, hp, hrest⟩ := ran_forM_cons.1 h
    obtain ⟨c, -, rfl⟩ := ran_patchJump.1 hp
    have hl := ih hrest
    exact hl

/-- Patching does not depend on the loops. -/
theorem ran_patchJumps_withLoops {js : List Nat} (ls : List LoopRecord)
    (h : Ran (patchJumps js pos) t u t') :
    Ran (patchJumps js pos) (t.withLoops ls) u (t'.withLoops ls) := by
  induction js generalizing t u with
  | nil =>
    obtain rfl := ran_forM_nil.1 h
    exact ran_forM_nil.2 rfl
  | cons j js ih =>
    obtain ⟨t₁, hp, hrest⟩ := ran_forM_cons.1 h
    obtain ⟨c, hc, rfl⟩ := ran_patchJump.1 hp
    exact ran_forM_cons.2 ⟨_, ran_patchJump.2 ⟨c, hc, rfl⟩, ih hrest⟩

/-- What a run owes may be told in another way: recorded jumps become debts when the record changes
and the code does not. -/
theorem Owes.recast {bs cs bs' cs' : List Nat} {debts' : List (Nat × Level)} {exit' : Option Level}
    (h : Owes exit debts s τ t υ bs cs) {s' : CompilerState}
    (hperm : (bs' ++ cs' ++ debts'.map Prod.fst).Perm (bs ++ cs ++ debts.map Prod.fst))
    (hs : s'.size = s.size) (ht : t'.size = t.size)
    (hloops : t'.current.loops = addJumps bs' cs' s'.current.loops)
    (hempty : exit' = none ∨ s'.current.loops = [] → bs' ++ cs' = [])
    (htarget : ∀ l ls, s'.current.loops = l :: ls → l.continueTarget ≠ none → cs' = [])
    (hjump : ∀ j ∈ bs' ++ cs', υ.owed j = exit')
    (hdebt : ∀ e ∈ debts', υ.owed e.1 = some e.2) :
    Owes exit' debts' s' τ t' υ bs' cs' where
  loops := hloops
  nodup := hperm.nodup_iff.2 h.nodup
  within j hj := by
    have := h.within j (hperm.mem_iff.1 hj)
    omega
  empty := hempty
  targeted := htarget
  jump := hjump
  debt := hdebt
  rest j hj := h.rest j (mt hperm.mem_iff.2 hj)

/-- Code that records no jumps may as well stand in a loop that has just begun. -/
theorem Grows.underLoop (h : Grows none debts fresh s τ t υ) (exit : Option Level)
    (l : LoopRecord) :
    Grows exit debts fresh (s.withLoops (l :: s.current.loops)) τ
      (t.withLoops (l :: t.current.loops)) υ := by
  obtain ⟨bs, cs, ho⟩ := h.owes
  obtain ⟨rfl, rfl⟩ := List.append_eq_nil_iff.1 (ho.empty (.inl rfl))
  have hloops : t.current.loops = s.current.loops := ho.loops.trans (addJumps_nil _)
  rw [hloops]
  exact ⟨⟨h.size, h.level, h.depth, rfl, h.locals, h.enclosing⟩, [], [],
    ho.recast (.refl _) rfl rfl (addJumps_nil _).symm (fun _ => rfl) (fun _ _ _ _ => rfl) nofun
      ho.debt⟩

/-- Pending `continue` jumps are patched where their target is. -/
theorem Grows.patchContinues {l : LoopRecord} (hl : l.continuePatches = [])
    (h : Grows (some X) debts fresh (s.withLoops (l :: s.current.loops)) τ t υ)
    (hs : At exact s.chunk τ L) (hat : At exact t.chunk υ X)
    (hr : Ran (patchContinues pos) t u t') :
    ∃ υ', At exact t'.chunk υ' X ∧
      Grows (some X) debts fresh (s.withLoops (l :: s.current.loops)) τ t' υ' ∧
      ∀ l' ls, t'.current.loops = l' :: ls → l'.continuePatches = [] := by
  obtain ⟨bs, cs, ho⟩ := h.owes
  have hloops : t.current.loops = addJumps bs cs (l :: s.current.loops) := ho.loops
  simp only [Compile.patchContinues, ran_bind, ran_get] at hr
  obtain ⟨_, t, ⟨rfl, rfl⟩, hr⟩ := hr
  rw [hloops] at hr
  simp only [addJumps, hl, List.nil_append, ran_bind] at hr
  obtain ⟨_, t₁, hpatch, hupdate⟩ := hr
  have hloops₁ := (ran_patchJumps_loops hpatch).trans hloops
  obtain rfl := (ran_updateLoop hloops₁).1 hupdate
  -- forget the pending jumps first, then patch them as debts
  have hpatch' := ran_patchJumps_withLoops (addJumps bs [] (l :: s.current.loops)) hpatch
  have hdebts : Grows (some X) (debts ++ cs.map (·, X)) fresh
      (s.withLoops (l :: s.current.loops)) τ
      (t.withLoops (addJumps bs [] (l :: s.current.loops))) υ := by
    have hshapes := loopShapes_addJumps bs [] (l :: s.current.loops)
    refine ⟨⟨h.size, h.level, h.depth, hshapes, h.locals, h.enclosing⟩, bs, [],
      ho.recast ?_ rfl rfl rfl ?_ (fun _ _ _ _ => rfl) ?_ ?_⟩
    · refine List.perm_iff_count.2 fun j => ?_
      simp only [List.count_append, List.map_append, List.map_map, Function.comp_def, List.map_id',
        List.count_nil]
      omega
    · intro hnone
      rcases hnone with hnone | hnone
      · cases hnone
      · cases hnone
    · intro j hj
      rw [List.append_nil] at hj
      exact ho.jump j (List.mem_append_left _ hj)
    · intro e he
      rcases List.mem_append.1 he with he | he
      · exact ho.debt e he
      · obtain ⟨j, hj, rfl⟩ := List.mem_map.1 he
        exact ho.jump j (List.mem_append_right _ hj)
  obtain ⟨υ', hat', hg'⟩ := Grows.patchAll debts (s := s.withLoops (l :: s.current.loops)) hdebts hs
    hat hpatch'
  have hnil : addJumps bs [] (l :: s.current.loops) =
      { l with breakPatches := l.breakPatches ++ bs, continuePatches := [] } :: s.current.loops := by
    simp only [addJumps, hl, List.append_nil]
  rw [hnil] at hat' hg'
  refine ⟨υ', hat', hg', ?_⟩
  intro l' ls hl'
  obtain ⟨rfl, -⟩ := List.cons.inj hl'
  rfl

/-- At the end of a loop its `break` jumps are patched, and nothing of it remains. -/
theorem Grows.endLoop {l : LoopRecord} (hb : l.breakPatches = [])
    (h : Grows (some X) [] [] (s.withLoops (l :: s.current.loops)) τ t υ)
    (hc : ∀ l' ls, t.current.loops = l' :: ls → l'.continuePatches = [])
    (hs : At exact s.chunk τ L) (hat : At exact t.chunk υ X) (hr : Ran (endLoop pos) t u t') :
    ∃ υ', At exact t'.chunk υ' X ∧ KeepsScopes s τ t' υ' := by
  obtain ⟨bs, cs, ho⟩ := h.owes
  have hloops : t.current.loops = addJumps bs cs (l :: s.current.loops) := ho.loops
  obtain ⟨-, rfl⟩ := List.append_eq_nil_iff.1 (hc _ _ hloops)
  simp only [Compile.endLoop, ran_bind, ran_get] at hr
  obtain ⟨_, t, ⟨rfl, rfl⟩, hr⟩ := hr
  rw [hloops] at hr
  simp only [addJumps, hb, List.nil_append, ran_bind, ran_updateFunction] at hr
  obtain ⟨_, _, rfl, hpatch⟩ := hr
  have hg : Grows none ([] ++ bs.map (·, X)) [] s τ (t.withLoops s.current.loops) υ := by
    refine ⟨⟨h.size, h.level, h.depth, rfl, h.locals, h.enclosing⟩, [], [],
      ho.recast ?_ rfl rfl ?_ (fun _ => rfl) (fun _ _ _ _ => rfl)
        (fun _ hj => absurd hj List.not_mem_nil) ?_⟩
    · simp [Function.comp_def]
    · rw [addJumps_nil]
      rfl
    · intro e he
      obtain ⟨j, hj, rfl⟩ := List.mem_map.1 he
      exact ho.jump j (List.mem_append_left _ hj)
  obtain ⟨υ', hat', hg'⟩ := hg.patchAll [] hs hat hpatch
  exact ⟨υ', hat', hg'.keeps⟩

/-- A backward jump may be appended where the level is that of its target. Nothing falls through to
the next offset, so its level is free. -/
theorem typed_loop {start : Nat} (hat : At exact s.chunk τ L) (hc : L.Covered)
    (hpos : exact = true → 0 < L.height) (hle : start ≤ s.size)
    (hstart : L.Flows exact (τ.level start)) (L' : Level)
    (hr : Ran (emitLoop start pos) s u t) :
    ∃ τ', At exact t.chunk τ' L' ∧ KeepsScopes s τ t τ' := by
  obtain ⟨hd, rfl⟩ := ran_emitLoop.1 hr
  have hmod : (UInt16.ofNat (s.size - start + 1)).toNat = s.size - start + 1 :=
    toNat_word (Nat.lt_succ_of_le hd)
  have hsafe : (Op.loop (UInt16.ofNat (s.size - start + 1))).Safe exact L :=
    ⟨hpos, nofun, nofun, .inl hc⟩
  refine ⟨_, hat.append hsafe nofun none nofun ?_ pos.line, keepsScopes_append hat _ _⟩
  intro t' _ ht
  simp only [Op.jumpTarget?, Option.some.injEq, hmod] at ht
  have hts : t' = start := by
    change s.size + 1 - (s.size - start + 1) = t' at ht
    omega
  subst hts
  exact ⟨hle, hstart⟩

end Loops

end ScriptEngine.Compile
