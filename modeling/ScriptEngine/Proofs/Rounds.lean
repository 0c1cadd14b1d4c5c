import ScriptEngine.Proofs.Looping

/-!
# Code for `while` and `for`

The jumps that are left open while a loop is emitted are the one that leaves it when its condition
fails, those of `break`, and in a counting loop those of `continue`. All are patched before the loop
ends, so that the code of a loop follows its iteration whatever comes after it.
-/

namespace ScriptEngine.Compile

open Bytecode Source Reference

/-! ## Patching several jumps -/

section Patches

variable {s t t' : CompilerState} {pos : Position} {js : List Nat} {u : Unit}

/-- Patching jumps grows the code by nothing but their targets. -/
theorem ran_patchJumps (hr : Ran (patchJumps js pos) t u t') :
    t.chunk.Grown js t'.chunk ∧ t'.size = t.size := by
  induction js generalizing t u with
  | nil =>
    obtain rfl := ran_forM_nil.1 hr
    exact ⟨.refl _, rfl⟩
  | cons j js ih =>
    obtain ⟨r, hrj, hr⟩ := ran_forM_cons.1 hr
    obtain ⟨hg, hsize⟩ := ih hr
    have hgj : t.chunk.Grown [j] r.chunk := by
      obtain ⟨c, hc, rfl⟩ := ran_patchJump.1 hrj
      exact Chunk.grown_patchJump hc
    exact ⟨hgj.trans hg, hsize.trans (size_patchJump hrj)⟩

/-- Each of several patched jumps lands where the code ends. -/
theorem ran_patchJumps_code {op : UInt16 → Op} (hop : ∀ d d', (op d).retarget? d' = some (op d'))
    (hf : ∀ d, (op d).forwardDistance?.isSome = true) (hr : Ran (patchJumps js pos) t u t') {j : Nat}
    (hj : j ∈ js) {d₀ : UInt16} (hcode : t.chunk.code[j]? = some (op d₀)) :
    ∃ d : UInt16, j + 1 + d.toNat = t.size ∧ t'.chunk.code[j]? = some (op d) := by
  induction js generalizing t u d₀ with
  | nil => cases hj
  | cons i js ih =>
    obtain ⟨r, hri, hrs⟩ := ran_forM_cons.1 hr
    have hsize := size_patchJump hri
    by_cases hmem : j ∈ js
    · -- a jump that is patched again lands there all the same
      by_cases hij : j = i
      · subst hij
        obtain ⟨d, -, hcode'⟩ := ran_patchJump_code hri hcode (hf d₀)
        rw [hop] at hcode'
        rw [← hsize]
        exact ih hrs hmem hcode'
      · have hlt : j < t.size := (Array.getElem?_eq_some_iff.1 hcode).1
        obtain ⟨c, hc, rfl⟩ := ran_patchJump.1 hri
        have hkeep := (Chunk.grown_patchJump hc).code j hlt (by simpa using hij)
        rw [← hsize]
        exact ih hrs hmem (hkeep.trans hcode)
    · obtain rfl : j = i := by
        rcases List.mem_cons.1 hj with h | h
        · exact h
        · exact absurd h hmem
      obtain ⟨d, hd, hcode'⟩ := ran_patchJump_code hri hcode (hf d₀)
      rw [hop] at hcode'
      have hlt : j < r.size := (Array.getElem?_eq_some_iff.1 hcode').1
      exact ⟨d, hd, ((ran_patchJumps hrs).1.code j hlt hmem).trans hcode'⟩

/-- An optional jump is patched as a list of one or none is. -/
theorem ran_patchOption {out : Option Nat} :
    Ran (out.forM (patchJump · pos)) t u t' ↔ Ran (patchJumps out.toList pos) t u t' := by
  cases out with
  | none => exact ran_pure.trans ((and_iff_right rfl).trans ran_forM_nil.symm)
  | some j =>
    refine ⟨fun h => ran_forM_cons.2 ⟨t', h, ran_forM_nil.2 rfl⟩, fun h => ?_⟩
    obtain ⟨r, hr, h⟩ := ran_forM_cons.1 h
    obtain rfl := ran_forM_nil.1 h
    exact hr

/-- Patching jumps keeps the locals at the scopes. -/
theorem AtScopes.patchAll {pending : List String} {sh : List (List String)}
    (h : AtScopes pending sh t) (hr : Ran (patchJumps js pos) t u t') : AtScopes pending sh t' := by
  induction js generalizing t u with
  | nil =>
    obtain rfl := ran_forM_nil.1 hr
    exact h
  | cons j js ih =>
    obtain ⟨r, hrj, hr⟩ := ran_forM_cons.1 hr
    exact ih (h.patch hrj) hr

/-- The records of loops do not matter for the locals at the scopes. -/
theorem AtScopes.underLoops {pending : List String} {sh : List (List String)}
    (h : AtScopes pending sh t) (ls : List LoopRecord) : AtScopes pending sh (t.withLoops ls) :=
  ⟨h.locals, h.depth, h.alone, h.slots, h.pool, h.covered⟩

/-- At the end of a loop its record is dropped and its `break` jumps are patched. -/
theorem ran_endLoop {l : LoopRecord} {ls : List LoopRecord} (hl : t.current.loops = l :: ls) :
    Ran (endLoop pos) t u t' ↔ Ran (patchJumps l.breakPatches pos) (t.withLoops ls) u t' := by
  simp only [endLoop, ran_bind, ran_get]
  constructor
  · rintro ⟨_, t, ⟨rfl, rfl⟩, h⟩
    simp only [hl, ran_bind, ran_updateFunction] at h
    obtain ⟨_, _, rfl, h⟩ := h
    exact h
  · intro h
    refine ⟨t, t, ⟨rfl, rfl⟩, ?_⟩
    simp only [hl, ran_bind, ran_updateFunction]
    exact ⟨(), _, rfl, h⟩

/-- Where the rest of a counting loop begins, its `continue` jumps are patched and forgotten. -/
theorem ran_patchContinues {l : LoopRecord} {ls : List LoopRecord} (hl : t.current.loops = l :: ls) :
    Ran (patchContinues pos) t u t' ↔
      ∃ r, Ran (patchJumps l.continuePatches pos) t () r ∧
        t' = r.withLoops ({ l with continuePatches := [] } :: ls) := by
  simp only [patchContinues, ran_bind, ran_get]
  constructor
  · rintro ⟨_, t, ⟨rfl, rfl⟩, h⟩
    simp only [hl, ran_bind] at h
    obtain ⟨_, r, hr, hu⟩ := h
    exact ⟨r, hr, (ran_updateLoop ((ran_patchJumps_loops hr).trans hl)).1 hu⟩
  · rintro ⟨r, hr, rfl⟩
    refine ⟨t, t, ⟨rfl, rfl⟩, ?_⟩
    simp only [hl, ran_bind]
    exact ⟨(), r, hr, (ran_updateLoop ((ran_patchJumps_loops hr).trans hl)).2 rfl⟩

end Patches

/-! ## Conditions -/

section Heads

variable {sh : List (List String)} {s t : CompilerState} {ctx : Context} {line : Nat}

/-- The condition of a loop, with a jump out of the loop that is left open. Without a condition there
is nothing. -/
theorem codes_head (outer : List (List String)) (condition : Option Expr) (hcore : ∀ e ∈ condition, inCore e = true)
    (hs : AtScopes [] sh s) {out : Option Nat}
    (hr : Ran ((condition.map (compileExpr ctx)).mapM fun m => do
      m
      emitJump (.jumpIfFalse 0) line) s out t) :
    AtScopes [] sh t ∧ Emits s t [] [] ∧
      (∀ j ∈ out.toList, s.size ≤ j ∧ j < t.size ∧ t.chunk.code[j]? = some (.jumpIfFalse 0)) ∧
      ∀ ⦃c fuel x env⦄ ⦃exit : Nat⦄, Fixed c s t out.toList → LoopJumps c x outer s [] [] →
        env.shape = sh →
        (∀ j ∈ out.toList, ∃ d : UInt16, j + 1 + d.toNat = exit ∧
          c.code[j]? = some (.jumpIfFalse d)) →
        ∀ x', Follows c fuel x' condition.toList.length (env.place s.size []) sh
          (fun b env' => env'.place (if b then t.size else exit) [])
          (execCondition condition env) := by
  cases condition with
  | none =>
    obtain ⟨rfl, rfl⟩ := ran_pure.1 hr
    refine ⟨hs, .refl _, nofun, ?_⟩
    intro c fuel x env exit _ _ hshape _ x'
    exact follows_pure hshape (.refl _ _)
  | some e =>
    obtain ⟨j, hrj, rfl⟩ := ran_map.1 hr
    simp only [ran_bind, ran_emitJump] at hrj
    obtain ⟨_, r, hre, rfl, rfl⟩ := hrj
    obtain ⟨hst, he, hfollow⟩ := (codes_compileExpr outer sh [] ctx e (hcore e rfl) []).plain
      (plain_compileExpr ctx e (hcore e rfl)) (fun _ => calm_eval e) hs hre
    have hsize := size_emit r (.jumpIfFalse 0) line
    refine ⟨hst.emit _ _, he.emit _ _, ?_, ?_⟩
    · intro j hj
      obtain rfl := List.mem_singleton.1 hj
      exact ⟨he.size, by omega, code_emit r _ _⟩
    · intro c fuel x env exit hfix hlead hshape hout x'
      obtain ⟨d, hd, hcode⟩ := hout r.size List.mem_cons_self
      have hfix' : Fixed c s r [] := by
        refine hfix.part (r.chunk.grown_emit _ _) (Nat.le_refl _) nofun ?_
        intro j hj _ hlt
        obtain rfl := List.mem_singleton.1 hj
        exact absurd hlt (Nat.lt_irrefl _)
      have heval : Follows c fuel x' 0 _ sh _ (eval e env) := hfollow hfix' hlead hshape x'
      refine Follows.bind (m := 0) heval fun a env' hshape' => follows_pure hshape' ?_
      have hgo := arrives_one (k := env'.place r.size [a]) hcode
        (tests_jumpIfFalse.2.2 c env' r.size a [] d)
      have htarget : (if !a.isTruthy then r.size + 1 + d.toNat else r.size + 1) =
          if a.isTruthy then (r.withCurrent (r.current.emit (.jumpIfFalse 0) line)).size
            else exit := by
        rw [hd, hsize]
        cases a.isTruthy <;> rfl
      rw [htarget] at hgo
      exact hgo

end Heads

/-! ## Loops -/

section Loops

variable {outer sh : List (List String)} {ctx : Context} {pos : Position} {body : Gen Unit}
variable {f : Nat → Script Unit}

/-- What is recorded when a loop is entered. -/
def LoopRecord.entered (s : CompilerState) (target : Option Nat) : LoopRecord :=
  ⟨target, [], [], s.current.locals.length, 0⟩

/-- The jumps of a loop lead where they land. -/
theorem loopJumps_loop {c : Chunk} {s : CompilerState} {target : Option Nat} {exit next : Nat}
    {bs cs : List Nat} (hs : AtScopes [] sh s) (hb : ∀ j ∈ bs, LandsOn c j exit)
    (hc : ∀ j ∈ cs, LandsOn c j next) (htarget : ∀ t, target = some t → next = t ∧ t ≤ s.size)
    (ls : List LoopRecord) :
    LoopJumps c ⟨some exit, some next, sh⟩ sh (s.withLoops (.entered s target :: ls)) bs cs where
  broke j hj := ⟨exit, rfl, hb j hj⟩
  continued j hj := ⟨next, rfl, hc j hj⟩
  inside := List.suffix_refl _
  loop l ls' hl := by
    obtain ⟨rfl, -⟩ := List.cons.inj hl
    refine ⟨rfl, congrArg List.length hs.locals, fun t ht => ?_⟩
    obtain ⟨rfl, hle⟩ := htarget t ht
    exact ⟨rfl, hle⟩

/-- The end of a loop: the jump back, and the places where the jumps out of the loop land. -/
theorem closes_loop {s t : CompilerState} {start : Nat} {out : Option Nat} {l : LoopRecord}
    {ls : List LoopRecord} {u : Unit} (hs : AtScopes [] sh t) (hl : t.current.loops = l :: ls)
    (hout : ∀ j ∈ out.toList, t.chunk.code[j]? = some (.jumpIfFalse 0))
    (hb : ∀ j ∈ l.breakPatches, t.chunk.code[j]? = some (.jump 0))
    (hr : Ran (do
      emitLoop start pos
      out.forM (patchJump · pos)
      endLoop pos) t u s) :
    AtScopes [] sh s ∧ s.current.loops = ls ∧ t.chunk.Grown (out.toList ++ l.breakPatches) s.chunk ∧
      t.size - start + 1 ≤ Chunk.maxJump ∧
      s.chunk.code[t.size]? = some (.loop (UInt16.ofNat (t.size - start + 1))) ∧
      (∀ j ∈ out.toList, ∃ d : UInt16, j + 1 + d.toNat = s.size ∧
        s.chunk.code[j]? = some (.jumpIfFalse d)) ∧
      ∀ j ∈ l.breakPatches, LandsOn s.chunk j s.size := by
  simp only [ran_bind] at hr
  obtain ⟨_, t₁, hrl, _, t₂, hrp, hre⟩ := hr
  obtain ⟨hmax, rfl⟩ := ran_emitLoop.1 hrl
  replace hrp := ran_patchOption.1 hrp
  have hl₂ : t₂.current.loops = l :: ls := (ran_patchJumps_loops hrp).trans hl
  replace hre := (ran_endLoop hl₂).1 hre
  have hgrow := t.chunk.grown_emit (.loop (UInt16.ofNat (t.size - start + 1))) pos.line
  obtain ⟨hg₁, hsize₁⟩ := ran_patchJumps hrp
  obtain ⟨hg₂, hsize₂⟩ := ran_patchJumps hre
  replace hsize₂ : s.size = t₂.size := hsize₂
  have hsize := size_emit t (.loop (UInt16.ofNat (t.size - start + 1))) pos.line
  -- neither the jump out nor a `break` is the jump back, and none is the other
  have hkept : ∀ {j : Nat} {op : Op}, t.chunk.code[j]? = some op →
      (t.withCurrent (t.current.emit (.loop (UInt16.ofNat (t.size - start + 1)))
        pos.line)).chunk.code[j]? = some op := by
    intro j op hop
    have hlt := (Array.getElem?_eq_some_iff.1 hop).1
    exact (hgrow.code j hlt List.not_mem_nil).trans hop
  have hkept₁ : ∀ {j : Nat} {op : Op}, j ∉ out.toList →
      (t.withCurrent (t.current.emit (.loop (UInt16.ofNat (t.size - start + 1)))
        pos.line)).chunk.code[j]? = some op → t₂.chunk.code[j]? = some op := by
    intro j op hn hop
    have hlt := (Array.getElem?_eq_some_iff.1 hop).1
    exact (hg₁.code j hlt hn).trans hop
  have hkept₂ : ∀ {j : Nat} {op : Op}, j ∉ l.breakPatches → t₂.chunk.code[j]? = some op →
      s.chunk.code[j]? = some op := by
    intro j op hn hop
    have hlt := (Array.getElem?_eq_some_iff.1 hop).1
    exact (hg₂.code j hlt hn).trans hop
  have hback : t.size ∉ out.toList ∧ t.size ∉ l.breakPatches := by
    have hnone : t.chunk.code[t.size]? = none := Array.getElem?_eq_none (Nat.le_refl _)
    constructor
    · intro hmem
      exact absurd (hnone.symm.trans (hout _ hmem)) nofun
    · intro hmem
      exact absurd (hnone.symm.trans (hb _ hmem)) nofun
  have hapart : ∀ j ∈ l.breakPatches, j ∉ out.toList := fun j hj hmem =>
    absurd ((hb j hj).symm.trans (hout j hmem)) nofun
  refine ⟨(((hs.emit _ _).patchAll hrp).underLoops ls).patchAll hre, ran_patchJumps_loops hre, ?_,
    hmax, hkept₂ hback.2 (hkept₁ hback.1 (code_emit t _ _)), ?_, ?_⟩
  · exact hgrow.trans (hg₁.trans hg₂)
  · intro j hj
    obtain ⟨d, hd, hcode⟩ := ran_patchJumps_code (fun _ _ => rfl) (fun _ => rfl) hrp hj
      (hkept (hout j hj))
    exact ⟨d, by omega, hkept₂ (fun hmem => hapart j hmem hj) hcode⟩
  · intro j hj
    obtain ⟨d, hd, hcode⟩ := ran_patchJumps_code (fun _ _ => rfl) (fun _ => rfl) hre hj
      (hkept₁ (hapart j hj) (hkept (hb j hj)))
    exact ⟨d, hcode, hd.trans hsize₂.symm⟩

/-- Where the `continue` jumps of a counting loop land. -/
theorem lands_continues {t t' : CompilerState} {l : LoopRecord} {ls : List LoopRecord} {u : Unit}
    (hs : AtScopes [] sh t) (hl : t.current.loops = l :: ls)
    (hc : ∀ j ∈ l.continuePatches, t.chunk.code[j]? = some (.jump 0))
    (hr : Ran (patchContinues pos) t u t') :
    AtScopes [] sh t' ∧ t'.current.loops = { l with continuePatches := [] } :: ls ∧
      t'.size = t.size ∧ t.chunk.Grown l.continuePatches t'.chunk ∧
      ∀ j ∈ l.continuePatches, LandsOn t'.chunk j t'.size := by
  obtain ⟨r, hrj, rfl⟩ := (ran_patchContinues hl).1 hr
  obtain ⟨hgrown, hsize⟩ := ran_patchJumps hrj
  refine ⟨(hs.patchAll hrj).underLoops _, rfl, hsize, hgrown, fun j hj => ?_⟩
  obtain ⟨d, hd, hcode⟩ := ran_patchJumps_code (fun _ _ => rfl) (fun _ => rfl) hrj hj (hc j hj)
  exact ⟨d, hcode, hd.trans hsize.symm⟩

/-- The code of a `while` loop. -/
theorem codes_while {e : Expr} (hcore : inCore e = true) (htries : ctx.tries = [])
    (hf : ∀ fuel, Balanced (f fuel)) (hbody : Codes sh [] sh sh [] body f (fun _ => [])) :
    Codes outer [] sh sh [] (emitWhile ctx pos (compileExpr ctx e) body)
      (fun fuel => Script.catching .broke (Script.iterate (holds e) (f fuel) (pure ()) fuel))
      (fun _ => []) := by
  intro s s' hs hr
  simp only [emitWhile, ran_bind, ran_offset, ran_beginLoop, htries] at hr
  obtain ⟨_, s, ⟨rfl, rfl⟩, _, _, rfl, _, t₀, hrc, j, t₁, hrj, _, t₂, hrb, hr⟩ := hr
  have hs₀ : AtScopes [] sh (s.withLoops (.entered s (some s.size) :: s.current.loops)) :=
    hs.underLoops _
  obtain ⟨hst₁, he₁, hout, hcond⟩ := codes_head sh (some e) (fun _ h => Option.some.inj h ▸ hcore)
    hs₀ (ran_map.2 ⟨j, ran_bind.2 ⟨(), t₀, hrc, hrj⟩, rfl⟩)
  obtain ⟨hst₂, bs, cs, he₂, hrounds⟩ := hbody hst₁ hrb
  have hloops₁ := he₁.loops.trans (addJumps_nil _)
  obtain rfl : cs = [] := he₂.targeted _ _ hloops₁ nofun
  have hloops₂ : t₂.current.loops = { LoopRecord.entered s (some s.size) with
      breakPatches := [] ++ bs } :: s.current.loops := by
    rw [he₂.loops, hloops₁]
    rfl
  have hj : s.size ≤ j ∧ j < t₁.size ∧ t₁.chunk.code[j]? = some (.jumpIfFalse 0) :=
    hout j List.mem_cons_self
  have hexit : ∀ i ∈ (some j).toList, t₂.chunk.code[i]? = some (.jumpIfFalse 0) := by
    intro i hi
    obtain rfl := List.mem_singleton.1 hi
    exact (he₂.grown.code i hj.2.1 List.not_mem_nil).trans hj.2.2
  have hopen : ∀ i ∈ bs, t₁.size ≤ i ∧ t₂.chunk.code[i]? = some (.jump 0) :=
    fun i hi => he₂.jump i (List.mem_append_left _ hi)
  obtain ⟨hs', hloops, hgrown, hmax, hback, hleave, hbreak⟩ := closes_loop hst₂ hloops₂ hexit
    (fun i hi => (hopen i hi).2) (by simp only [ran_bind]; exact hr)
  have hsize : s.size ≤ t₁.size := he₁.size
  have hfresh : ∀ i ∈ [j] ++ bs, s.size ≤ i := by
    intro i hi
    rcases List.mem_append.1 hi with hi | hi
    · obtain rfl := List.mem_singleton.1 hi
      exact hj.1
    · exact Nat.le_trans hsize (hopen i hi).1
  have hall : s.chunk.Grown [] s'.chunk := by
    refine (he₁.grown.trans (he₂.grown.trans hgrown)).narrow ?_
    intro i hi hlt
    exact absurd hlt (Nat.not_lt.2 (hfresh i hi))
  refine ⟨hs', [], [], emits_of_grown hall hloops, ?_⟩
  intro c fuel x env hfix hlead hshape
  have hpart : t₁.chunk.Grown ([j] ++ bs) s'.chunk := he₂.grown.trans hgrown
  have hfix₁ : Fixed c (s.withLoops (.entered s (some s.size) :: s.current.loops)) t₁ [j] := by
    refine hfix.part hpart (Nat.le_refl _) ?_ nofun
    intro i hi _ hlt
    rcases List.mem_append.1 hi with hi | hi
    · exact hi
    · exact absurd (hopen i hi).1 (Nat.not_le.2 hlt)
  have hfix₂ : Fixed c t₁ t₂ (bs ++ []) := by
    refine hfix.part hgrown hsize ?_ nofun
    intro i hi hle _
    rcases List.mem_append.1 hi with hi | hi
    · obtain rfl := List.mem_singleton.1 hi
      exact absurd hle (Nat.not_le.2 hj.2.1)
    · exact List.mem_append_left _ hi
  have hlead₁ : LoopJumps c ⟨some s'.size, some s.size, sh⟩ sh
      (s.withLoops (.entered s (some s.size) :: s.current.loops)) ([] ++ bs) ([] ++ []) := by
    refine loopJumps_loop hs ?_ (fun _ hi => absurd hi List.not_mem_nil) ?_ _
    · intro i hi
      obtain ⟨d, hcode, hd⟩ := hbreak i hi
      exact ⟨d, hfix.code (hfresh i (List.mem_append_right _ hi)) hcode List.not_mem_nil, hd⟩
    · intro t ht
      cases ht
      exact ⟨rfl, Nat.le_refl _⟩
  obtain ⟨hlead₁, hlead₂⟩ := hlead₁.split he₁
  have hagain : ∀ env, Arrives c 1 (Env.place env t₂.size []) (env.place s.size []) :=
    loop_arrives (Nat.le_trans hsize he₂.size) hmax
      (hfix.code (Nat.le_trans hsize he₂.size) hback List.not_mem_nil)
  refine Follows.catchBreak ?_ hshape (follows_iterate t₁.size s.size (Nat.add_zero 1)
    (hf fuel) ?_ ?_ ?_ fuel (Nat.le_refl _) env hshape) x
  · exact (balanced_holds e).iterate (hf fuel) (balanced_pure _) fuel
  · intro env' hshape' x'
    refine hcond hfix₁ hlead₁ hshape' ?_ x'
    intro i hi
    obtain ⟨d, hd, hcode⟩ := hleave i hi
    exact ⟨d, hd, hfix.code (hfresh i (List.mem_append_left _ hi)) hcode List.not_mem_nil⟩
  · intro env' hshape'
    refine (hrounds hfix₂ hlead₂ hshape').goOn fun _ env'' _ => ?_
    exact (hagain env'').weaken (Nat.zero_le _)
  · exact fun env' hshape' x' => follows_pure hshape' (.refl _ _)

/-- A counting loop without its scope and without what initialises it. -/
def emitRounds (ctx : Context) (pos : Position) (condition step : Option (Gen Unit))
    (body : Gen Unit) : Gen Unit := do
  let start ← offset
  let exit ← condition.mapM fun condition => do
    condition
    emitJump (.jumpIfFalse 0) pos.line
  beginLoop ctx none
  body
  patchContinues pos
  step.forM fun step => do
    step
    emit .pop pos.line
  emitLoop start pos
  exit.forM (patchJump · pos)
  endLoop pos

/-- What a counting loop comes to: its rounds in a scope of its own. -/
theorem emitFor_eq (initial condition step : Option (Gen Unit)) :
    emitFor ctx pos initial condition step body =
      inScope pos.line (do
        initial.forM id
        emitRounds ctx pos condition step body) := by
  simp only [emitFor, inScope, emitRounds, bind_assoc]

/-- The value of an expression that is dropped. -/
theorem codes_dropped {e : Expr} (hcore : inCore e = true) (line : Nat) :
    Codes outer [] sh sh [] (do
      compileExpr ctx e
      emit .pop line) (fun _ => do
        let _ ← eval e
        pure ()) (fun _ => []) :=
  (codes_compileExpr outer sh [] ctx e hcore []).bind fun _ => codes_step fun _ _ _ _ => rfl

/-- What a loop does after each round. -/
theorem codes_after (outer : List (List String)) {step : Option Expr} (hcore : ∀ e ∈ step, inCore e = true) {line : Nat}
    {s t : CompilerState} (hs : AtScopes [] sh s)
    (hr : Ran ((step.map (compileExpr ctx)).forM fun m => do
      m
      emit .pop line) s () t) :
    AtScopes [] sh t ∧ Emits s t [] [] ∧
      ∀ ⦃c fuel x env⦄, Fixed c s t [] → LoopJumps c x outer s [] [] → env.shape = sh → ∀ x',
        Follows c fuel x' 0 (env.place s.size []) sh (fun _ env' => env'.place t.size [])
          (execStep step env) := by
  cases step with
  | none =>
    exact (codes_pure outer sh [] () fun _ => []).plain
      (fun _ _ _ h => congrArg (·.current.loops) (ran_pure.1 h).2) (fun _ => calm_pure ()) hs hr
  | some e =>
    exact (codes_dropped (hcore e rfl) line).plain
      ((plain_compileExpr ctx e (hcore e rfl)).bind fun _ => plain_emit _ _)
      (fun _ => (calm_eval e).bind fun _ => calm_pure ()) hs hr

/-- The code of a counting loop. -/
theorem codes_rounds {condition step : Option Expr} (hcond : ∀ e ∈ condition, inCore e = true)
    (hstep : ∀ e ∈ step, inCore e = true) (htries : ctx.tries = [])
    (hf : ∀ fuel, Balanced (f fuel)) (hbody : Codes sh [] sh sh [] body f (fun _ => [])) :
    Codes outer [] sh sh []
      (emitRounds ctx pos (condition.map (compileExpr ctx)) (step.map (compileExpr ctx)) body)
      (fun fuel => Script.catching .broke
        (Script.iterate (execCondition condition) (f fuel) (execStep step) fuel))
      (fun _ => []) := by
  intro s s' hs hr
  unfold emitRounds at hr
  simp only [ran_bind, ran_offset, ran_beginLoop, htries] at hr
  obtain ⟨_, s, ⟨rfl, rfl⟩, out, t₁, hrc, _, _, rfl, _, t₂, hrb, _, t₃, hrp, _, t₄, hra, hr⟩ := hr
  obtain ⟨hst₁, he₁, hout, hhead⟩ := codes_head outer condition hcond hs hrc
  have hs₁ : AtScopes [] sh (t₁.withLoops (.entered t₁ none :: t₁.current.loops)) :=
    hst₁.underLoops _
  obtain ⟨hst₂, bs, cs, he₂, hrounds⟩ := hbody hs₁ hrb
  have hloops₂ : t₂.current.loops = { LoopRecord.entered t₁ none with
      breakPatches := [] ++ bs, continuePatches := [] ++ cs } :: t₁.current.loops := by
    rw [he₂.loops]
    rfl
  have hopen : ∀ i ∈ bs ++ cs, t₁.size ≤ i ∧ t₂.chunk.code[i]? = some (.jump 0) := he₂.jump
  obtain ⟨hst₃, hloops₃, hsize₃, hg₃, hnext⟩ := lands_continues hst₂ hloops₂
    (fun i hi => (hopen i (List.mem_append_right _ hi)).2) hrp
  obtain ⟨hst₄, he₄, hafter⟩ := codes_after sh hstep hst₃ hra
  have hloops₄ := (he₄.loops.trans (addJumps_nil _)).trans hloops₃
  have hsize₁ : s.size ≤ t₁.size := he₁.size
  have hsize₂ : t₁.size ≤ t₂.size := he₂.size
  have hsize₄ : t₃.size ≤ t₄.size := he₄.size
  have hg₄ : t₂.chunk.Grown (cs ++ []) t₄.chunk := hg₃.trans he₄.grown
  rw [List.append_nil] at hg₄
  have hexit : ∀ i ∈ out.toList, t₄.chunk.code[i]? = some (.jumpIfFalse 0) := by
    intro i hi
    obtain ⟨-, hlt, hcode⟩ := hout i hi
    have hn : i ∉ cs := fun hmem =>
      absurd (hopen i (List.mem_append_right _ hmem)).1 (Nat.not_le.2 hlt)
    rw [hg₄.code i (Nat.lt_of_lt_of_le hlt hsize₂) hn]
    exact (he₂.grown.code i hlt List.not_mem_nil).trans hcode
  have hbreaks : ∀ i ∈ bs, t₄.chunk.code[i]? = some (.jump 0) := by
    intro i hi
    rw [hg₄.code i (he₂.lt_size (List.mem_append_left _ hi)) (he₂.apart i hi)]
    exact (hopen i (List.mem_append_left _ hi)).2
  obtain ⟨hs', hloops, hgrown, hmax, hback, hleave, hbreak⟩ := closes_loop hst₄ hloops₄ hexit
    hbreaks (by simp only [ran_bind]; exact hr)
  replace hgrown : t₄.chunk.Grown (out.toList ++ bs) s'.chunk := hgrown
  have hpart : t₂.chunk.Grown (cs ++ (out.toList ++ bs)) s'.chunk := hg₄.trans hgrown
  have hjump : ∀ i ∈ cs ++ (out.toList ++ bs), i ∈ out.toList ∨ i ∈ bs ++ cs := by
    intro i hi
    simp only [List.mem_append] at hi ⊢
    tauto
  have hfresh : ∀ i ∈ cs ++ (out.toList ++ bs), s.size ≤ i := by
    intro i hi
    rcases hjump i hi with hi | hi
    · exact (hout i hi).1
    · exact Nat.le_trans hsize₁ (hopen i hi).1
  have hall : s.chunk.Grown [] s'.chunk := by
    refine (he₁.grown.trans (he₂.grown.trans hpart)).narrow ?_
    intro i hi hlt
    exact absurd hlt (Nat.not_lt.2 (hfresh i hi))
  refine ⟨hs', [], [], emits_of_grown hall (hloops.trans (he₁.loops.trans (addJumps_nil _))), ?_⟩
  intro c fuel x env hfix hlead hshape
  have hfix₁ : Fixed c s t₁ out.toList := by
    refine hfix.part (he₂.grown.trans hpart) (Nat.le_refl _) ?_ nofun
    intro i hi _ hlt
    rcases hjump i hi with hi | hi
    · exact hi
    · exact absurd (hopen i hi).1 (Nat.not_le.2 hlt)
  have hfix₂ : Fixed c (t₁.withLoops (.entered t₁ none :: t₁.current.loops)) t₂ (bs ++ cs) := by
    refine hfix.part hpart hsize₁ ?_ nofun
    intro i hi hle _
    rcases hjump i hi with hi | hi
    · exact absurd hle (Nat.not_le.2 (hout i hi).2.1)
    · exact hi
  have hfix₃ : Fixed c s t₃ (out.toList ++ bs) :=
    hfix.part (he₄.grown.trans hgrown) (Nat.le_refl _) (fun _ hi _ _ => hi) nofun
  have hfix₄ : Fixed c t₃ t₄ [] := by
    refine hfix.part hgrown (by omega) ?_ nofun
    intro i hi hle _
    rcases hjump i (List.mem_append_right _ hi) with hi | hi
    · have := (hout i hi).2.1
      omega
    · have := he₂.lt_size hi
      omega
  have hlead₂ : LoopJumps c ⟨some s'.size, some t₃.size, sh⟩ sh
      (t₁.withLoops (.entered t₁ none :: t₁.current.loops)) (bs ++ []) (cs ++ []) := by
    rw [List.append_nil, List.append_nil]
    refine loopJumps_loop hst₁ ?_ ?_ ?_ _
    · intro i hi
      obtain ⟨d, hcode, hd⟩ := hbreak i hi
      have hle := hfresh i (List.mem_append_right _ (List.mem_append_right _ hi))
      exact ⟨d, hfix.code hle hcode List.not_mem_nil, hd⟩
    · intro i hi
      obtain ⟨d, hcode, hd⟩ := hnext i hi
      refine ⟨d, hfix₃.code (hfresh i (List.mem_append_left _ hi)) hcode fun hmem => ?_, hd⟩
      rcases List.mem_append.1 hmem with hmem | hmem
      · exact absurd (hopen i (List.mem_append_right _ hi)).1 (Nat.not_le.2 (hout i hmem).2.1)
      · exact he₂.apart i hmem hi
    · intro target htarget
      cases htarget
  obtain ⟨hlead₂, hlead₃⟩ := hlead₂.split he₂
  have hlead₄ : LoopJumps c ⟨some s'.size, some t₃.size, sh⟩ sh t₃ [] [] := by
    refine ⟨hlead₃.broke, hlead₃.continued, hlead₃.inside, fun l ls hl => ?_⟩
    obtain ⟨rfl, -⟩ := List.cons.inj (hloops₃.symm.trans hl)
    obtain ⟨hdepth, hcount, -⟩ := hlead₃.loop _ _ hloops₂
    exact ⟨hdepth, hcount, fun _ h => absurd h nofun⟩
  have hagain : ∀ env, Arrives c 1 (Env.place env t₄.size []) (env.place s.size []) :=
    loop_arrives (by omega) hmax (hfix.code (by omega) hback List.not_mem_nil)
  refine Follows.catchBreak ?_ hshape (follows_iterate t₁.size t₃.size (Nat.zero_add 1)
    (hf fuel) ?_ ?_ ?_ fuel (Nat.le_refl _) env hshape) x
  · exact (balanced_execCondition condition).iterate (hf fuel) (balanced_execStep step) fuel
  · intro env' hshape' x'
    refine (hhead hfix₁ hlead hshape' ?_ x').weaken (Nat.le_refl _) (Nat.zero_le _)
    intro i hi
    obtain ⟨d, hd, hcode⟩ := hleave i hi
    have hle := hfresh i (List.mem_append_right _ (List.mem_append_left _ hi))
    exact ⟨d, hd, hfix.code hle hcode List.not_mem_nil⟩
  · intro env' hshape'
    have hinner : Follows c fuel ⟨some s'.size, some t₃.size, sh⟩ 0 (env'.place t₁.size []) sh
        (fun _ env'' => env''.place t₂.size []) (f fuel env') := hrounds hfix₂ hlead₂ hshape'
    rwa [← hsize₃] at hinner
  · intro env' hshape' x'
    exact (hafter hfix₄ hlead₄ hshape' x').extend fun _ env'' _ => hagain env''

end Loops

end ScriptEngine.Compile
