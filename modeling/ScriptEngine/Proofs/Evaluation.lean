import ScriptEngine.Proofs.Variables

/-!
# Code for expressions

The code of an expression of the core follows its evaluation and leaves the value on the stack,
above whatever was there.
-/

namespace ScriptEngine.Compile

open Bytecode Source Reference

/-! ## Branches -/

section Branches

variable {outer sh : List (List String)} {pending : List String} {β : Type} {pre : List Datum}
variable {condition thenBranch : Gen Unit} {fc : Nat → Script Datum} {ft fe : Nat → Script β}
variable {post : β → List Datum} {s t t' : CompilerState}

/-- An instruction that pops a value and jumps if the value is one of those `taken`. -/
def Tests (op : UInt16 → Op) (taken : Datum → Bool) : Prop :=
  (∀ d, (op 0).retarget? d = some (op d)) ∧ (op 0).forwardDistance?.isSome = true ∧
    ∀ (c : Chunk) (env : Env) (pc : Nat) (a : Datum) (above : List Datum) (d : UInt16),
      perform c (env.place pc (a :: above)) (op d) =
        .next (env.place (if taken a then pc + 1 + d.toNat else pc + 1) above)

/-- `jumpIfFalse` jumps for values that are not truthy. -/
theorem tests_jumpIfFalse : Tests .jumpIfFalse (!·.isTruthy) := by
  refine ⟨fun _ => rfl, rfl, fun c env pc a above d => ?_⟩
  unfold perform
  cases h : a.isTruthy <;> simp [Env.place, Config.goOn, h]

/-- `jumpIfTrue` jumps for values that are. -/
theorem tests_jumpIfTrue : Tests .jumpIfTrue (·.isTruthy) := by
  refine ⟨fun _ => rfl, rfl, fun c env pc a above d => ?_⟩
  unfold perform
  cases h : a.isTruthy <;> simp [Env.place, Config.goOn, h]

/-- A value, a jump that is taken on some values, and the code for the others. The jump is left
open. -/
theorem guard_follows {op : UInt16 → Op} {taken : Datum → Bool} (hop : Tests op taken)
    {mid : Datum → List Datum} {ft : Datum → Nat → Script β} (fe : Datum → Nat → Script β)
    (hc : Codes outer pending sh sh pre condition fc (fun a => a :: mid a))
    (ht : ∀ a, Codes outer pending sh sh (mid a) thenBranch (ft a) post)
    (hs : AtScopes pending sh s) {line : Nat} (hrc : Ran condition s () t)
    (hrt : Ran thenBranch (t.withCurrent (t.current.emit (op 0) line)) () t') :
    AtScopes pending sh t' ∧ s.size ≤ t.size ∧ t'.chunk.code[t.size]? = some (op 0) ∧
      ∃ bs cs, Emits s t' bs cs ∧ t.size ∉ bs ++ cs ∧
        ∀ ⦃c fuel x env d⦄ ⦃done : β → Env → Config⦄, Fixed c s t' (t.size :: (bs ++ cs)) →
          LoopJumps c x outer s bs cs → env.shape = sh → c.code[t.size]? = some (op d) →
          (∀ b env', env'.shape = sh → Arrives c 0 (env'.place t'.size (post b)) (done b env')) →
          (∀ a env', env'.shape = sh → Follows c fuel x 0
            (env'.place (t.size + 1 + d.toNat) (mid a)) sh done (fe a fuel env')) →
          Follows c fuel x 0 (env.place s.size pre) sh done
            ((fc fuel >>= fun a => if taken a then fe a fuel else ft a fuel) env) := by
  obtain ⟨hst, bs, cs, hec, hfc⟩ := hc hs hrc
  have hej := hec.emit (op 0) line
  have hsize := size_emit t (op 0) line
  obtain ⟨hst', bs', cs', het, -⟩ := ht default (hst.emit _ line) hrt
  have hjump : t'.chunk.code[t.size]? = some (op 0) := by
    have hlt : t.size < (t.withCurrent (t.current.emit (op 0) line)).size := by omega
    rw [het.grown.code t.size hlt List.not_mem_nil]
    exact code_emit t _ line
  have hout : t.size ∉ (bs ++ bs') ++ (cs ++ cs') := by
    intro hmem
    rcases mem_opens.1 hmem with h | h
    · exact Nat.lt_irrefl _ (hec.lt_size h)
    · have := (het.jump _ h).1
      omega
  refine ⟨hst', hec.size, hjump, _, _, hej.trans het, hout, ?_⟩
  intro c fuel x env d done hfix hlead hshape hcode hdone helse
  obtain ⟨hlead₁, hlead₂⟩ := hlead.split hej
  have hopens : ∀ i ∈ t.size :: ((bs ++ bs') ++ (cs ++ cs')),
      i = t.size ∨ i ∈ bs ++ cs ∨ i ∈ bs' ++ cs' :=
    fun i hi => (List.mem_cons.1 hi).imp_right mem_opens.1
  -- the jump is behind the condition and before the guarded code
  have hfix₁ : Fixed c s t (bs ++ cs) := by
    refine hfix.part ((emits_emit t _ line).grown.trans het.grown) (Nat.le_refl _) nofun ?_
    intro j hj _ hlt
    rcases hopens j hj with rfl | h | h
    · exact absurd hlt (Nat.lt_irrefl _)
    · exact h
    · exact absurd (het.jump j h).1 (by omega)
  have hfix₂ : Fixed c (t.withCurrent (t.current.emit (op 0) line)) t' (bs' ++ cs') := by
    refine hfix.part (.refl _) hej.size nofun ?_
    intro j hj hle _
    rcases hopens j hj with rfl | h | h
    · omega
    · have := hec.lt_size h
      omega
    · exact h
  refine Follows.seq (hfc hfix₁ hlead₁ hshape) fun a env' hshape' => ?_
  have hgo := arrives_one (k := env'.place t.size (a :: mid a)) hcode (hop.2.2 c env' _ a _ d)
  by_cases ha : taken a
  · rw [if_pos ha] at hgo ⊢
    exact ((helse a env' hshape').after hgo).weaken (Nat.le_add_right _ _) (Nat.zero_le _)
  · rw [if_neg ha] at hgo ⊢
    obtain ⟨-, bs'', cs'', het', hft⟩ := ht a (hst.emit _ line) hrt
    obtain ⟨rfl, rfl⟩ := het.unique het'
    have hfollow : Follows c fuel x 0 _ sh _ (ft a fuel env') := hft hfix₂ hlead₂ hshape'
    rw [hsize] at hfollow
    exact ((hfollow.goOn hdone).after hgo).weaken (Nat.le_add_right _ _) (Nat.zero_le _)

/-- A value, a jump that is taken on some values, and the code for the others, which the jump
skips. -/
theorem codes_skip {op : UInt16 → Op} {taken : Datum → Bool} (hop : Tests op taken)
    {mid : Datum → List Datum} {ft : Datum → Nat → Script β} (pos : Position) (skipped : Datum → β)
    (hc : Codes outer pending sh sh pre condition fc (fun a => a :: mid a))
    (ht : ∀ a, Codes outer pending sh sh (mid a) thenBranch (ft a) post)
    (hpost : ∀ a, post (skipped a) = mid a) :
    Codes outer pending sh sh pre
      (do
        condition
        let jump ← emitJump (op 0) pos.line
        thenBranch
        patchJump jump pos)
      (fun fuel => fc fuel >>= fun a => if taken a then pure (skipped a) else ft a fuel) post := by
  intro s s' hs hr
  simp only [ran_bind, ran_emitJump] at hr
  obtain ⟨_, t, hrc, j, _, ⟨rfl, rfl⟩, _, t', hrt, hr⟩ := hr
  obtain ⟨hst, hle, hjump, bs, cs, he, hn, hfollow⟩ :=
    guard_follows hop (fun a _ => pure (skipped a)) hc ht hs hrc hrt
  obtain ⟨he', hg⟩ := he.patch hr hle hn
  refine ⟨hst.patch hr, bs, cs, he', ?_⟩
  intro c fuel x env hfix hlead hshape
  obtain ⟨d, hd, hcode⟩ := hfix.patched hr hle hjump hop.2.1 hn
  rw [hop.1 d] at hcode
  refine hfollow ?_ hlead hshape hcode ?_ ?_
  · refine hfix.part hg (Nat.le_refl _) ?_ ?_
    · intro i hi _ _
      obtain rfl := List.mem_singleton.1 hi
      exact List.mem_cons_self
    · exact fun i hi _ _ => List.mem_cons_of_mem _ hi
  · intro _ env' _
    rw [size_patchJump hr]
    exact .refl _ _
  · intro a env' hshape'
    refine follows_pure hshape' ?_
    rw [hd, size_patchJump hr, hpost]
    exact .refl _ _

/-- A branch without an alternative. -/
theorem codes_branch_none {ft : Nat → Script Unit} {pos : Position}
    (hc : Codes outer pending sh sh pre condition fc (fun d => d :: pre))
    (ht : Codes outer pending sh sh pre thenBranch ft (fun _ => pre)) :
    Codes outer pending sh sh pre (emitBranch pos condition thenBranch none)
      (fun fuel => fc fuel >>= fun a => if a.isTruthy then ft fuel else pure ())
      (fun _ => pre) := by
  refine (codes_skip tests_jumpIfFalse pos (fun _ => ()) hc (fun _ => ht) fun _ => rfl).congr
    fun fuel => ?_
  congr 1
  funext a
  cases a.isTruthy <;> rfl

/-- A branch with an alternative. -/
theorem codes_branch {other : Gen Unit} {pos : Position}
    (hc : Codes outer pending sh sh pre condition fc (fun d => d :: pre))
    (ht : Codes outer pending sh sh pre thenBranch ft post)
    (he : Codes outer pending sh sh pre other fe post) :
    Codes outer pending sh sh pre (emitBranch pos condition thenBranch (some other))
      (fun fuel => fc fuel >>= fun a => if a.isTruthy then ft fuel else fe fuel) post := by
  suffices h : Codes outer pending sh sh pre (emitBranch pos condition thenBranch (some other))
      (fun fuel => fc fuel >>= fun a => if !a.isTruthy then fe fuel else ft fuel) post by
    refine h.congr fun fuel => ?_
    congr 1
    funext a
    cases a.isTruthy <;> rfl
  intro s s' hs hr
  simp only [emitBranch, ran_bind, ran_emitJump] at hr
  obtain ⟨_, t, hrc, j, _, ⟨rfl, rfl⟩, _, t', hrt, k, _, ⟨rfl, rfl⟩, _, r, hrp, _, r', hre, hr⟩ := hr
  obtain ⟨hst, hle, hjump, bs, cs, hem, hn, hfollow⟩ := guard_follows tests_jumpIfFalse (fun _ => fe) hc (fun _ => ht) hs hrc hrt
  have hstu := hst.emit (.jump 0) pos.line
  have hsize := size_emit t' (.jump 0) pos.line
  have hsize₂ := size_patchJump hrp
  have hlt : t.size < t'.size := (Array.getElem?_eq_some_iff.1 hjump).1
  obtain ⟨hemr, hgr⟩ := (hem.emit (.jump 0) pos.line).patch hrp hle hn
  obtain ⟨hstr', bs', cs', heo, hfo⟩ := he (hstu.patch hrp) hre
  have hemr' := hemr.trans heo
  have hn' : t'.size ∉ (bs ++ bs') ++ (cs ++ cs') := by
    intro hmem
    rcases mem_opens.1 hmem with h | h
    · exact Nat.lt_irrefl _ (hem.lt_size h)
    · have := (heo.jump _ h).1
      omega
  obtain ⟨hems, hgs⟩ := hemr'.patch hr hem.size hn'
  refine ⟨hstr'.patch hr, _, _, hems, ?_⟩
  intro c fuel x env hfix hlead hshape
  obtain ⟨hlead₁, hlead₂⟩ := hlead.split hemr
  -- the jump over the alternative, then the jump to it
  have hend : r'.chunk.code[t'.size]? = some (.jump 0) := by
    have hlt' : t'.size < r.size := by omega
    have hne : t'.size ∉ [t.size] := fun h => absurd (List.mem_singleton.1 h) (by omega)
    rw [heo.grown.code _ hlt' List.not_mem_nil, hgr.code _ (by rw [← CompilerState.size]; omega) hne]
    exact code_emit t' _ _
  obtain ⟨d₂, hd₂, hcode₂⟩ := hfix.patched hr hem.size hend rfl hn'
  have hfixr' : Fixed c s r' (t'.size :: ((bs ++ bs') ++ (cs ++ cs'))) := by
    refine hfix.part hgs (Nat.le_refl _) ?_ fun i hi _ _ => List.mem_cons_of_mem _ hi
    intro i hi _ _
    obtain rfl := List.mem_singleton.1 hi
    exact List.mem_cons_self
  have hopens : ∀ i ∈ t'.size :: ((bs ++ bs') ++ (cs ++ cs')),
      i = t'.size ∨ i ∈ bs ++ cs ∨ i ∈ bs' ++ cs' :=
    fun i hi => (List.mem_cons.1 hi).imp_right mem_opens.1
  have hfixr : Fixed c s r (t'.size :: (bs ++ cs)) := by
    refine hfixr'.part heo.grown (Nat.le_refl _) (fun _ hi => absurd hi List.not_mem_nil)
      fun i hi _ hlt => ?_
    rcases hopens i hi with rfl | h | h
    · exact List.mem_cons_self
    · exact List.mem_cons_of_mem _ h
    · exact absurd (heo.jump i h).1 (Nat.not_le.2 hlt)
  have hfixo : Fixed c r r' (bs' ++ cs') := by
    refine hfixr'.part (.refl _) hemr.size (fun _ hi => absurd hi List.not_mem_nil)
      fun i hi hle _ => ?_
    rcases hopens i hi with rfl | h | h
    · omega
    · have := hem.lt_size h
      omega
    · exact h
  have hjif : (t'.withCurrent (t'.current.emit (.jump 0) pos.line)).chunk.code[t.size]? =
      some (.jumpIfFalse 0) :=
    ((t'.chunk.grown_emit (.jump 0) pos.line).code _ hlt List.not_mem_nil).trans hjump
  obtain ⟨d₁, hd₁, hcode₁⟩ := hfixr.patched hrp hle hjif rfl (by
    intro hmem
    rcases List.mem_cons.1 hmem with h | h
    · omega
    · exact hn h)
  have hfixt' : Fixed c s t' (t.size :: (bs ++ cs)) := by
    refine hfixr.part ((t'.chunk.grown_emit (.jump 0) pos.line).trans hgr) (Nat.le_refl _) ?_ ?_
    · intro i hi _ _
      obtain rfl := List.mem_singleton.1 hi
      exact List.mem_cons_self
    · intro i hi _ hlt
      rcases List.mem_cons.1 hi with rfl | h
      · exact absurd hlt (Nat.lt_irrefl _)
      · exact List.mem_cons_of_mem _ h
  have hsize₃ := size_patchJump hr
  refine hfollow hfixt' hlead₁ hshape hcode₁ ?_ ?_
  · intro b env' _
    have hgo : perform c (env'.place t'.size (post b)) (.jump d₂) =
        .next (env'.place (t'.size + 1 + d₂.toNat) (post b)) := rfl
    rw [hd₂, ← hsize₃] at hgo
    exact (arrives_one hcode₂ hgo).weaken (Nat.zero_le _)
  · intro _ env' hshape'
    have hfollow' : Follows c fuel x 0 _ sh _ (fe fuel env') := hfo hfixo hlead₂ hshape'
    rw [hd₁, ← hsize₂, hsize₃]
    exact hfollow'

end Branches

/-! ## Operators -/

section Operators

variable {outer sh : List (List String)} {pending : List String}

/-- The instruction of a binary operator applies it to the two values on top, or refuses. -/
theorem perform_binary {o : Op} {op : BinaryOp} (h : binaryOf? o = some op) (c : Chunk) (env : Env)
    (pc : Nat) (a b : Datum) (above : List Datum) :
    perform c (env.place pc (b :: a :: above)) o =
      .orRefuse ((applyBinary op a b).map fun d => env.place (pc + 1) (d :: above)) .type := by
  unfold perform
  cases hd : applyBinary op a b <;> cases o <;> cases h <;>
    simp [Config.operate, Env.place, binaryOf?, hd, Move.orRefuse, Config.goOn]

/-- The instruction of a unary operator applies it to the value on top, or refuses. -/
theorem perform_unary {o : Op} {op : UnaryOp} (h : unaryOf? o = some op) (c : Chunk) (env : Env)
    (pc : Nat) (a : Datum) (above : List Datum) :
    perform c (env.place pc (a :: above)) o =
      .orRefuse ((applyUnary op a).map fun d => env.place (pc + 1) (d :: above)) .type := by
  unfold perform
  cases hd : applyUnary op a <;> cases o <;> cases h <;>
    simp [Config.operate, Env.place, binaryOf?, unaryOf?, hd, Move.orRefuse, Config.goOn]

/-- The instructions of a binary operator compute it. -/
theorem codes_emitBinary {op : BinaryOp} (hop : isCoreBinary op = true) (pos : Position)
    (a b : Datum) (above : List Datum) :
    Codes outer pending sh sh (b :: a :: above) (emitBinary op pos.line)
      (fun _ => Script.require (applyBinary op a b) .type pos) (fun d => d :: above) := by
  -- all but one operator are one instruction
  have one : ∀ o, binaryOps op = [o] → binaryOf? o = some op →
      Codes outer pending sh sh (b :: a :: above) (emitBinary op pos.line)
        (fun _ => Script.require (applyBinary op a b) .type pos) (fun d => d :: above) := by
    intro o ho h s s' hs hr
    unfold emitBinary at hr
    rw [ho] at hr
    obtain ⟨t, hre, hr⟩ := ran_forM_cons.1 hr
    obtain rfl := ran_forM_nil.1 hr
    exact codes_require (fun c env pc => perform_binary h c env pc a b above) hs hre
  cases op with
  | notEqual =>
    intro s s' hs hr
    obtain ⟨t, hre, hr⟩ := ran_forM_cons.1 hr
    obtain ⟨t', hrn, hr⟩ := ran_forM_cons.1 hr
    obtain rfl := ran_forM_nil.1 hr
    have hcodes : Codes outer pending sh sh (b :: a :: above)
        (emit .equal pos.line >>= fun _ => emit .not pos.line)
        (fun _ => (Script.require (applyBinary .equal a b) .type pos : Script Datum) >>=
          fun d => Script.require (applyUnary .not d) .type pos) (fun d => d :: above) :=
      .bind (codes_require fun c env pc => perform_binary rfl c env pc a b above) fun d =>
        codes_require fun c env pc => perform_unary rfl c env pc d above
    refine hcodes.congr (fun _ => ?_) hs (ran_bind.2 ⟨(), t, hre, hrn⟩)
    simp only [applyBinary]
    cases a.same b <;> rfl
  | add => exact one .add rfl rfl
  | subtract => exact one .subtract rfl rfl
  | multiply => exact one .multiply rfl rfl
  | divide => exact one .divide rfl rfl
  | equal => exact one .equal rfl rfl
  | less => exact one .less rfl rfl
  | lessEqual => exact one .lessEqual rfl rfl
  | greater => exact one .greater rfl rfl
  | greaterEqual => exact one .greaterEqual rfl rfl
  | modulo => cases hop
  | power => cases hop
  | is => cases hop
  | bitAnd => cases hop
  | bitOr => cases hop
  | xor => cases hop
  | shiftLeft => cases hop
  | shiftRight => cases hop

/-- The code of a unary operator applies it to the value on top, or raises at its position. -/
theorem codes_emitUnary {op : UnaryOp} (hop : isCoreUnary op = true) (pos : Position) (a : Datum)
    (above : List Datum) :
    Codes outer pending sh sh (a :: above) (emitUnary op pos)
      (fun _ => Script.require (applyUnary op a) .type pos) (fun d => d :: above) := by
  cases op with
  | negate => exact codes_require fun c env pc => perform_unary rfl c env pc a above
  | not => exact codes_require fun c env pc => perform_unary rfl c env pc a above
  | bitNot => cases hop
  | length => cases hop
  | stringify => cases hop

/-- A short-circuit operator keeps the left value where the jump is taken, and otherwise the right
value takes its place. -/
theorem codes_shortCircuit {op : UInt16 → Op} {taken : Datum → Bool} (hop : Tests op taken)
    {left right : Gen Unit} {fl fr : Script Datum} {above : List Datum} (pos : Position)
    (hl : Codes outer pending sh sh above left (fun _ => fl) (fun d => d :: above))
    (hr : Codes outer pending sh sh above right (fun _ => fr) (fun d => d :: above)) :
    Codes outer pending sh sh above
      (do
        left
        emit .dup pos.line
        let jump ← emitJump (op 0) pos.line
        emit .pop pos.line
        right
        patchJump jump pos)
      (fun _ => fl >>= fun a => if taken a then pure a else fr) (fun d => d :: above) := by
  have hdup : ∀ a, Codes outer pending sh sh (a :: above) (emit .dup pos.line) (fun _ => pure a)
      (fun d => d :: d :: above) := fun a => codes_step fun _ _ _ _ => rfl
  have hpop : ∀ a, Codes outer pending sh sh (a :: above) (emit .pop pos.line) (fun _ => pure ())
      (fun _ => above) := fun a => codes_step fun _ _ _ _ => rfl
  intro s s' hs hrun
  simp only [ran_bind] at hrun
  obtain ⟨_, t₁, hrl, _, t₂, hrd, j, t₃, hrj, _, t₄, hrp, _, t₅, hrr, hpatch⟩ := hrun
  refine ((codes_skip hop pos id (hl.bind hdup) (fun a => (hpop a).bind fun _ => hr)
    fun _ => rfl).congr fun _ => ?_) hs ?_
  · simp
  · simp only [ran_bind]
    exact ⟨(), t₂, ⟨(), t₁, hrl, hrd⟩, j, t₃, hrj, (), t₅, ⟨(), t₄, hrp, hrr⟩, hpatch⟩

end Operators

/-! ## Expressions -/

section Expressions

variable (outer sh : List (List String)) (pending : List String) (ctx : Context)

/-- The code of an expression follows its evaluation. -/
theorem codes_compileExpr : ∀ (e : Expr), inCore e = true → ∀ above,
    Codes outer pending sh sh above (compileExpr ctx e) (fun _ => eval e) (fun d => d :: above)
  | .number pos n, _, above => codes_number pos n above
  | .bool pos b, _, above => by
    cases b <;> exact codes_step fun _ _ _ _ => rfl
  | .null pos, _, above => codes_step fun _ _ _ _ => rfl
  | .ident pos name, h, above => codes_getVariable h pos above
  | .binary pos op l r, h, above => by
    simp only [inCore, Bool.and_eq_true] at h
    rw [compileExpr]
    simp only [eval]
    refine (codes_compileExpr l h.1.2 above).bind fun a => ?_
    refine (codes_compileExpr r h.2 (a :: above)).bind fun b => ?_
    exact codes_emitBinary h.1.1 pos a b above
  | .unary pos op e, h, above => by
    simp only [inCore, Bool.and_eq_true] at h
    rw [compileExpr]
    simp only [eval]
    refine (codes_compileExpr e h.2 above).bind fun a => ?_
    exact codes_emitUnary h.1 pos a above
  | .conj pos l r, h, above => by
    simp only [inCore, Bool.and_eq_true] at h
    rw [compileExpr]
    refine (codes_shortCircuit tests_jumpIfFalse pos (codes_compileExpr l h.1 above)
      (codes_compileExpr r h.2 above)).congr fun _ => ?_
    rw [eval]
    congr 1
    funext a
    cases a.isTruthy <;> rfl
  | .disj pos l r, h, above => by
    simp only [inCore, Bool.and_eq_true] at h
    rw [compileExpr]
    refine (codes_shortCircuit tests_jumpIfTrue pos (codes_compileExpr l h.1 above)
      (codes_compileExpr r h.2 above)).congr fun _ => ?_
    rw [eval]
  | .conditional pos c t e, h, above => by
    simp only [inCore, Bool.and_eq_true] at h
    rw [compileExpr]
    simp only [eval]
    exact codes_branch (codes_compileExpr c h.1.1 above) (codes_compileExpr t h.1.2 above)
      (codes_compileExpr e h.2 above)
  | .assign _ (.ident pos name) value, h, above => by
    simp only [inCore, Bool.and_eq_true] at h
    rw [compileExpr]
    simp only [eval]
    refine (codes_compileExpr value h.2 above).bind fun d => ?_
    exact (codes_setVariable h.1 pos d above).map (fun _ => d) fun _ => rfl
  | .compound _ op (.ident pos name) value, h, above => by
    simp only [inCore, Bool.and_eq_true] at h
    rw [compileExpr]
    simp only [eval]
    refine (codes_getVariable h.1.2 pos above).bind fun a => ?_
    refine (codes_compileExpr value h.2 (a :: above)).bind fun b => ?_
    refine (codes_emitBinary h.1.1 pos a b above).bind fun d => ?_
    exact (codes_setVariable h.1.2 pos d above).map (fun _ => d) fun _ => rfl

end Expressions

end ScriptEngine.Compile
