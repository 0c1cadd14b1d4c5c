import ScriptEngine.Proofs.Handlers

/-!
# Code of functions and classes

A function is compiled in a state of its own. Its parameters are its first locals, so its code starts
at the height a call makes, and it ends with a `return`, so control never runs off its end. What the
enclosing function sees of it is one more constant and one more value on the stack.
-/

namespace ScriptEngine.Compile

open Bytecode Source

/-! ## Parameters -/

section Parameters

variable {exact : Bool} {exit : Option Level} {s s' : CompilerState} {τ : Typing} {L : Level}
variable {pos : Position} {u : Unit}

/-- A run that does nothing but make some locals usable in the current scope. -/
def Defines (n : Nat) (s s' : CompilerState) : Prop :=
  ∃ ls, s' = s.withScope (ls ++ s.current.locals) s.current.depth ∧ ls.length = n ∧
    DeclaredAt s.current.depth (shapes ls)

theorem Defines.refl (s : CompilerState) : Defines 0 s s :=
  ⟨[], (withScope_self s).symm, rfl, nofun⟩

/-- Runs that define locals define as many as both together. -/
theorem Defines.trans {m n : Nat} {t : CompilerState} (a : Defines m s t) (b : Defines n t s') :
    Defines (n + m) s s' := by
  obtain ⟨ls, rfl, hm, hd⟩ := a
  obtain ⟨ls', rfl, hn, hd'⟩ := b
  refine ⟨ls' ++ ls, ?_, ?_, ?_⟩
  · rw [List.append_assoc]
    rfl
  · rw [List.length_append, hn, hm]
  · rw [shapes_append]
    exact hd'.append hd

/-- Defining a local defines one. -/
theorem defines_one {name : String} (h : Ran (defineLocal name pos) s u s') : Defines 1 s s' := by
  refine ⟨[⟨name, some s.current.depth, false⟩], ran_define h, rfl, ?_⟩
  intro x hx
  obtain rfl := List.mem_singleton.1 hx
  rfl

/-- Defining a list of locals defines that many. -/
theorem defines_all {names : List String} (h : Ran (names.forM (defineLocal · pos)) s u s') :
    Defines names.length s s' := by
  induction names generalizing s u with
  | nil =>
    obtain rfl := ran_forM_nil.1 h
    exact .refl _
  | cons name names ih =>
    obtain ⟨t, hone, hrest⟩ := ran_forM_cons.1 h
    exact (defines_one hone).trans (ih hrest)

/-- Parameters are as many locals. -/
theorem defines_parameters {params : List Parameter} {i : Nat}
    (h : Ran (defineParameters pos i params) s u s') : Defines params.length s s' := by
  induction params generalizing s u i with
  | nil =>
    obtain ⟨-, rfl⟩ := ran_pure.1 h
    exact .refl _
  | cons p params ih =>
    simp only [defineParameters, ran_bind] at h
    obtain ⟨_, t, hone, hrest⟩ := h
    exact (defines_one hone).trans (ih hrest)

/-- A parameter for further arguments is one more local, if there is one. -/
theorem defines_vararg {vararg : Option String}
    (h : Ran (vararg.forM (defineLocal · pos)) s u s') : Defines vararg.isSome.toNat s s' := by
  cases vararg with
  | none =>
    obtain ⟨-, rfl⟩ := ran_pure.1 h
    exact .refl _
  | some name => exact defines_one h

/-- Values on the stack become locals. -/
theorem Defines.grows {n : Nat} (h : Defines n s s') (exit : Option Level) (τ : Typing) :
    s'.chunk = s.chunk ∧ ∃ fresh, fresh.length = n ∧ DeclaredAt s.current.depth fresh ∧
      Grows exit [] fresh s τ s' τ := by
  obtain ⟨ls, rfl, hn, hd⟩ := h
  refine ⟨rfl, shapes ls, ?_, hd, grows_locals (shapes_append _ _)⟩
  rw [length_shapes, hn]

/-- Parameters are unpacked into locals above them. -/
theorem grows_unpackParameters {params : List Parameter} {i : Nat} (exit : Option Level)
    (hp : Placed exact s τ L) (hi : i + params.length < L.height)
    (hr : Ran (unpackParameters pos i params) s u s') :
    ∃ τ' fresh, At exact s'.chunk τ' (L.push fresh.length) ∧ Grows exit [] fresh s τ s' τ' ∧
      DeclaredAt s.current.depth fresh := by
  induction params generalizing s τ L i u with
  | nil =>
    obtain ⟨-, rfl⟩ := ran_pure.1 hr
    exact ⟨τ, [], hp.typed, (KeepsScopes.refl _ _).grows, nofun⟩
  | cons p params ih =>
    simp only [unpackParameters] at hr
    have hlen : i + 1 + params.length < L.height := by
      rw [List.length_cons] at hi
      omega
    cases hempty : p.pattern.isEmpty with
    | true =>
      simp only [hempty, Bool.not_true, Bool.false_eq_true, if_false] at hr
      exact ih hp hlen hr
    | false =>
      simp only [hempty, Bool.not_false, if_true] at hr
      split at hr
      · obtain ⟨_, _, hfail, -⟩ := ran_bind.1 hr
        exact absurd hfail ran_fail
      · next hmax =>
        simp only [ran_bind, ran_emit] at hr
        obtain ⟨_, _, rfl, _, _, rfl, _, t₃, hdef, hrest⟩ := hr
        obtain ⟨υ₁, hat₁, hk₁⟩ := typed_getLocal hp.typed hp.ready
          (toNat_slot_lt (n := i + 1) (by omega)) pos.line
        have heffect : (Op.unpack (UInt8.ofNat p.pattern.length)).effect =
            (1, p.pattern.length) := by
          rw [Op.effect, toNat_arguments hmax]
        obtain ⟨υ₂, hat₂, hk₂⟩ := typed_plain _ hat₁ hp.ready pos.line rfl heffect
        have hk := hk₁.trans hk₂
        obtain ⟨hchunk, fresh, hn, hdecl, hg⟩ := (defines_all hdef).grows exit υ₂
        rw [hk.depth] at hdecl
        have hg := hk.trans_grows hg
        have hat₃ : At exact t₃.chunk υ₂ (L.push fresh.length) := by
          rw [hchunk, hn]
          exact hat₂
        have hp₃ := hp.extends hg.toExtends hat₃ (hp.ready.push _) rfl hdecl
        obtain ⟨τ', fresh', hat', hg', hdecl'⟩ := ih hp₃ (Nat.lt_add_right _ hlen) hrest
        rw [hg.depth] at hdecl'
        rw [Level.push_push, Nat.add_comm, ← List.length_append] at hat'
        exact ⟨τ', fresh' ++ fresh, hat', hg.trans hg', hdecl'.append hdecl⟩

end Parameters

/-! ## Functions -/

section Functions

variable {exact : Bool} {s s' : CompilerState} {τ : Typing} {L : Level} {ctx : Context}
variable {sig : Signature} {body : Context → Gen Unit} {u : Unit}

/-- The parameters of a function. -/
def emitParameters (sig : Signature) : Gen Unit := do
  defineParameters sig.pos 0 sig.params
  sig.vararg.forM (defineLocal · sig.pos)

/-- An instruction that only generators have. -/
def emitIf (isGenerator : Bool) (op : Op) (line : Nat) : Gen Unit :=
  if isGenerator then emit op line else pure ()

/-- The code of a function up to the `return` at its end. -/
def emitBody (sig : Signature) (inner : Context) (body : Context → Gen Unit) : Gen Unit := do
  emitIf sig.isGenerator .generator sig.pos.line
  unpackParameters sig.pos 0 sig.params
  body inner
  emit (if sig.kind == .constructor then .getLocal 0 else .null) sig.endLine
  emitIf sig.isGenerator .generatorClose sig.endLine

/-- The context of a function's body. -/
def Context.inner (ctx : Context) (sig : Signature) : Context :=
  { kind := sig.kind, isGenerator := sig.isGenerator, method := ctx.method, tries := [] }

/-- The prototype of a function from what was built of it. -/
def Signature.proto (sig : Signature) (defaults : Array Constant) (built : FunctionState) : Proto :=
  { name := sig.name
    arity := UInt8.ofNat sig.params.length
    defaults := defaults
    vararg := sig.vararg.isSome
    upvalueCount := UInt16.ofNat built.upvalues.size
    chunk := built.chunk }

/-- What generating code for a function does, step by step. -/
theorem emitFunction_eq (ctx : Context) (sig : Signature) (body : Context → Gen Unit) :
    emitFunction ctx sig body = (do
      let defaults ← parameterDefaults sig.params sig.pos
      if sig.isGenerator && sig.kind == .constructor then fail .yieldInConstructor sig.pos
      beginFunction sig.kind.slotZero
      beginScope
      emitParameters sig
      emitBody sig (ctx.inner sig) body
      emit .return sig.endLine
      let built ← endFunction
      let index ← addConstant (.function (sig.proto defaults built)) sig.pos
      emit (.closure index built.upvalues.toList) sig.pos.line) := by
  obtain ⟨kind, name, params, vararg, isGenerator, pos, endLine⟩ := sig
  cases isGenerator <;>
    simp only [emitFunction, emitParameters, emitBody, emitIf, emitReturn, Context.inner, Signature.proto,
      Bool.false_eq_true, if_false, if_true, bind_assoc, pure_bind]

/-- An instruction without effect on the height keeps it, whether it is emitted or not. -/
theorem turns_emitIf {op : Op} {p : Nat} (isGenerator : Bool) (line : Nat)
    (hp : op.isPlain = true) (he : op.effect = (0, 0)) :
    Turns exact p p (emitIf isGenerator op line) := by
  cases isGenerator with
  | false => exact .pure ()
  | true => exact (turns_emit line hp he : Turns exact 0 0 _).above p

/-- The value of a function whose body falls through: the receiver or null. -/
theorem typed_fallback {constructor : Bool} (hat : At exact s.chunk τ L) (hL : L.Ready) (line : Nat)
    (hr : Ran (emit (if constructor then .getLocal 0 else .null) line) s u s') :
    ∃ τ', At exact s'.chunk τ' (L.push 1) ∧ KeepsScopes s τ s' τ' := by
  obtain rfl := ran_emit.1 hr
  cases constructor with
  | true => exact typed_getLocal (i := 0) hat hL hL.pos line
  | false => exact typed_plain (p := 0) .null hat hL line rfl rfl

/-- The code of a function leaves the value that is returned. -/
theorem typed_body {inner : Context} {d : Bool}
    (hbody : Builds exact .free inner.tries d (body inner))
    (hin : Inside exact .free inner.tries none s τ L) (hparams : sig.params.length < L.height)
    (hr : Ran (emitBody sig inner body) s u s') :
    ∃ (τ' : Typing) (M : Level) (fresh : List (String × Option Nat)), M.Ready ∧
      At exact s'.chunk τ' (M.push 1) ∧ Grows none [] fresh s τ s' τ' := by
  simp only [emitBody, ran_bind] at hr
  obtain ⟨_, t₁, hrg, _, t₂, hru, _, t₃, hrb, _, t₄, hrv, hrc⟩ := hr
  obtain ⟨υ₁, hat₁, hk₁⟩ := turns_emitIf (p := 0) _ _ rfl rfl hin.typed hin.ready hin.reach hrg
  have hin₁ := hin.extends (hk₁.grows : Grows none [] [] _ _ _ _).toExtends hat₁
  obtain ⟨υ₂, fresh₂, hat₂, hg₂, hdecl₂⟩ := grows_unpackParameters none hin₁.toPlaced
    (by rwa [Nat.zero_add]) hru
  have hin₂ : Inside exact .free inner.tries none t₂ υ₂ (L.push fresh₂.length) :=
    hin₁.after true hg₂.toExtends hat₂ hdecl₂ nofun
  obtain ⟨υ₃, fresh₃, hat₃, hg₃, hdecl₃, -⟩ := hbody hin₂ hrb
  have hin₃ := hin₂.after true hg₃.toExtends hat₃ hdecl₃ nofun
  obtain ⟨υ₄, hat₄, hk₄⟩ := typed_fallback hat₃ hin₃.ready _ hrv
  obtain ⟨υ₅, hat₅, hk₅⟩ := turns_emitIf _ _ rfl rfl hat₄ hin₃.ready (hk₄.reach ▸ hin₃.reach) hrc
  have hg := (hk₁.trans_grows hg₂).trans hg₃
  exact ⟨υ₅, _, _, hin₃.ready, hat₅, (hg.trans_keepsScopes hk₄).trans_keepsScopes hk₅⟩

/-- Beginning a function puts a new one in front of the functions around it. -/
theorem ran_beginFunction {name : String} :
    Ran (beginFunction name) s u s' ↔ s' = ⟨.start name, s.current :: s.enclosing⟩ := by
  constructor
  · intro h
    cases h
    rfl
  · rintro rfl
    rfl

/-- The function around is current again, with its captured locals marked. -/
theorem ran_endFunction {f g : FunctionState} {fs : List FunctionState}
    (hs : s.enclosing = f :: fs) :
    Ran endFunction s g s' ↔
      s.current.overflowed = false ∧ g = s.current ∧ s' = ⟨f.capture g.upvalues, fs⟩ := by
  obtain ⟨current, enclosing⟩ := s
  subst hs
  rw [endFunction, ran_bind]
  simp only [ran_get]
  constructor
  · rintro ⟨_, _, ⟨rfl, rfl⟩, h⟩
    dsimp only at h
    split at h
    · obtain ⟨_, _, hfail, -⟩ := ran_bind.1 h
      exact absurd hfail ran_fail
    · next hover =>
      cases h
      exact ⟨by simpa using hover, rfl, rfl⟩
  · rintro ⟨hover, rfl, rfl⟩
    refine ⟨_, _, ⟨rfl, rfl⟩, ?_⟩
    dsimp only at hover ⊢
    rw [if_neg (by simp [hover])]
    rfl

/-- Default values are read only of parameters that are not too many. -/
theorem parameterDefaults_ok {params : List Parameter} {pos : Position} {ds : Array Constant}
    (h : parameterDefaults params pos = .ok ds) : ¬ params.length > maxArguments := by
  unfold parameterDefaults at h
  split at h
  · cases h
  · assumption

/-- Code without instructions is typed at every level. -/
theorem at_empty (L : Level) : At exact .empty ⟨fun _ => L, fun _ => none⟩ L where
  sound _ _ hop := by cases hop
  bound _ _ := rfl
  here := rfl
  pool _ hq := absurd hq (Array.not_mem_empty _)

/-- Before the first instruction nothing is owed and every local has its value. -/
theorem inside_start {tries : List TryBlock} (hchunk : s.chunk = .empty)
    (hloops : s.current.loops = []) (hpos : 1 ≤ s.current.locals.length)
    (hsettled : Settled s.current.depth (shapes s.current.locals)) :
    Inside exact .free tries none s
      ⟨fun _ => .ofHeight s.current.locals.length, fun _ => none⟩
      (.ofHeight s.current.locals.length) where
  typed := by
    rw [hchunk]
    exact at_empty _
  ready := ⟨hpos, rfl⟩
  height := rfl
  settled := hsettled
  loop l ls hl := by
    rw [hloops] at hl
    cases hl

/-- The parameters of a function are its first locals, above slot zero. -/
theorem inside_function {name : String} {tries : List TryBlock}
    (hr : Ran (emitParameters sig)
      ⟨{ FunctionState.start name with depth := 1 }, s.current :: s.enclosing⟩ u s') :
    s'.current.locals.length = 1 + sig.params.length + sig.vararg.isSome.toNat ∧
      s'.enclosing = s.current :: s.enclosing ∧
      Inside exact .free tries none s'
        ⟨fun _ => .ofHeight s'.current.locals.length, fun _ => none⟩
        (.ofHeight s'.current.locals.length) := by
  simp only [emitParameters, ran_bind] at hr
  obtain ⟨_, t, hrp, hrv⟩ := hr
  obtain ⟨ls, rfl, hlen, hdecl⟩ := (defines_parameters hrp).trans (defines_vararg hrv)
  have hlocals : (ls ++ [(⟨name, some 0, false⟩ : Local)]).length =
      1 + sig.params.length + sig.vararg.isSome.toNat := by
    rw [List.length_append, hlen, List.length_singleton]
    omega
  refine ⟨hlocals, rfl, inside_start rfl rfl ?_ ?_⟩
  · rw [withScope_locals, List.length_append]
    exact Nat.le_add_left 1 _
  · rw [withScope_locals, shapes_append]
    refine (hdecl.settled).append ?_
    intro x hx
    obtain rfl := List.mem_singleton.1 hx
    exact ⟨0, Nat.zero_le _, rfl⟩

/-- A function is compiled to a typed constant and a closure of it. What it captures need not be on
the stack yet. -/
theorem typed_function {d : Bool} (hbody : ∀ ctx', Builds exact .free ctx'.tries d (body ctx'))
    (hat : At exact s.chunk τ L) (hL : L.Ready) (hr : Ran (emitFunction ctx sig body) s u s') :
    ∃ τ', At exact s'.chunk τ' (L.push 1) ∧ KeepsScopes s τ s' τ' := by
  rw [emitFunction_eq, ran_bind] at hr
  obtain ⟨defaults, s, hlift, hr⟩ := hr
  obtain ⟨hdefaults, rfl⟩ := ran_lift.1 hlift
  split at hr
  · obtain ⟨_, _, hfail, -⟩ := ran_bind.1 hr
    exact absurd hfail ran_fail
  simp only [ran_bind, ran_beginFunction, ran_beginScope, ran_emit] at hr
  obtain ⟨_, _, rfl, _, _, rfl, _, t₁, hrp, _, t₂, hrb, _, _, rfl, built, t₄, hre, index, t₅, hra,
    rfl⟩ := hr
  obtain ⟨hlen, henc, hin⟩ : _ ∧ _ ∧ Inside exact .free (ctx.inner sig).tries none t₁ _ _ :=
    inside_function hrp
  have hheight : sig.params.length < t₁.current.locals.length := by omega
  obtain ⟨υ₂, M, fresh, hM, hat₂, hg₂⟩ := typed_body (hbody _) hin hheight hrb
  have hall : (sig.proto defaults (t₂.current.emit .return sig.endLine)).AllTyped exact := by
    refine hat₂.finished hM (fun pc => congrFun hg₂.owed_eq.1 pc) rfl ?_
    rw [hg₂.level 0 (Nat.zero_le _), Proto.entryDepth, Signature.proto,
      toNat_arguments (parameterDefaults_ok hdefaults)]
    exact congrArg Level.ofHeight hlen
  -- the function around differs at most in captures
  have halike := hg₂.enclosing
  rw [henc] at halike
  cases hencl : t₂.enclosing with
  | nil =>
    rw [hencl] at halike
    cases halike
  | cons outer rest =>
    rw [hencl] at halike
    obtain ⟨houter, hrest⟩ := List.forall₂_cons.1 halike
    have hre := (ran_endFunction (s := t₂.withCurrent (t₂.current.emit .return sig.endLine)) hencl).1
      hre
    obtain ⟨-, rfl, rfl⟩ := hre
    have houter := houter.trans (alike_capture outer (t₂.current.emit .return sig.endLine).upvalues)
    have hat₄ : At exact (outer.capture (t₂.current.emit .return sig.endLine).upvalues).chunk τ L := by
      rw [houter.chunk]
      exact hat
    obtain ⟨υ₅, hat₅, hk₅⟩ := typed_addConstant (s := ⟨_, rest⟩) hat₄ (by
      rintro q ⟨⟩
      exact hall) hra
    obtain ⟨υ₆, hat₆, hk₆⟩ := typed_plain (p := 0) (q := 1)
      (.closure index (t₂.current.emit .return sig.endLine).upvalues.toList) hat₅ hL
      sig.pos.line rfl rfl
    exact ⟨υ₆, hat₆, ((KeepsScopes.of_alike houter hrest τ).trans hk₅).trans hk₆⟩

/-- A function as an expression. -/
theorem turns_function {d : Bool} (hbody : ∀ ctx', Builds exact .free ctx'.tries d (body ctx')) :
    Turns exact 0 1 (emitFunction ctx sig body) :=
  fun _ _ _ _ _ hat hL _ hr => typed_function hbody hat hL hr

/-- A function as a statement. Below the top level its local is there before the closure is, so that
the function can capture itself. -/
theorem builds_function {d : Bool} {scope : Scope} {tries : List TryBlock} {name : String}
    {pos : Position} (hbody : ∀ ctx', Builds exact .free ctx'.tries d (body ctx')) :
    Builds exact scope tries true (do
      if ← atTopLevel then
        emitFunction ctx sig body
        defineVariable name pos
      else
        defineLocal name pos
        emitFunction ctx sig body) := by
  intro s s' τ L exit hin hr
  rw [ran_bind] at hr
  simp only [ran_atTopLevel] at hr
  obtain ⟨_, s, ⟨rfl, rfl⟩, hr⟩ := hr
  split at hr
  · exact builds_define (turns_function hbody) hin hr
  · next hdepth =>
    obtain ⟨_, t, hdef, hrf⟩ := ran_bind.1 hr
    obtain ⟨hg, hchunk, hdecl⟩ := (KeepsScopes.refl s τ).grows.define nofun hdef
    obtain ⟨τ', hat', hk⟩ := typed_function hbody (hchunk ▸ hin.typed) hin.ready hrf
    refine ⟨τ', [(name, some s.current.depth)], hat', hg.trans_keepsScopes hk, hdecl, fun h => ?_⟩
    exact absurd (beq_iff_eq.2 (h.resolve_left nofun)) hdepth

end Functions

/-! ## Returns, host functions and classes -/

section Statements

variable {exact : Bool} {scope : Scope} {tries : List TryBlock} {ctx : Context} {pos : Position}
variable {name : String}

/-- Behind a `return` the level is free. -/
theorem turns_emitReturn (ctx : Context) (line : Nat) : Turns exact 1 0 (emitReturn ctx line) := by
  have hreturn : Turns exact 1 0 (emit .return line) := turns_end (.inl rfl) line
  unfold emitReturn
  simp only
  split
  · exact .bind ((turns_emit line rfl rfl : Turns exact 0 0 _).above 1) fun _ => hreturn
  · exact hreturn

/-- `return` moves nothing as far as the code behind it is concerned. -/
theorem turns_emitReturnStmt {value : Option (Gen Unit)}
    (hvalue : ∀ m, value = some m → Turns exact 0 1 m) :
    Turns exact 0 0 (emitReturnStmt ctx pos value) := by
  have hreceiver : Turns exact 0 1 (emit (.getLocal 0) pos.line) := by
    intro s s' τ L _ hat hL _ hr
    obtain rfl := ran_emit.1 hr
    exact typed_getLocal (i := 0) hat hL hL.pos pos.line
  have hnull : Turns exact 0 1 (emit .null pos.line) := turns_emit pos.line rfl rfl
  have hfail : ∀ cause, Turns exact 0 1 (fail cause pos : Gen Unit) := fun cause => .fail cause pos
  unfold emitReturnStmt
  cases ctx.kind <;> cases value <;>
    first
    | exact .bind (hfail _) fun _ => turns_emitReturn ctx pos.line
    | exact .bind (hvalue _ rfl) fun _ => turns_emitReturn ctx pos.line
    | exact .bind hnull fun _ => turns_emitReturn ctx pos.line
    | exact .bind hreceiver fun _ => turns_emitReturn ctx pos.line

/-- The signature of a host function is entered as a constant. -/
theorem turns_nativeConstant {p : Nat} (decl : NativeDecl) :
    Turns exact p p (nativeConstant decl) := by
  unfold nativeConstant
  split
  · exact .fail _ _
  · refine .bind ?_ fun _ => turns_addConstant (by nofun) decl.pos
    intro s s' τ L _ hat _ _ hr
    obtain ⟨-, rfl⟩ := ran_lift.1 hr
    exact ⟨τ, hat, .refl _ _⟩

/-- The part of a class after its name is bound: the superclass is a hidden local while the methods
are defined on a copy of the class. -/
theorem builds_classBody (pos : Position) (name : String) {superclass methods : Gen Unit}
    (hsuper : Turns exact 0 1 superclass) (hmethods : Turns exact 1 1 methods) :
    Builds exact scope tries false (inScope pos.line do
      superclass
      defineLocal "super" pos
      getVariable name pos
      emit .subclass pos.line
      methods
      emit .pop pos.line) := by
  intro s s' τ L exit hin hr
  simp only [ran_inScope, ran_bind, ran_emit] at hr
  obtain ⟨_, ⟨_, t₁, hrs, _, t₂, hrd, _, t₃, hrg, _, _, rfl, _, t₅, hrm, rfl⟩, hend⟩ := hr
  obtain ⟨υ₁, hat₁, hk₁⟩ := hsuper hin.deeper.typed hin.ready hin.deeper.reach hrs
  obtain ⟨hg₂, hchunk, hdecl⟩ := (hk₁.grows : Grows exit [] [] _ _ _ _).define nofun hrd
  have hin₂ : Inside exact (scope.after true) tries exit t₂ υ₁ (L.push 1) :=
    hin.deeper.after true hg₂.toExtends (hchunk ▸ hat₁) hdecl nofun
  obtain ⟨υ₃, hat₃, hk₃⟩ := turns_getVariable name pos hin₂.typed hin₂.ready hin₂.reach hrg
  obtain ⟨υ₄, hat₄, hk₄⟩ := typed_plain (p := 2) (q := 2) (L := L) .subclass hat₃ hin.ready
    pos.line rfl rfl
  obtain ⟨υ₅, hat₅, hk₅⟩ := hmethods (L := L.push 1) hat₄ hin₂.ready
    ((hk₃.trans hk₄).reach ▸ hin₂.reach) hrm
  obtain ⟨υ₆, hat₆, hk₆⟩ := typed_plain (p := 1) (q := 0) (L := L.push 1) .pop hat₅ hin₂.ready
    pos.line rfl rfl
  have hg₆ :=
    (((hg₂.trans_keepsScopes hk₃).trans_keepsScopes hk₄).trans_keepsScopes hk₅).trans_keepsScopes hk₆
  obtain ⟨τ', hat', hg'⟩ := hg₆.endScope hdecl hin.settled hin.ready hat₆ hend
  exact ⟨τ', [], hat', hg', nofun, fun _ => rfl⟩

/-- A class builds code from its superclass and its methods. -/
theorem builds_class {superclass methods : Gen Unit} (hsuper : Turns exact 0 1 superclass)
    (hmethods : Turns exact 1 1 methods) :
    Builds exact scope tries true (emitClass pos name superclass methods) := by
  have hnew : Builds exact scope tries true (do
      emit (.newClass (← addName name pos)) pos.line
      defineVariable name pos) := by
    refine (turns_addName name pos).thenBuilds fun i => ?_
    exact builds_define (turns_emit pos.line rfl rfl)
  have h := hnew.seq (builds_classBody pos name hsuper hmethods)
  simp only [inScope, bind_assoc, Bool.or_false] at h
  exact h

end Statements

end ScriptEngine.Compile
