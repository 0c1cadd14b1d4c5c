import ScriptEngine.Proofs.Functions
import ScriptEngine.Proofs.Handlers
import ScriptEngine.Proofs.Siting

/-!
# What the code of each construct touches

One rule for each emitter: if the parts of a construct touch what they should, so does the construct.
The `ensure` part of a `try` statement is used twice, inline where a jump leaves the statement and
behind its handlers, with two hidden locals more on the frame. A function is traced from an empty
frame of its own, with the frame it stands in added to those around, and is one closure to the code
around it.
-/

namespace ScriptEngine.Compile

open Bytecode Source

/-- The code of an expression does what touches say wherever the frame is the same. -/
def Evaluates (outer : List (List Binder)) (frame : List Binder) (ts : List Touch) (m : Gen Unit) :
    Prop :=
  ∀ σ : Site, σ.frame = frame → Traces outer σ σ ts m

section Emitters

variable {outer : List (List Binder)} {σ : Site} {ctx : Context} {c : Setting} {pos : Position}
variable {ts ts' us vs : List Touch}

/-- What a part of a construct touches does not depend on the locals whose values are being
computed. -/
theorem Evaluates.here {m : Gen Unit} (h : Evaluates outer σ.frame ts m) : Traces outer σ σ ts m :=
  h σ rfl

/-! ## Simple constructs -/

/-- A binary operator. -/
theorem Traces.emitBinary (op : BinaryOp) (line : Nat) :
    Traces outer σ σ [] (emitBinary op line) := by
  have hops : ∀ o ∈ binaryOps op, o.touches = false := by
    cases op <;> decide
  unfold Compile.emitBinary
  revert hops
  induction binaryOps op with
  | nil => exact fun _ => .pure _
  | cons o os ih =>
    intro hops
    obtain ⟨ho, hos⟩ := List.forall_mem_cons.1 hops
    exact .after (.emit line ho) fun _ => ih hos

/-- A method call touches nothing by itself. -/
theorem touches_invoke (argc : UInt8) (name : UInt16) : (Op.invoke argc name).touches = false := by
  unfold Op.invoke
  split <;> rfl

/-- Neither does a call. -/
theorem touches_call (argc : UInt8) : (Op.call argc).touches = false := by
  unfold Op.call
  split <;> rfl

/-- A unary operator. -/
theorem Traces.emitUnary (op : UnaryOp) (pos : Position) :
    Traces outer σ σ [] (emitUnary op pos) := by
  cases op with
  | negate | not | bitNot => exact .emit pos.line rfl
  | length | stringify =>
    exact .after (.addName _ pos) fun i => .emit pos.line (touches_invoke 0 i)

/-- A return with the value on top of the stack. -/
theorem Traces.emitReturn (ctx : Context) (line : Nat) :
    Traces outer σ σ [] (emitReturn ctx line) := by
  unfold Compile.emitReturn
  split
  · exact .after (.emit line rfl) fun _ => .emit line rfl
  · exact .emit line rfl

/-- A declaration binds its names once their values are there. -/
theorem Traces.emitDeclare {names : List String} {initial : Option (Gen Unit)}
    (hnames : names.all isOrdinary = true) (hp : σ.pending = [])
    (h : Optionally (Evaluates outer σ.frame) ts initial) :
    Traces outer σ (σ.bind (if σ.top then [] else bindersOf names)) ts
      (emitDeclare pos names initial) := by
  unfold Compile.emitDeclare
  refine .withTop ?_
  have hglobals : ∀ σ' : Site, Traces outer σ' σ' [] (names.reverse.forM fun name => do
      Compile.emit (.defineGlobal (← Compile.addName name pos)) pos.line) := fun σ' =>
    .forM (fun name => .after (.addName name pos) fun _ => .emit pos.line rfl) _
  have hlocals : Traces outer (σ.await names) (σ.bind (bindersOf names)) []
      (updateFunction (·.markInitialized names.length)) := .markInitialized hnames hp
  cases initial with
  | none =>
    obtain rfl : ts = [] := h
    cases σ.top with
    | true => exact .after (.forM (fun _ => .emit pos.line rfl) _) fun _ => hglobals σ
    | false =>
      exact .after (.declares names pos) fun _ => .after (.forM (fun _ => .emit pos.line rfl) _)
        fun _ => hlocals
  | some value =>
    cases σ.top with
    | true =>
      exact (h σ rfl).before fun _ => .ite
        (fun _ => .unless (.after (.emit pos.line rfl) fun _ => hglobals σ)) fun _ => hglobals σ
    | false =>
      exact .after (.declares names pos) fun _ => (h (σ.await names) rfl).before fun _ => .ite
        (fun _ => .unless (.after (.emit pos.line rfl) fun _ => hlocals)) fun _ => hlocals

/-- A branch. -/
theorem Traces.emitBranch {condition thenBranch : Gen Unit} {elseBranch : Option (Gen Unit)}
    (hc : Traces outer σ σ ts condition) (ht : Traces outer σ σ us thenBranch)
    (he : Optionally (Traces outer σ σ) vs elseBranch) :
    Traces outer σ σ (ts ++ (us ++ vs)) (emitBranch pos condition thenBranch elseBranch) := by
  unfold Compile.emitBranch
  refine hc.bind fun _ => .after (.emitJump pos.line rfl) fun _ => ht.bind fun _ => ?_
  cases elseBranch with
  | none =>
    obtain rfl : vs = [] := he
    exact .patchJump _ pos
  | some other =>
    exact .after (.emitJump pos.line rfl) fun _ => .after (.patchJump _ pos) fun _ =>
      Traces.before he fun _ => .patchJump _ pos

/-- A `while` loop. -/
theorem Traces.emitWhile {condition body : Gen Unit} (hc : Evaluates outer σ.frame ts condition)
    (hb : Traces outer (σ.loop ctx.tries.length) (σ.loop ctx.tries.length) us body) :
    Traces outer σ σ (ts ++ us) (emitWhile ctx pos condition body) :=
  .after .offset fun _ => .after (.beginLoop ctx _) fun _ =>
    (hc (σ.loop ctx.tries.length) rfl).bind fun _ => .after (.emitJump pos.line rfl) fun _ =>
    hb.before fun _ => .after (.emitLoop _ pos) fun _ => .after (.patchJump _ pos) fun _ =>
    .endLoop pos

/-- A `for` loop. Its step comes behind its body. -/
theorem Traces.emitFor {initial condition step : Option (Gen Unit)} {body : Gen Unit}
    {bs : List Binder} (hp : σ.pending = [])
    (hi : Traces outer σ.inner (σ.inner.bind bs) ts (initial.forM id))
    (hc : Optionally (Evaluates outer (σ.inner.bind bs).frame) us condition)
    (hb : Traces outer ((σ.inner.bind bs).loop ctx.tries.length)
      ((σ.inner.bind bs).loop ctx.tries.length) ts' body)
    (hs : Optionally (Evaluates outer (σ.inner.bind bs).frame) vs step) :
    Traces outer σ σ (ts ++ (us ++ (ts' ++ vs)))
      (emitFor ctx pos initial condition step body) := by
  have hcondition : Traces outer (σ.inner.bind bs) (σ.inner.bind bs) us
      (condition.mapM fun condition => do
        condition
        Compile.emitJump (.jumpIfFalse 0) pos.line) :=
    .optionalMap hc fun m hm => hm.here.before fun _ => .emitJump pos.line rfl
  have hstep : Traces outer ((σ.inner.bind bs).loop ctx.tries.length)
      ((σ.inner.bind bs).loop ctx.tries.length) vs (step.forM fun step => do
        step
        Compile.emit .pop pos.line) :=
    .optional hs fun m hm => Traces.before (hm _ rfl) fun _ => .emit pos.line rfl
  have hpatch : ∀ exit : Option Nat, Traces outer ((σ.inner.bind bs).loop ctx.tries.length)
      ((σ.inner.bind bs).loop ctx.tries.length) [] (exit.forM (Compile.patchJump · pos)) := by
    intro exit
    cases exit with
    | none => exact .pure _
    | some jump => exact .patchJump jump pos
  exact .after .beginScope fun _ => hi.bind fun _ => .after .offset fun _ =>
    hcondition.bind fun exit => .after (.beginLoop ctx _) fun _ => hb.bind fun _ =>
    .after (.patchContinues pos) fun _ => hstep.before fun _ => .after (.emitLoop _ pos) fun _ =>
    .after (hpatch exit) fun _ => .after (.endLoop pos) fun _ => .endScope pos.line hp hp rfl rfl

/-- A hidden local is declared and has its value. -/
theorem Traces.defineHidden (name : String) (hp : σ.pending = [])
    (hname : isHidden name = true) :
    Traces outer σ (σ.bind [.hidden]) [] (Compile.defineLocal name pos) :=
  .defineLocal (b := .hidden) hname hp pos

/-- A local is declared and has its value. -/
theorem Traces.defineNamed {name : String} (hname : isOrdinary name = true) (hp : σ.pending = []) :
    Traces outer σ (σ.bind [.named name]) [] (Compile.defineLocal name pos) :=
  .defineLocal (b := .named name) ⟨rfl, hname⟩ hp pos

/-- The place of the body of an iteration. -/
def Site.iteration (σ : Site) (tries : Nat) (names : List String) : Site :=
  ((σ.inner.bind iterationBinders).loop tries).inner.bind (bindersOf names)

/-- An iteration has four hidden locals. -/
theorem Traces.emitForEach {names : List String} {iterable body : Gen Unit} (hp : σ.pending = [])
    (hnames : names.all isOrdinary = true) (hi : Evaluates outer σ.frame ts iterable)
    (hb : Traces outer (σ.iteration ctx.tries.length names) (σ.iteration ctx.tries.length names) us
      body) : Traces outer σ σ (ts ++ us) (emitForEach ctx pos names iterable body) := by
  have hend : Traces outer (σ.iteration ctx.tries.length names)
      ((σ.inner.bind iterationBinders).loop ctx.tries.length) [] (Compile.endScope pos.line) :=
    .endScope pos.line hp hp rfl rfl
  have hround : ∀ start exit, Traces outer
      ((σ.inner.bind iterationBinders).loop ctx.tries.length).inner σ us (do
        names.forM fun name => updateFunctionM (·.declare name pos)
        updateFunction (·.markInitialized names.length)
        body
        Compile.endScope pos.line
        Compile.emitLoop start pos
        Compile.patchJump exit pos
        Compile.endLoop pos
        Compile.endScope pos.line) := fun start exit =>
    .after (.declares names pos) fun _ => .after (.markInitialized hnames hp) fun _ =>
      hb.before fun _ => hend.after fun _ => .after (.emitLoop start pos) fun _ =>
      .after (.patchJump exit pos) fun _ => .after (.endLoop pos) fun _ =>
      .endScope pos.line hp hp rfl rfl
  unfold Compile.emitForEach
  exact .after .beginScope fun _ => (hi σ.inner rfl).bind fun _ =>
    .after (.defineHidden ".expr" hp rfl) fun _ =>
    .after (.emit pos.line rfl) fun _ =>
    .after (.defineHidden ".iter" hp rfl) fun _ =>
    .after (.emit pos.line rfl) fun _ =>
    .after (.defineHidden ".__iter__" hp rfl) fun _ =>
    .after (.defineHidden ".__next__" hp rfl) fun _ =>
    .after .offset fun _ =>
    .after (.beginLoop ctx _) fun _ => .after (.emit pos.line rfl) fun _ =>
    .after (.emitJump pos.line rfl) fun _ => .after .beginScope fun _ => .ite
      (fun _ => .unless (.after (.emit pos.line rfl) fun _ => hround _ _)) fun _ => hround _ _

/-- A return. Without a value a constructor gives its receiver. -/
theorem Traces.emitReturnStmt {value : Option (Gen Unit)}
    (hv : Optionally (Traces outer σ σ) ts value) :
    Traces outer σ σ
      (if value.isSome then ts else if ctx.kind == .constructor then [.read (.own 0)] else [])
      (emitReturnStmt ctx pos value) := by
  have hreturn : Traces outer σ σ [] (Compile.emitReturn ctx pos.line) := .emitReturn ctx pos.line
  unfold Compile.emitReturnStmt
  cases ctx.kind with
  | script => exact .failed
  | constructor =>
    cases value with
    | none => exact (Traces.getSlot 0 pos.line).before fun _ => hreturn
    | some m => exact .failed
  | function | method =>
    cases value with
    | none => exact .after (.emit pos.line rfl) fun _ => hreturn
    | some m => exact Traces.before hv fun _ => hreturn

/-! ## `try` statements -/

/-- An `except` clause has a scope with the exception. -/
theorem Traces.emitClause {x y : UInt16} {binder : String} {exceptionClass body : Gen Unit}
    (hp : σ.pending = []) (hbinder : isOrdinary binder = true)
    (hc : Evaluates outer σ.frame ts exceptionClass)
    (hb : Traces outer (σ.inner.bind [.named binder]) (σ.inner.bind [.named binder]) us body)
    (hasNext : Bool) :
    Traces outer σ σ ([.read (.own x.toNat)] ++ (ts ++ ([.read (.own x.toNat)] ++ (us ++
      [.write (.own y.toNat)])))) (emitClause pos x y binder exceptionClass body hasNext) := by
  have happlied : Traces outer σ.inner (σ.inner.bind [.named binder])
      ([.read (.own x.toNat)] ++ (us ++ [.write (.own y.toNat)])) (do
        Compile.emit (.getLocal x) pos.line
        Compile.defineLocal binder pos
        body
        Compile.emit .null pos.line
        Compile.emit (.setLocal y) pos.line
        Compile.emit .pop pos.line) :=
    (Traces.getSlot x pos.line).bind fun _ =>
      .after (.defineNamed hbinder hp) fun _ => hb.bind fun _ =>
      .after (.emit pos.line rfl) fun _ => (Traces.setSlot y pos.line).before fun _ =>
      .emit pos.line rfl
  have htest : Traces outer σ σ ([.read (.own x.toNat)] ++ ts) (emitTest pos x exceptionClass) :=
    (Traces.getSlot x pos.line).bind fun _ => hc.here.before fun _ => .emit pos.line rfl
  rw [emitClause_eq, ← List.append_assoc]
  refine htest.bind fun _ => .after (.emitJump pos.line rfl) fun next =>
    Traces.before (.inScope pos.line hp _ happlied) fun _ => ?_
  exact .ite (fun _ => .after (.map (.emitJump pos.line rfl)) fun _ =>
      .after (.patchJump _ pos) fun _ =>
    .pure _) fun _ => .after (.pure _) fun _ => .after (.patchJump _ pos) fun _ => .pure _

/-- The place of the handlers of a `try` statement. -/
def Site.handling (σ : Site) : Site := σ.inner.bind handlerBinders

/-- The instructions around a window. -/
theorem Traces.emitWindow (line : Nat) : Traces outer σ σ [] (emitWindow line) :=
  .after (.emit line rfl) fun _ => .emit line rfl

/-- What follows the hidden locals of a `try` statement may use their slots. -/
theorem Traces.withHidden {σ' : Site} {f : Nat → Gen Unit} (hp : σ.pending = [])
    (hf : Traces outer σ.handling σ' ts (f σ.frame.length)) :
    Traces outer σ σ' ts (emitHidden pos >>= f) := by
  unfold emitHidden
  simp only [bind_assoc, pure_bind]
  exact .after .beginScope fun _ =>
      .withCount hp (.after (.defineHidden _ hp rfl) fun _ =>
    .after (.defineHidden _ hp rfl) fun _ => hf)

/-- The `ensure` part is emitted once more behind the handlers. -/
theorem Traces.emitEnsurePart {ensure : Context → Gen Unit} {setup : Nat} (h : Agrees outer σ ctx c)
    (he : ∀ ctx', Agrees outer σ.handling ctx' ((c.bind handlerBinders).guarded []) →
      Traces outer σ.handling σ.handling ts (ensure ctx')) :
    Traces outer σ.handling σ ts (emitEnsurePart ctx pos σ.frame.length setup ensure) :=
  .after (.patchJump setup pos) fun _ =>
    (he _ ((h.guarded 0 none rfl).inner.bind handlerBinders)).before fun _ =>
    .after (.emit pos.line rfl) fun _ => .endScope pos.line h.settled h.settled rfl rfl

/-- Slots of the hidden locals fit. -/
theorem Traces.withSlots {σ' : Site} {f : UInt16 → UInt16 → Gen Unit}
    (hf : ∀ x y, x.toNat = σ.frame.length → y.toNat = σ.frame.length + 1 →
      Traces outer σ.handling σ' ts (f x y)) :
    Traces outer σ.handling σ' ts
      (f (UInt16.ofNat σ.frame.length) (UInt16.ofNat (σ.frame.length + 1))) := by
  refine .fitting fun hfit => hf _ _ ?_ ?_
  all_goals
    refine toNat_word ?_
    have hlen : σ.handling.frame.length = 2 + σ.frame.length := by
      rw [Site.handling, Site.frame_bind, List.length_append]
      rfl
    simp only [FunctionState.maxLocals] at hfit
    omega

section Try

variable {body ensure : Context → Gen Unit} {clauses : Context → UInt16 → UInt16 → Gen Unit}

/-- `try` with an `ensure` part alone. -/
theorem Traces.tryEnsure (h : Agrees outer σ ctx c)
    (hb : ∀ ctx', Agrees outer σ ctx' (c.guarded us) → Traces outer σ σ ts (body ctx'))
    (hi : Inlines outer σ.loops σ.frame us (ensure ctx))
    (he : ∀ ctx', Agrees outer σ.handling ctx' ((c.bind handlerBinders).guarded []) →
      Traces outer σ.handling σ.handling vs (ensure ctx')) :
    Traces outer σ σ (ts ++ vs) (emitTry ctx pos body none (some ensure)) := by
  rw [emitTry_ensure]
  exact .after (.emitJump pos.line rfl) fun _ => .withCount h.settled
    ((hb _ (h.guarded 1 (some (ensure ctx)) hi)).bind fun _ => .after (.emit pos.line rfl) fun _ =>
      .after (.emitWindow pos.line) fun _ => .withHidden h.settled (.emitEnsurePart h he))

/-- `try` with except clauses alone. -/
theorem Traces.tryClauses (h : Agrees outer σ ctx c)
    (hb : ∀ ctx', Agrees outer σ ctx' (c.guarded []) → Traces outer σ σ ts (body ctx'))
    (hc : ∀ ctx' x y, Agrees outer σ.handling ctx' ((c.bind handlerBinders).guarded []) →
      x.toNat = σ.frame.length → y.toNat = σ.frame.length + 1 →
      Traces outer σ.handling σ.handling vs (clauses ctx' x y)) :
    Traces outer σ σ (ts ++ vs) (emitTry ctx pos body (some clauses) none) := by
  have hin : ∀ n, Agrees outer σ (ctx.within σ.frame.length n none) (c.guarded []) := fun n =>
    h.guarded n none rfl
  have hend : Traces outer σ.handling σ [] (Compile.endScope pos.line) :=
    .endScope pos.line h.settled h.settled rfl rfl
  rw [emitTry_clauses]
  exact .after (.emitJump pos.line rfl) fun _ => .withCount h.settled
    ((hb _ (hin 1)).bind fun _ => .after (.emit pos.line rfl) fun _ => .withHidden h.settled
      (.after (.emitJump pos.line rfl) fun skip => .after (.patchJump _ pos) fun _ =>
        Traces.before (.withSlots fun x y => hc _ x y ((hin 0).inner.bind handlerBinders)) fun _ =>
        .after (.emit pos.line rfl) fun _ => hend.after fun _ => .patchJump skip pos))

/-- `try` with both. -/
theorem Traces.tryBoth (h : Agrees outer σ ctx c)
    (hb : ∀ ctx', Agrees outer σ ctx' (c.guarded us) → Traces outer σ σ ts (body ctx'))
    (hi : Inlines outer σ.loops σ.frame us (ensure ctx))
    (hc : ∀ ctx' x y, Agrees outer σ.handling ctx' ((c.bind handlerBinders).guarded us) →
      x.toNat = σ.frame.length → y.toNat = σ.frame.length + 1 →
      Traces outer σ.handling σ.handling ts' (clauses ctx' x y))
    (he : ∀ ctx', Agrees outer σ.handling ctx' ((c.bind handlerBinders).guarded []) →
      Traces outer σ.handling σ.handling vs (ensure ctx')) :
    Traces outer σ σ (ts ++ (ts' ++ vs)) (emitTry ctx pos body (some clauses) (some ensure)) := by
  have hin : ∀ n, Agrees outer σ (ctx.within σ.frame.length n (some (ensure ctx))) (c.guarded us) :=
    fun n => h.guarded n (some (ensure ctx)) hi
  rw [emitTry_both]
  exact .after (.emitJump pos.line rfl) fun _ => .after (.emitJump pos.line rfl) fun _ =>
    .withCount h.settled ((hb _ (hin 2)).bind fun _ => .after (.emit pos.line rfl) fun _ =>
      .after (.emit pos.line rfl) fun _ => .after (.emitWindow pos.line) fun _ =>
      .withHidden h.settled (.after (.emitJump pos.line rfl) fun skip =>
        .after (.patchJump _ pos) fun _ =>
        Traces.bind (.withSlots fun x y => hc _ x y ((hin 1).inner.bind handlerBinders)) fun _ =>
        .after (.emit pos.line rfl) fun _ => .after (.patchJump skip pos) fun _ =>
        .emitEnsurePart h he))

end Try

/-- An ordinary variable is read. -/
theorem Traces.getNamed {name : String} (hname : isOrdinary name = true) (pos : Position) :
    Traces outer σ σ [.read ((σ.sight outer).placeOf name)] (Compile.getVariable name pos) :=
  .getVariable (b := .named name) ⟨rfl, hname⟩ nofun pos

/-- The receiver is read. -/
theorem Traces.getReceiver (pos : Position) :
    Traces outer σ σ [.read (σ.sight outer).receiver] (Compile.getVariable "this" pos) :=
  .getVariable (b := .receiver) rfl nofun pos

/-- The superclass is read. -/
theorem Traces.getSuperclass (pos : Position) :
    Traces outer σ σ [.read (σ.sight outer).superclass] (Compile.getVariable "super" pos) :=
  .getVariable (b := .superclass) rfl nofun pos

/-- An ordinary variable is written. -/
theorem Traces.setNamed {name : String} (hname : isOrdinary name = true) (pos : Position) :
    Traces outer σ σ [.write ((σ.sight outer).placeOf name)] (Compile.setVariable name pos) :=
  .setVariable (b := .named name) ⟨rfl, hname⟩ nofun pos

/-- The touches that close a resource. -/
def closeTouches (v : Sight) (name : String) : List Touch :=
  [.read (v.placeOf name), .read (v.placeOf name)]

/-- Closing the resource of a variable. -/
theorem Traces.emitClose {name : String} (hname : isOrdinary name = true) :
    Traces outer σ σ (closeTouches (σ.sight outer) name) (emitClose pos name) := by
  have hnone : Optionally (Traces outer σ σ) [] none := rfl
  exact .emitBranch (.getNamed hname pos)
    (Traces.before (.getNamed hname pos) fun _ => .after (.addName _ pos) fun i =>
      .after (.emit pos.line (touches_invoke 0 i)) fun _ => .emit pos.line rfl) hnone

/-- A `with` statement has a scope with the resource, which is closed behind it. -/
theorem Traces.emitWith {name : String} {value body : Context → Gen Unit}
    (h : Agrees outer σ ctx c) (hname : isOrdinary name = true)
    (hv : ∀ ctx', Evaluates outer (σ.inner.bind [.named name]).frame ts (value ctx'))
    (hb : ∀ ctx', Agrees outer (σ.inner.bind [.named name]).inner ctx'
        ((c.bind [.named name]).guarded (closeTouches (c.bind [.named name]).sight name)) →
      Traces outer (σ.inner.bind [.named name]).inner (σ.inner.bind [.named name]).inner us
        (body ctx')) :
    Traces outer σ σ
      ((ts ++ ([.write ((c.bind [.named name]).sight.placeOf name)] ++ us)) ++
        closeTouches ((c.bind [.named name]).bind handlerBinders).sight name)
      (emitWith ctx pos name value body) := by
  have hin : Agrees outer (σ.inner.bind [.named name]) ctx (c.bind [.named name]) :=
    h.inner.bind [.named name]
  have hdeclare : Traces outer σ.inner (σ.inner.bind [.named name]) []
      (Compile.emitDeclare pos [name] none) :=
    .emitDeclare (by simpa using hname) h.settled rfl
  have hinline : Inlines outer (σ.inner.bind [.named name]).loops (σ.inner.bind [.named name]).frame
      (closeTouches (c.bind [.named name]).sight name) (Compile.emitClose pos name) := by
    intro σ' hp hf hl
    rw [(hin.elsewhere hp hf hl).sight]
    exact .emitClose hname
  have hset : Traces outer (σ.inner.bind [.named name]).inner (σ.inner.bind [.named name]).inner
      [.write ((c.bind [.named name]).sight.placeOf name)] (Compile.setVariable name pos) := by
    rw [hin.inner.sight]
    exact .setNamed hname pos
  refine .inScope pos.line h.settled [.named name] (hdeclare.after fun _ =>
    .tryEnsure hin (fun ctx' hctx' => ?_) hinline fun ctx' hctx' => ?_)
  · have hvalue := hv ctx' (σ.inner.bind [.named name]).inner rfl
    exact .inScope pos.line hin.settled [] (hvalue.bind fun _ => hset.bind fun _ =>
      .after (.emit pos.line rfl) fun _ => hb ctx' hctx'.inner)
  · have hclose : Traces outer (σ.inner.bind [.named name]).handling
        (σ.inner.bind [.named name]).handling _ (Compile.emitClose pos name) := .emitClose hname
    rwa [← hctx'.sight] at hclose

/-- The place behind a declaration, which makes a global at the top level. -/
def Site.declare (σ : Site) (bs : List Binder) : Site := σ.bind (if σ.top then [] else bs)

/-- Declaring nothing. -/
theorem Site.declare_nil (σ : Site) : σ.declare [] = σ := by
  unfold Site.declare
  cases σ.top <;> rfl

/-- Declarations of the top level are not seen by slots. -/
theorem Site.sight_declare (σ : Site) (bs : List Binder) (outer : List (List Binder)) :
    (σ.declare bs).sight outer =
      if σ.top then σ.sight outer else (σ.sight outer).bind bs := by
  unfold Site.declare
  cases σ.top with
  | true => rfl
  | false => exact Site.sight_bind σ bs outer

/-- A class declaration. The superclass is a local of the scope around the methods. -/
theorem Traces.emitClass {name : String} {superclass methods : Gen Unit}
    (hname : isOrdinary name = true) (hp : σ.pending = [])
    (hs : Evaluates outer (σ.declare [.named name]).frame ts superclass)
    (hm : Evaluates outer ((σ.declare [.named name]).inner.bind [.superclass]).frame us methods) :
    Traces outer σ (σ.declare [.named name])
      (ts ++ ([.read ((((σ.declare [.named name]).sight outer).bind [.superclass]).placeOf name)] ++
        us))
      (emitClass pos name superclass methods) := by
  have hp' : (σ.declare [.named name]).pending = [] := hp
  have hdefine : Traces outer σ (σ.declare [.named name]) [] (Compile.defineVariable name pos) :=
    .defineVariable hname hp pos
  generalize σ.declare [.named name] = σ' at hs hm hp' hdefine ⊢
  have hinner : σ'.inner.pending = [] := hp'
  have hsuper : Traces outer σ'.inner (σ'.inner.bind [.superclass]) []
      (Compile.defineLocal "super" pos) := .defineLocal (b := .superclass) rfl hinner pos
  have hget : Traces outer (σ'.inner.bind [.superclass]) (σ'.inner.bind [.superclass])
      [.read (((σ'.sight outer).bind [.superclass]).placeOf name)]
      (Compile.getVariable name pos) := by
    have hget : Traces outer (σ'.inner.bind [.superclass]) (σ'.inner.bind [.superclass]) _
      (Compile.getVariable name pos) := .getNamed hname pos
    rwa [Site.sight_bind] at hget
  have hend : Traces outer (σ'.inner.bind [.superclass]) σ' [] (Compile.endScope pos.line) :=
    .endScope pos.line hp' hp' rfl rfl
  unfold Compile.emitClass
  exact .after (.addName name pos) fun _ => .after (.emit pos.line rfl) fun _ =>
      hdefine.after fun _ =>
    .after .beginScope fun _ => (hs σ'.inner rfl).bind fun _ => hsuper.after fun _ =>
    hget.bind fun _ => .after (.emit pos.line rfl) fun _ => hm.here.before fun _ =>
    .after (.emit pos.line rfl) fun _ => hend

/-- Names of a module are bound one by one. -/
theorem Traces.importNames {names : List String} (hnames : names.all isOrdinary = true)
    (hp : σ.pending = []) (module : UInt16) :
    Traces outer σ (σ.declare (bindersOf names)) [] (names.forM fun name => do
      Compile.emit (.importName module (← Compile.addName name pos)) pos.line
      Compile.defineVariable name pos) := by
  induction names generalizing σ with
  | nil =>
    rw [bindersOf, List.map_nil, List.reverse_nil, Site.declare_nil]
    exact .pure _
  | cons name names ih =>
    obtain ⟨hname, hnames⟩ := Bool.and_eq_true_iff.1 hnames
    have hrest := @ih (σ.declare [.named name]) hnames hp
    have hboth : (σ.declare [.named name]).declare (bindersOf names) =
        σ.declare (bindersOf (name :: names)) := by
      have htop : (σ.declare [.named name]).top = σ.top := rfl
      rw [Site.declare, htop, Site.declare, Site.bind_bind, Site.declare]
      cases σ.top with
      | true => rfl
      | false => simp [bindersOf]
    rw [hboth] at hrest
    exact Traces.after (.after (.addName name pos) fun _ => .after (.emit pos.line rfl) fun _ =>
      .defineVariable hname hp pos) fun _ => hrest

/-- An import binds its names. -/
theorem Traces.emitImport {d : Import} (hd : d.ordinary = true) (hp : σ.pending = []) :
    Traces outer σ (σ.declare d.binders) [] (emitImport pos d) := by
  unfold Import.ordinary at hd
  unfold Compile.emitImport Import.binders
  refine .after (.addName _ pos) fun module => ?_
  cases hitems : d.items with
  | module _ =>
    rw [hitems] at hd
    exact .after (.emit pos.line rfl) fun _ => .after (.emit pos.line rfl) fun _ =>
      .defineVariable hd hp pos
  | names names =>
    rw [hitems] at hd
    exact .after (.emit pos.line rfl) fun _ => .after (.emit pos.line rfl) fun _ =>
      .importNames hd hp module
  | all =>
    simp only [Site.declare_nil]
    exact .after (.emit pos.line rfl) fun _ => .after (.emit pos.line rfl) fun _ =>
        .emit pos.line rfl

/-- The empty list that items are added to. -/
theorem Traces.emitListStart (items : List Expr) : Traces outer σ σ [] (emitListStart items) := by
  cases items with
  | nil => exact .pure _
  | cons e _ => exact .emit e.pos.line rfl

/-- The name of the superclass method. -/
theorem Traces.superName (ctx : Context) (method : Option String) (pos : Position) :
    Traces outer σ σ [] (superName ctx method pos) := by
  unfold Compile.superName
  split
  · exact .fail _ _
  · exact .pure _

/-- The declaration of a host function. -/
theorem Traces.nativeConstant (decl : NativeDecl) :
    Traces outer σ σ [] (nativeConstant decl) := by
  unfold Compile.nativeConstant
  split
  · exact .fail _ _
  · exact .after (.lift _) fun _ => .addConstant _ _

/-- Locals are declared and have their values. -/
theorem Traces.defineAll {names : List String} (hnames : names.all isOrdinary = true)
    (hp : σ.pending = []) :
    Traces outer σ (σ.bind (bindersOf names)) [] (names.forM (Compile.defineLocal · pos)) := by
  induction names generalizing σ with
  | nil => exact .pure _
  | cons name names ih =>
    obtain ⟨hname, hnames⟩ := Bool.and_eq_true_iff.1 hnames
    have hrest : Traces outer (σ.bind [.named name]) ((σ.bind [.named name]).bind (bindersOf names))
        [] (names.forM (Compile.defineLocal · pos)) := ih hnames hp
    rw [Site.bind_bind] at hrest
    rw [bindersOf, List.map_cons, List.reverse_cons]
    exact .after (.defineNamed hname hp) fun _ => hrest

/-! ## Functions -/

/-- A parameter that is unpacked has a hidden name. -/
theorem isHidden_argument (i : Nat) : isHidden (".arg" ++ toString i) = true := by
  simp [isHidden, String.toList_append]

/-- Parameters are declared in their order. -/
theorem Traces.defineParameters {params : List Parameter}
    (hparams : params.all Parameter.ordinary = true) (hp : σ.pending = []) (i : Nat) :
    Traces outer σ (σ.bind (params.map Parameter.binder).reverse) []
      (defineParameters pos i params) := by
  induction params generalizing σ i with
  | nil => exact .pure _
  | cons p params ih =>
    obtain ⟨hparam, hparams⟩ := Bool.and_eq_true_iff.1 hparams
    have hnames : p.binder.Names (if p.pattern.isEmpty then p.name else ".arg" ++ toString i) := by
      unfold Parameter.binder
      cases hempty : p.pattern.isEmpty with
      | true =>
        refine ⟨rfl, ?_⟩
        simpa [Parameter.ordinary, hempty] using (Bool.and_eq_true_iff.1 hparam).1
      | false => exact isHidden_argument i
    have hrest := @ih (σ.bind [p.binder]) hparams hp (i + 1)
    rw [Site.bind_bind] at hrest
    rw [List.map_cons, List.reverse_cons, Compile.defineParameters]
    exact .after (.defineLocal hnames hp pos) fun _ => hrest

/-- Parameters are unpacked in their order. -/
theorem Traces.unpackParameters {params : List Parameter}
    (hparams : params.all Parameter.ordinary = true) (hp : σ.pending = []) {i : Nat}
    (hi : i + params.length ≤ maxArguments) :
    Traces outer σ (σ.bind (patternBinders params)) (patternTouches i params)
      (unpackParameters pos i params) := by
  induction params generalizing σ i with
  | nil => exact .pure _
  | cons p params ih =>
    obtain ⟨hparam, hparams⟩ := Bool.and_eq_true_iff.1 hparams
    rw [List.length_cons] at hi
    have hrest := @ih (σ.bind (bindersOf p.pattern)) hparams hp (i + 1) (by omega)
    rw [Site.bind_bind] at hrest
    rw [Compile.unpackParameters, patternTouches, patternBinders]
    cases hempty : p.pattern.isEmpty with
    | true =>
      rw [List.isEmpty_iff.1 hempty] at hrest ⊢
      exact hrest
    | false =>
      have hslot : (UInt16.ofNat (i + 1)).toNat = i + 1 := by
        refine toNat_word ?_
        simp only [maxArguments] at hi
        omega
      have hread : Traces outer σ σ [.read (.own (i + 1))]
          (Compile.emit (.getLocal (UInt16.ofNat (i + 1))) pos.line) := by
        have hread : Traces outer σ σ _ _ := .getSlot (UInt16.ofNat (i + 1)) pos.line
        rwa [hslot] at hread
      have hall : p.pattern.all isOrdinary = true := (Bool.and_eq_true_iff.1 hparam).2
      exact .unless (hread.bind fun _ => .after (.emit pos.line rfl) fun _ =>
        .after (.defineAll hall hp) fun _ => hrest)

/-- The beginning of a function whose slot zero is `z`. -/
def Site.entry (z : Binder) : Site := ⟨[], [], [[z]], []⟩

/-- The place of the body of a function. -/
def Site.body (z : Binder) (params : List Parameter) (vararg : Option String) : Site :=
  (((Site.entry z).bind (params.map Parameter.binder).reverse).bind
    (bindersOf vararg.toList)).bind (patternBinders params)

/-- The body of a function sees its parameters, and then what is seen around it. -/
theorem Site.sight_body (z : Binder) (params : List Parameter) (vararg : Option String)
    (v : Sight) :
    (Site.body z params vararg).sight (v.frame :: v.outer) = v.body z params vararg := by
  rw [Site.body, Site.sight_bind, Site.sight_bind, Site.sight_bind]
  rfl

/-- An instruction that only a generator has. -/
theorem Traces.emitIf {op : Op} (isGenerator : Bool) (line : Nat)
    (h : op.touches = false) : Traces outer σ σ [] (emitIf isGenerator op line) := by
  cases isGenerator with
  | false => exact .pure _
  | true => exact .emit line h

/-- The code of a function, from its parameters to the value it returns at its end. -/
theorem traces_function {sig : Signature} {body : Context → Gen Unit} {z : Binder} {σ' : Site}
    {inner : Context} (hsig : ordinarySignature sig.params sig.vararg = true)
    (hcount : ¬ sig.params.length > maxArguments)
    (hb : Traces outer (Site.body z sig.params sig.vararg) σ' ts (body inner)) :
    Traces outer (Site.entry z) σ'
      (patternTouches 0 sig.params ++ (ts ++
        if sig.kind == .constructor then [.read (.own 0)] else []))
      (do
        emitParameters sig
        emitBody sig inner body) := by
  obtain ⟨hparams, hvararg⟩ := Bool.and_eq_true_iff.1 hsig
  have hstart : (Site.entry z).pending = [] := rfl
  have hrest : ∀ σ₁ : Site, σ₁.pending = [] → Traces outer σ₁ (σ₁.bind (bindersOf sig.vararg.toList))
      [] (sig.vararg.forM (Compile.defineLocal · sig.pos)) := by
    intro σ₁ hp
    cases hv : sig.vararg with
    | none => exact .pure _
    | some name =>
      rw [hv] at hvararg
      exact .defineNamed hvararg hp
  have hlast : Traces outer σ' σ' (if sig.kind == .constructor then [.read (.own 0)] else [])
      (Compile.emit (if sig.kind == .constructor then .getLocal 0 else .null) sig.endLine) := by
    split
    · exact .getSlot 0 sig.endLine
    · exact .emit sig.endLine rfl
  have hparameters : Traces outer (Site.entry z)
      (((Site.entry z).bind (sig.params.map Parameter.binder).reverse).bind
        (bindersOf sig.vararg.toList)) [] (emitParameters sig) :=
    .after (.defineParameters hparams hstart 0) fun _ => hrest _ rfl
  refine hparameters.after fun _ => .after (.emitIf _ _ rfl) fun _ => ?_
  exact .bind (.unpackParameters hparams rfl (by omega)) fun _ => hb.bind fun _ =>
    hlast.before fun _ => .emitIf _ _ rfl

/-- A function is compiled to a prototype and a closure of it. -/
theorem Traces.emitFunction {sig : Signature} {body : Context → Gen Unit} {z : Binder} {σ' : Site}
    (hz : z.Names sig.kind.slotZero) (hsig : ordinarySignature sig.params sig.vararg = true)
    (hb : Traces (σ.frame :: outer) (Site.body z sig.params sig.vararg) σ' ts
      (body (ctx.inner sig))) :
    Traces outer σ σ [functionTouches (sig.kind == .constructor) sig.params ts]
      (emitFunction ctx sig body) := by
  intro s u s' hs hr
  rw [emitFunction_eq, ran_bind] at hr
  obtain ⟨defaults, s, hlift, hr⟩ := hr
  obtain ⟨hdefaults, rfl⟩ := ran_lift.1 hlift
  split at hr
  · obtain ⟨_, _, hfail, -⟩ := ran_bind.1 hr
    exact absurd hfail ran_fail
  simp only [ran_bind, ran_beginFunction, ran_beginScope, ran_emit] at hr
  obtain ⟨_, _, rfl, _, _, rfl, _, t₁, hrp, _, t, hrb, _, _, rfl, built, _, hre, index, t', hra, hr⟩ :=
    hr
  have hstart : Sited (σ.frame :: outer) (Site.entry z)
      ⟨{ FunctionState.start sig.kind.slotZero with depth := 1 }, s.current :: s.enclosing⟩ :=
    { locals := ⟨_, rfl, .cons ⟨hz, rfl⟩ .nil⟩
      depth := rfl
      loops := rfl
      slots := (by decide : 1 ≤ FunctionState.maxLocals)
      indices := Nat.zero_le _
      distinct := List.nodup_nil
      pool := Nat.zero_le _
      enclosing := .cons hs.framed hs.enclosing }
  obtain ⟨ht, hmoves⟩ := traces_function hsig (parameterDefaults_ok hdefaults) hb hstart
    (ran_bind.2 ⟨_, t₁, hrp, hrb⟩)
  have hcode := hmoves.rendered [] rfl
  -- the functions around may have captured more by now
  obtain ⟨g, gs, hg, hgs, hencl⟩ := List.forall₂_cons_left_iff.1 hmoves.enclosing
  have hframes := ht.enclosing
  rw [hencl] at hframes
  obtain ⟨hframe, hframes⟩ := List.forall₂_cons.1 hframes
  obtain ⟨-, rfl, rfl⟩ :=
    (ran_endFunction (s := t.withCurrent (t.current.emit .return sig.endLine)) hencl).1 hre
  obtain ⟨hback, hmoves₁⟩ := hs.gains (hg.trans (gains_capture g _)) hgs hframe.indices hframe.distinct hframes
  obtain ⟨hs₁, hmoves₂⟩ := Traces.addConstant _ sig.pos hback hra
  obtain ⟨c, hc, rfl⟩ := ran_addConstant.1 hra
  have hclosure : Touch.Rendered (chainOf g gs) c.constants
      (.closure index t.current.upvalues.toList)
      (functionTouches (sig.kind == .constructor) sig.params ts) := by
    refine ⟨index, _, _, rfl, (Chunk.addConstant?_get hc hback.pool).1, ht.distinct, ?_⟩
    have htouching : (t.chunk.emit .return sig.endLine).touching = t.chunk.touching := by
      rw [Chunk.touching_emit]
      exact List.append_nil _
    unfold CompilerState.Rendered chainOf at hcode
    rw [hencl] at hcode
    simp only [Signature.proto, withCurrent_current, FunctionState.emit_chunk, Chunk.emit_constants,
      htouching]
    exact hcode
  obtain ⟨hs', hmoves₃⟩ := hs₁.emitted (.closure index t.current.upvalues.toList) hclosure.alone
    (ran_emit.2 hr : Ran _ _ u s')
  exact ⟨hs', (hmoves₁.trans hmoves₂).trans hmoves₃⟩

/-- A function has no name for its slot zero. -/
theorem names_function : Binder.hidden.Names FunctionKind.function.slotZero := by
  have hempty : isHidden "" = true := rfl
  exact hempty

/-- Slot zero of a method is the receiver. -/
theorem names_method (name : String) : Binder.receiver.Names
    (if name == "construct" then FunctionKind.constructor else FunctionKind.method).slotZero := by
  split <;> rfl

/-- What surrounds the body of a function. -/
theorem agrees_body {z : Binder} (sig : Signature) :
    Agrees (σ.frame :: outer) (Site.body z sig.params sig.vararg) (ctx.inner sig)
      (.function ((σ.sight outer).body z sig.params sig.vararg) (sig.kind == .constructor)) where
  settled := rfl
  sight := (Site.sight_body z sig.params sig.vararg (σ.sight outer)).symm
  constructs := rfl
  guards := .all nofun

end Emitters

end ScriptEngine.Compile
