import ScriptEngine.Host.Evaluate
import ScriptEngine.Proofs.Conforming
import ScriptEngine.Proofs.Discipline

/-!
# Compiled programs pass the checks

Every generator of the compiler keeps code conforming, by induction on the program tree, so every
prototype of a compiled module passes the structural checks and its forward jumps land on
instructions. No condition on the shape of programs is needed. What is left are two widths: a
function counts its captures in sixteen bits, though the compiler lets it have one more than that,
and a line table counts instructions in thirty-two.
-/

namespace ScriptEngine.Compile

open Bytecode Source

/-! ## Loops and `try` statements -/

section Emitters

variable {α : Type} {g : Bool} {refs : List (UInt16 × ConstantKind)} {ctx : Context}

/-- More constants may be known. -/
theorem Fitting.more {m : Gen α} (h : Fitting g refs m) {r : UInt16 × ConstantKind} :
    Fitting g (r :: refs) m :=
  fun _ _ _ hs hrefs hr => h hs (fun r' hr' => hrefs r' (List.mem_cons_of_mem r hr')) hr

/-- An optional part. -/
theorem Fitting.optional {f : α → Gen PUnit} {o : Option α}
    (hf : ∀ a, o = some a → Fitting g refs (f a)) : Fitting g refs (o.forM f) := by
  cases o with
  | none => exact .pure _
  | some a => exact hf a rfl

/-- An optional part that gives a value. -/
theorem Fitting.optionalMap {β : Type} {f : α → Gen β} {o : Option α}
    (hf : ∀ a, o = some a → Fitting g refs (f a)) : Fitting g refs (o.mapM f) := by
  cases o with
  | none => exact .pure _
  | some a => exact (hf a rfl).map

/-- What follows a refusal does not matter. -/
theorem Fitting.failed {β : Type} {cause : Cause} {pos : Position} {f : β → Gen α} :
    Fitting g refs ((Compile.fail cause pos : Gen β) >>= f) := by
  intro s a s' _ _ hr
  obtain ⟨_, _, hfail, -⟩ := ran_bind.1 hr
  exact absurd hfail ran_fail

/-- What is refused in some cases. -/
theorem Fitting.unless {β : Type} {p : Prop} [Decidable p] {cause : Cause} {pos : Position}
    {f : β → Gen α} {m : Gen α} (hm : Fitting g refs m) :
    Fitting g refs (if p then (Compile.fail cause pos : Gen β) >>= f else m) := .ite .failed hm

/-- A binary operator. -/
theorem Fitting.emitBinary (op : BinaryOp) (line : Nat) : Fitting g refs (emitBinary op line) := by
  have hops : ∀ o ∈ binaryOps op, Fresh g refs o := fresh_binaryOps op
  unfold Compile.emitBinary
  revert hops
  induction binaryOps op with
  | nil => exact fun _ => .pure _
  | cons o os ih =>
    intro hops
    obtain ⟨ho, hos⟩ := List.forall_mem_cons.1 hops
    exact .bind (.emit line ho) fun _ => ih hos

/-- A method call is fresh once its name is known. -/
theorem fresh_invoke (argc : UInt8) (name : UInt16) :
    Fresh g ((name, .name) :: refs) (Op.invoke argc name) := by
  unfold Op.invoke
  split <;> constructor <;> simp [Op.constantOperands, Op.forwardDistance?, refersBack]

/-- So is a call. -/
theorem fresh_call (argc : UInt8) : Fresh g refs (Op.call argc) := by
  unfold Op.call
  split <;> constructor <;> simp [Op.constantOperands, Op.forwardDistance?, refersBack]

/-- A unary operator. -/
theorem Fitting.emitUnary (op : UnaryOp) (pos : Position) : Fitting g refs (emitUnary op pos) := by
  cases op with
  | negate | not | bitNot => exact .emit pos.line (.bare rfl rfl)
  | length | stringify => exact .withName fun i => .emit pos.line (fresh_invoke 0 i)

/-- A change of the innermost loop. -/
theorem Fitting.updateLoop (h : LoopRecord → LoopRecord) : Fitting g refs (updateLoop h) := by
  refine .update fun f hf => ?_
  split <;> exact .of_eq hf rfl rfl rfl

/-- A loop begins. -/
theorem Fitting.beginLoop (ctx : Context) (target : Option Nat) :
    Fitting g refs (beginLoop ctx target) := .update fun _ hf => .of_eq hf rfl rfl rfl

/-- The jumps to the next round are patched. -/
theorem Fitting.patchContinues (pos : Position) : Fitting g refs (patchContinues pos) := by
  refine .bind .get fun s => ?_
  split
  · exact .pure _
  · exact .bind (.patchJumps _ pos) fun _ => .updateLoop _

/-- A loop ends. -/
theorem Fitting.endLoop (pos : Position) : Fitting g refs (endLoop pos) := by
  refine .bind .get fun s => ?_
  split
  · exact .pure _
  · exact .bind (.update fun _ hf => .of_eq hf rfl rfl rfl) fun _ => .patchJumps _ pos

/-- The `ensure` parts that jumps may have to emit keep code conforming. -/
def Context.Fitting (ctx : Context) : Prop :=
  ∀ b ∈ ctx.tries, ∀ e, b.ensure = some e → Compile.Fitting ctx.isGenerator [] e

/-- Leaving `try` statements whose pending parts keep code conforming. -/
theorem Fitting.leaveTries (line : Nat) {tries : List TryBlock}
    (h : ∀ b ∈ tries, ∀ e, b.ensure = some e → Fitting g [] e) :
    Fitting g refs (leaveTries line tries) := by
  induction tries with
  | nil => exact .pure _
  | cons b rest ih =>
    obtain ⟨hb, hrest⟩ := List.forall_mem_cons.1 h
    rw [Compile.leaveTries]
    exact .bind (.discardLocals _ line) fun _ => .bind (.update fun _ hf => .of_eq hf rfl rfl rfl)
      fun _ => .bind (.forM (fun _ => .emit line (.bare rfl rfl)) _) fun _ =>
      .bind (.optional fun e he => (hb e he).weaken) fun _ => ih hrest

/-- Leaving the `try` statements of a context. -/
theorem Fitting.exitTries (hctx : ctx.Fitting) (tryDepth line : Nat) :
    Fitting ctx.isGenerator refs (exitTries ctx tryDepth line) := by
  unfold Compile.exitTries
  split
  · exact .pure _
  · exact .bind .get fun s => .bind
      (.leaveTries line fun b hb e he => hctx b (List.mem_of_mem_take hb) e he)
      fun _ => .update fun _ hf => .of_eq hf rfl rfl rfl

/-- A jump out of a loop. -/
theorem Fitting.emitBreak (hctx : ctx.Fitting) (pos : Position) :
    Fitting ctx.isGenerator refs (emitBreak ctx pos) := by
  refine .bind .get fun s => ?_
  split
  · exact .fail _ _
  · exact .bind (.exitTries hctx _ _) fun _ => .bind (.discardLocals _ _) fun _ =>
      .bind (.emitJump pos.line (.bare rfl rfl)) fun _ => .updateLoop _

/-- A jump to the next round of a loop. -/
theorem Fitting.emitContinue (hctx : ctx.Fitting) (pos : Position) :
    Fitting ctx.isGenerator refs (emitContinue ctx pos) := by
  refine .bind .get fun s => ?_
  split
  · exact .fail _ _
  · refine .bind (.exitTries hctx _ _) fun _ => .bind (.discardLocals _ _) fun _ => ?_
    split
    · exact .emitLoop _ pos
    · exact .bind (.emitJump pos.line (.bare rfl rfl)) fun _ => .updateLoop _

/-- A return with the value on top of the stack. -/
theorem Fitting.emitReturn (ctx : Context) (line : Nat) :
    Fitting ctx.isGenerator refs (emitReturn ctx line) := by
  unfold Compile.emitReturn
  split
  · next h =>
    refine .bind (.emit line ?_) fun _ => .emit line (.bare rfl rfl)
    constructor <;> simp [Op.constantOperands, Op.forwardDistance?, refersBack, h]
  · exact .emit line (.bare rfl rfl)

/-- Generators that keep code conforming wherever they stand in a function of the same kind. -/
def Inherits (ctx : Context) (refs : List (UInt16 × ConstantKind)) (m : Context → Gen Unit) :
    Prop :=
  ∀ ctx' : Context, ctx'.isGenerator = ctx.isGenerator → ctx'.Fitting →
    Fitting ctx.isGenerator refs (m ctx')

/-- A context stays as required in a `try` statement whose pending part is. -/
theorem Context.Fitting.within {pending : Option (Gen Unit)} (hctx : ctx.Fitting)
    (count handlers : Nat) (h : ∀ e, pending = some e → Compile.Fitting ctx.isGenerator [] e) :
    (ctx.within count handlers pending).Fitting := by
  intro b hb e he
  rcases List.mem_cons.1 hb with rfl | hb
  · exact h e he
  · exact hctx b hb e he

/-- The hidden locals of a `try` statement. -/
theorem Fitting.emitHidden (pos : Position) : Fitting g refs (emitHidden pos) :=
  .bind .beginScope fun _ => .bind .localCount fun _ => .bind (.defineLocal _ pos) fun _ =>
    .bind (.defineLocal _ pos) fun _ => .pure _

/-- The instructions around a window. -/
theorem Fitting.emitWindow (line : Nat) : Fitting g refs (emitWindow line) :=
  .bind (.emit line (.bare rfl rfl)) fun _ => .emit line (.bare rfl rfl)

/-- The `ensure` part of a `try` statement. -/
theorem Fitting.emitEnsurePart {ensure : Context → Gen Unit} (hctx : ctx.Fitting)
    (hensure : Inherits ctx refs ensure) (pos : Position) (count setup : Nat) :
    Fitting ctx.isGenerator refs (emitEnsurePart ctx pos count setup ensure) :=
  .bind (.patchJump setup pos) fun _ => .bind (hensure _ rfl (hctx.within count 0 nofun)) fun _ =>
    .bind (.emit pos.line (.bare rfl rfl)) fun _ => .endScope pos.line

/-- The code of a `try` statement with neither part. -/
theorem emitTry_bare (ctx : Context) (pos : Position) (body : Context → Gen Unit) :
    emitTry ctx pos body none none = (do
      let count ← localCount
      body (ctx.within count 0 none)
      let _ ← emitHidden pos
      pure ()) := by
  simp only [emitTry, emitHidden, Option.mapM, Option.isSome, Bool.false_eq_true,
    if_false, bind_assoc, pure_bind, bind_pure_unit]
  rfl

/-- A `try` statement keeps code conforming if its parts do. -/
theorem Fitting.emitTry {pos : Position} {body : Context → Gen Unit}
    {clauses : Option (Context → UInt16 → UInt16 → Gen Unit)} {ensure : Option (Context → Gen Unit)}
    (hctx : ctx.Fitting) (hbody : Inherits ctx refs body)
    (hclauses : ∀ c, clauses = some c → ∀ x y, Inherits ctx refs (c · x y))
    (hensure : ∀ e, ensure = some e → ∀ refs, Inherits ctx refs e) :
    Fitting ctx.isGenerator refs (emitTry ctx pos body clauses ensure) := by
  cases ensure with
  | none =>
    cases clauses with
    | none =>
      rw [emitTry_bare]
      exact .bind .localCount fun count => .bind (hbody _ rfl (hctx.within count 0 nofun)) fun _ =>
        .bind (.emitHidden pos) fun _ => .pure _
    | some clauses =>
      have hclauses := hclauses clauses rfl
      rw [emitTry_clauses]
      exact .bind (.emitJump pos.line (.bare rfl rfl)) fun _ => .bind .localCount fun count =>
        .bind (hbody _ rfl (hctx.within count 1 nofun)) fun _ =>
        .bind (.emit pos.line (.bare rfl rfl)) fun _ =>
        .bind (.emitHidden pos) fun _ => .bind (.emitJump pos.line (.bare rfl rfl)) fun _ =>
        .bind (.patchJump _ pos) fun _ =>
        .bind (hclauses _ _ _ rfl (hctx.within count 0 nofun)) fun _ =>
        .bind (.emit pos.line (.bare rfl rfl)) fun _ => .bind (.endScope pos.line) fun _ =>
        .patchJump _ pos
  | some ensure =>
    have hensure := hensure ensure rfl
    have hinlined : ∀ count handlers, (ctx.within count handlers (some (ensure ctx))).Fitting := by
      refine fun count handlers => hctx.within count handlers ?_
      rintro _ ⟨⟩
      exact hensure [] ctx rfl hctx
    cases clauses with
    | none =>
      rw [emitTry_ensure]
      exact .bind (.emitJump pos.line (.bare rfl rfl)) fun _ => .bind .localCount fun count =>
        .bind (hbody _ rfl (hinlined count 1)) fun _ =>
        .bind (.emit pos.line (.bare rfl rfl)) fun _ =>
        .bind (.emitWindow pos.line) fun _ => .bind (.emitHidden pos) fun _ =>
        .emitEnsurePart hctx (hensure refs) pos _ _
    | some clauses =>
      have hclauses := hclauses clauses rfl
      rw [emitTry_both]
      exact .bind (.emitJump pos.line (.bare rfl rfl)) fun _ =>
          .bind (.emitJump pos.line (.bare rfl rfl)) fun _ =>
        .bind .localCount fun count => .bind (hbody _ rfl (hinlined count 2)) fun _ =>
        .bind (.emit pos.line (.bare rfl rfl)) fun _ =>
        .bind (.emit pos.line (.bare rfl rfl)) fun _ =>
        .bind (.emitWindow pos.line) fun _ => .bind (.emitHidden pos) fun _ =>
        .bind (.emitJump pos.line (.bare rfl rfl)) fun _ => .bind (.patchJump _ pos) fun _ =>
        .bind (hclauses _ _ _ rfl (hinlined count 1)) fun _ =>
        .bind (.emit pos.line (.bare rfl rfl)) fun _ =>
        .bind (.patchJump _ pos) fun _ => .emitEnsurePart hctx (hensure refs) pos _ _

/-! ## Statements -/

variable {pos : Position}

/-- A declaration. -/
theorem Fitting.emitDeclare {names : List String} {initial : Option (Gen Unit)}
    (h : ∀ m, initial = some m → Fitting g refs m) :
    Fitting g refs (emitDeclare pos names initial) := by
  have hbind : ∀ global : Bool, Fitting g refs (if global then
      names.reverse.forM fun name => do Compile.emit (.defineGlobal (← addName name pos)) pos.line
      else updateFunction (·.markInitialized names.length)) := fun _ =>
    .ite (.forM (fun _ => .withName fun _ =>
    .emit pos.line (.naming rfl rfl List.mem_cons_self)) _) (.markInitialized _)
  unfold Compile.emitDeclare
  refine .bind .atTopLevel fun global => ?_
  cases initial with
  | none =>
    exact .ite (.bind (.forM (.declare · pos) names) fun _ =>
        .bind (.forM (fun _ => .emit pos.line (.bare rfl rfl)) _) fun _ => hbind global)
      (.bind (.forM (fun _ => .emit pos.line (.bare rfl rfl)) _) fun _ => hbind global)
  | some value =>
    refine .ite (.bind (.forM (.declare · pos) names) fun _ => ?_) ?_ <;>
      exact (h value rfl).bind fun _ => .ite
        (.unless (.bind (.emit pos.line (.bare rfl rfl)) fun _ => hbind global)) (hbind global)

/-- A branch. -/
theorem Fitting.emitBranch {condition thenBranch : Gen Unit} {elseBranch : Option (Gen Unit)}
    (hc : Fitting g refs condition) (ht : Fitting g refs thenBranch)
    (he : ∀ m, elseBranch = some m → Fitting g refs m) :
    Fitting g refs (emitBranch pos condition thenBranch elseBranch) := by
  unfold Compile.emitBranch
  refine hc.bind fun _ => .bind (.emitJump pos.line (.bare rfl rfl)) fun _ => ht.bind fun _ => ?_
  cases elseBranch with
  | none => exact .patchJump _ pos
  | some other =>
    exact .bind (.emitJump pos.line (.bare rfl rfl)) fun _ => .bind (.patchJump _ pos) fun _ =>
      .bind (he other rfl) fun _ => .patchJump _ pos

/-- A `while` loop. -/
theorem Fitting.emitWhile {condition body : Gen Unit} (ctx : Context)
    (hc : Fitting g refs condition) (hb : Fitting g refs body) :
    Fitting g refs (emitWhile ctx pos condition body) :=
  .bind .offset fun _ => .bind (.beginLoop ctx _) fun _ => hc.bind fun _ =>
    .bind (.emitJump pos.line (.bare rfl rfl)) fun _ => hb.bind fun _ =>
    .bind (.emitLoop _ pos) fun _ =>
    .bind (.patchJump _ pos) fun _ => .endLoop pos

/-- A `for` loop. -/
theorem Fitting.emitFor {initial condition step : Option (Gen Unit)} {body : Gen Unit}
    (ctx : Context) (hi : ∀ m, initial = some m → Fitting g refs m)
    (hc : ∀ m, condition = some m → Fitting g refs m)
    (hs : ∀ m, step = some m → Fitting g refs m) (hb : Fitting g refs body) :
    Fitting g refs (emitFor ctx pos initial condition step body) :=
  .bind .beginScope fun _ => .bind (.optional hi) fun _ => .bind .offset fun _ =>
    .bind (.optionalMap fun m hm => (hc m hm).bind fun _ =>
    .emitJump pos.line (.bare rfl rfl)) fun _ =>
    .bind (.beginLoop ctx _) fun _ => hb.bind fun _ => .bind (.patchContinues pos) fun _ =>
    .bind (.optional fun m hm => (hs m hm).bind fun _ => .emit pos.line (.bare rfl rfl)) fun _ =>
    .bind (.emitLoop _ pos) fun _ => .bind (.optional fun _ _ => .patchJump _ pos) fun _ =>
    .bind (.endLoop pos) fun _ => .endScope pos.line

/-- An iteration. -/
theorem Fitting.emitForEach {names : List String} {iterable body : Gen Unit} (ctx : Context)
    (hi : Fitting g refs iterable) (hb : Fitting g refs body) :
    Fitting g refs (emitForEach ctx pos names iterable body) := by
  have hround : ∀ start exit, Fitting g refs (do
      names.forM fun name => updateFunctionM (·.declare name pos)
      updateFunction (·.markInitialized names.length)
      body
      Compile.endScope pos.line
      Compile.emitLoop start pos
      Compile.patchJump exit pos
      Compile.endLoop pos
      Compile.endScope pos.line) := fun start exit =>
    .bind (.forM (.declare · pos) names) fun _ => .bind (.markInitialized _) fun _ =>
      hb.bind fun _ => .bind (.endScope pos.line) fun _ => .bind (.emitLoop start pos) fun _ =>
      .bind (.patchJump exit pos) fun _ => .bind (.endLoop pos) fun _ => .endScope pos.line
  unfold Compile.emitForEach
  exact .bind .beginScope fun _ => hi.bind fun _ => .bind (.defineLocal _ pos) fun _ =>
    .bind (.emit pos.line (.bare rfl rfl)) fun _ => .bind (.defineLocal _ pos) fun _ =>
    .bind (.emit pos.line (.bare rfl rfl)) fun _ => .bind (.defineLocal _ pos) fun _ =>
    .bind (.defineLocal _ pos) fun _ => .bind .offset fun _ => .bind (.beginLoop ctx _) fun _ =>
    .bind (.emit pos.line (.bare rfl rfl)) fun _ =>
    .bind (.emitJump pos.line (.bare rfl rfl)) fun _ =>
    .bind .beginScope fun _ => .ite
      (.unless (.bind (.emit pos.line (.bare rfl rfl)) fun _ => hround _ _)) (hround _ _)

/-- An `except` clause. -/
theorem Fitting.emitClause {x y : UInt16} {binder : String} {exceptionClass body : Gen Unit}
    (hc : Fitting g refs exceptionClass) (hb : Fitting g refs body) (hasNext : Bool) :
    Fitting g refs (emitClause pos x y binder exceptionClass body hasNext) := by
  unfold Compile.emitClause
  exact .bind (.emit pos.line (.bare rfl rfl)) fun _ => hc.bind fun _ =>
      .bind (.emit pos.line (.bare rfl rfl)) fun _ =>
    .bind (.emitJump pos.line (.bare rfl rfl)) fun _ => .bind .beginScope fun _ =>
    .bind (.emit pos.line (.bare rfl rfl)) fun _ =>
    .bind (.defineLocal _ pos) fun _ => hb.bind fun _ =>
    .bind (.emit pos.line (.bare rfl rfl)) fun _ =>
    .bind (.emit pos.line (.bare rfl rfl)) fun _ => .bind (.emit pos.line (.bare rfl rfl)) fun _ =>
    .bind (.endScope pos.line) fun _ => .ite
      (.bind (.map (.emitJump pos.line (.bare rfl rfl))) fun _ => .bind (.patchJump _ pos) fun _ =>
      .pure _)
      (.bind (.pure _) fun _ => .bind (.patchJump _ pos) fun _ => .pure _)

/-- Closing the resource of a variable. -/
theorem Fitting.emitClose (name : String) : Fitting g refs (emitClose pos name) :=
  .emitBranch (.getVariable name pos)
    (.bind (.getVariable name pos) fun _ => .withName fun i =>
      .bind (.emit pos.line (fresh_invoke 0 i)) fun _ => .emit pos.line (.bare rfl rfl)) nofun

/-- A `with` statement. -/
theorem Fitting.emitWith {name : String} {value body : Context → Gen Unit} (hctx : ctx.Fitting)
    (hv : Inherits ctx refs value) (hb : Inherits ctx refs body) :
    Fitting ctx.isGenerator refs (emitWith ctx pos name value body) := by
  refine .inScope pos.line (.bind (.emitDeclare nofun) fun _ => .emitTry hctx ?_ nofun ?_)
  · intro ctx' hg hctx'
    exact .inScope pos.line (.bind (hv ctx' hg hctx') fun _ =>
      .bind (.setVariable name pos) fun _ => .bind (.emit pos.line (.bare rfl rfl)) fun _ =>
      hb ctx' hg hctx')
  · rintro _ ⟨⟩ refs ctx' _ _
    exact .emitClose name

/-- A class declaration. -/
theorem Fitting.emitClass {name : String} {superclass methods : Gen Unit}
    (hs : Fitting g refs superclass) (hm : Fitting g refs methods) :
    Fitting g refs (emitClass pos name superclass methods) := by
  unfold Compile.emitClass
  exact .withName fun _ => .bind (.emit pos.line (.naming rfl rfl List.mem_cons_self)) fun _ =>
      .bind (.defineVariable name pos) fun _ =>
    .bind .beginScope fun _ => hs.more.bind fun _ => .bind (.defineLocal _ pos) fun _ =>
    .bind (.getVariable name pos) fun _ => .bind (.emit pos.line (.bare rfl rfl)) fun _ =>
    hm.more.bind fun _ =>
    .bind (.emit pos.line (.bare rfl rfl)) fun _ => .endScope pos.line

/-- An import. -/
theorem Fitting.emitImport (d : Import) : Fitting g refs (emitImport pos d) := by
  unfold Compile.emitImport
  refine .withName fun m => ?_
  have hpop (rs) : Fitting g rs (Compile.emit .pop pos.line) := .emit pos.line (.bare rfl rfl)
  split
  · exact .bind (.emit pos.line (.naming rfl rfl List.mem_cons_self)) fun _ =>
      .bind (hpop _) fun _ => .defineVariable _ pos
  · exact .bind (.emit pos.line (.naming rfl rfl List.mem_cons_self)) fun _ => .bind (hpop _) fun _ =>
      .forM (fun name => .withName fun _ =>
        .bind (.emit pos.line (fresh_of_operands rfl (by simp [Op.constantOperands]))) fun _ =>
        .defineVariable name pos) _
  · exact .bind (.emit pos.line (.naming rfl rfl List.mem_cons_self)) fun _ =>
      .bind (hpop _) fun _ => .emit pos.line (.naming rfl rfl List.mem_cons_self)

/-- A return. -/
theorem Fitting.emitReturnStmt {value : Option (Gen Unit)}
    (hv : ∀ m, value = some m → Fitting ctx.isGenerator refs m) :
    Fitting ctx.isGenerator refs (emitReturnStmt ctx pos value) := by
  unfold Compile.emitReturnStmt
  split
  · exact .failed
  · exact .failed
  · exact .bind (.emit pos.line (.bare rfl rfl)) fun _ => .emitReturn ctx pos.line
  · exact .bind (hv _ rfl) fun _ => .emitReturn ctx pos.line
  · exact .bind (.emit pos.line (.bare rfl rfl)) fun _ => .emitReturn ctx pos.line

/-- The empty list that items are added to. -/
theorem Fitting.emitListStart (items : List Expr) : Fitting g refs (emitListStart items) := by
  cases items with
  | nil => exact .pure _
  | cons e _ => exact .emit e.pos.line (.bare rfl rfl)

/-- The name of the superclass method. -/
theorem Fitting.superName (ctx : Context) (method : Option String) (pos : Position) :
    Fitting g refs (superName ctx method pos) := by
  unfold Compile.superName
  split
  · exact .fail _ _
  · exact .pure _

/-! ## Functions -/

/-- There are no more defaults than parameters. -/
theorem collectDefaults_size {found ds : Array Constant} {params : List Parameter}
    (h : collectDefaults pos found params = .ok ds) : ds.size ≤ found.size + params.length := by
  induction params generalizing found with
  | nil =>
    cases h
    exact Nat.le_refl _
  | cons p rest ih =>
    rw [List.length_cons]
    rw [collectDefaults] at h
    split at h
    · split at h
      · have := ih h
        rw [Array.size_push] at this
        omega
      · cases h
    · split at h
      · have := ih h
        omega
      · cases h

/-- A parameter has at most one default, and parameters can be counted. -/
theorem parameterDefaults_size {params : List Parameter} {ds : Array Constant}
    (h : parameterDefaults params pos = .ok ds) : ds.size ≤ (UInt8.ofNat params.length).toNat := by
  rw [toNat_arguments (parameterDefaults_ok h)]
  unfold parameterDefaults at h
  split at h
  · cases h
  · have := collectDefaults_size h
    rwa [Array.size_empty, Nat.zero_add] at this

/-- Parameters are declared. -/
theorem Fitting.defineParameters (i : Nat) (params : List Parameter) :
    Fitting g refs (defineParameters pos i params) := by
  induction params generalizing i with
  | nil => exact .pure _
  | cons p params ih => exact .bind (.defineLocal _ pos) fun _ => ih (i + 1)

/-- Parameters are unpacked. -/
theorem Fitting.unpackParameters (i : Nat) (params : List Parameter) :
    Fitting g refs (unpackParameters pos i params) := by
  induction params generalizing i with
  | nil => exact .pure _
  | cons p params ih =>
    rw [Compile.unpackParameters]
    exact .ite (.unless (.bind (.emit pos.line (.bare rfl rfl)) fun _ =>
        .bind (.emit pos.line (.bare rfl rfl)) fun _ =>
      .bind (.forM (.defineLocal · pos) _) fun _ => ih (i + 1))) (ih (i + 1))

/-- The code before the body of a function. -/
theorem Fitting.emitParameters (sig : Signature) : Fitting g refs (emitParameters sig) :=
  .bind (.defineParameters 0 _) fun _ => .optional fun _ _ => .defineLocal _ _

/-- From its first instruction on, a generator may yield. -/
theorem conforming_mark {s s' : CompilerState} {u : Unit} {line : Nat} (hs : s.Conforming false)
    (hr : Ran (emitIf g .generator line) s u s') : s'.Conforming g ∧ Onward s s' := by
  cases g with
  | false =>
    obtain ⟨-, rfl⟩ := ran_pure.1 hr
    exact ⟨hs, .refl _⟩
  | true =>
    have hemit : Fitting false [] (Compile.emit .generator line) := .emit line (.bare rfl rfl)
    obtain ⟨hs', hon⟩ := hemit hs nofun hr
    obtain rfl := ran_emit.1 hr
    refine ⟨⟨{ hs'.code with code := ?_, marked := fun _ => ?_ }, hs'.chained⟩, hon⟩
    · exact fun offset op hop => { hs'.code.code offset op hop with yields := fun _ => rfl }
    · rw [CompilerState.chunk, withCurrent_current, FunctionState.emit_chunk, Chunk.emit_code]
      exact Array.mem_push_self

/-- The code of a function behind its mark, up to the `return` at its end. -/
theorem fitting_body {sig : Signature} {body : Context → Gen Unit}
    (hbody : ∀ ctx' : Context, ctx'.Fitting → Fitting ctx'.isGenerator [] (body ctx')) :
    Fitting sig.isGenerator [] (do
      unpackParameters sig.pos 0 sig.params
      body (ctx.inner sig)
      Compile.emit (if sig.kind == .constructor then .getLocal 0 else .null) sig.endLine
      emitIf sig.isGenerator .generatorClose sig.endLine) := by
  refine .bind (.unpackParameters 0 _) fun _ => .bind (hbody (ctx.inner sig) nofun) fun _ =>
    .bind (.emit sig.endLine ?_) fun _ => ?_
  · split <;> constructor <;> simp [Op.constantOperands, Op.forwardDistance?, refersBack]
  · unfold emitIf
    split
    · next h =>
      refine .emit sig.endLine ?_
      constructor <;> simp [Op.constantOperands, Op.forwardDistance?, refersBack, h]
    · exact .pure _

/-- A function is compiled to a finished prototype and a closure of it. -/
theorem Fitting.emitFunction {sig : Signature} {body : Context → Gen Unit}
    (hbody : ∀ ctx' : Context, ctx'.Fitting → Fitting ctx'.isGenerator [] (body ctx')) :
    Fitting g refs (emitFunction ctx sig body) := by
  intro s u s' hs _ hr
  rw [emitFunction_eq, ran_bind] at hr
  obtain ⟨defaults, s, hlift, hr⟩ := hr
  obtain ⟨hdefaults, rfl⟩ := ran_lift.1 hlift
  split at hr
  · obtain ⟨_, _, hfail, -⟩ := ran_bind.1 hr
    exact absurd hfail ran_fail
  simp only [ran_bind, ran_beginFunction, ran_beginScope, ran_emit] at hr
  obtain ⟨_, _, rfl, _, _, rfl, _, t₁, hrp, _, t₃, hrb, _, _, rfl, built, t₄, hre, index, t₅, hra,
    rfl⟩ := hr
  unfold emitBody at hrb
  obtain ⟨_, t₂, hrm, hrb⟩ := ran_bind.1 hrb
  have hstart : CompilerState.Conforming false
      ⟨{ FunctionState.start sig.kind.slotZero with depth := 1 }, s.current :: s.enclosing⟩ :=
    ⟨Chunk.conforming_empty _, ⟨Nat.zero_le _, nofun⟩, hs.chained⟩
  have hparams : Fitting false [] (Compile.emitParameters sig) := .emitParameters sig
  obtain ⟨ht₁, hon₁⟩ := hparams hstart nofun hrp
  obtain ⟨ht₂, hon₂⟩ := conforming_mark ht₁ hrm
  obtain ⟨ht₃, hon₃⟩ := fitting_body hbody ht₂ nofun hrb
  -- the function around may have captured more by now
  have hon := (hon₁.trans hon₂).trans hon₃
  obtain ⟨outer, rest, hout, hrest, hencl⟩ := List.forall₂_cons_left_iff.1 hon.enclosing
  obtain ⟨hcounted, rfl, rfl⟩ :=
    (ran_endFunction (s := t₃.withCurrent (t₃.current.emit .return sig.endLine)) hencl).1 hre
  obtain ⟨hfin, hdeep⟩ := ht₃.code.finished
    (p := sig.proto defaults (t₃.current.emit .return sig.endLine)) rfl hcounted rfl
    (parameterDefaults_size hdefaults)
  have hchain : Chained t₃.current (outer :: rest) := hencl ▸ ht₃.chained
  obtain ⟨c, hc, rfl⟩ := ran_addConstant.1 hra
  have hcode : outer.chunk.Conforming outer.upvalues.size g outer.overflowed :=
    hout.chunk ▸ hout.overflowed ▸ hs.code.widen hout.upvalues
  have hlimit : t₃.current.upvalues.toList.length ≤ FunctionState.maxUpvalues := by
    rw [Array.length_toList]
    exact hchain.1.limit
  have hclosure := hcode.closure hc (by rwa [← Array.length_toList] at hfin) hlimit hdeep
    (fun x hx hl => hchain.1.known x (Array.mem_toList_iff.1 hx) hl) sig.pos.line
  have hpool : PoolKept s.chunk.constants
      (c.emit (.closure index t₃.current.upvalues.toList) sig.pos.line).constants := by
    rw [Chunk.emit_constants]
    exact hout.kept.trans (Chunk.kept_addConstant hc)
  exact ⟨⟨hclosure, hchain.2.congr rfl⟩, hpool, hrest⟩

/-- What follows the entry of a host function's signature may refer to it. -/
theorem Fitting.withNative {decl : NativeDecl} {f : UInt16 → Gen α}
    (hf : ∀ i, Fitting g ((i, .native) :: refs) (f i)) :
    Fitting g refs (nativeConstant decl >>= f) := by
  unfold nativeConstant
  split
  · exact .failed
  · rw [bind_assoc]
    exact .bind (.lift _) fun _ => .withConstant nofun rfl hf

end Emitters

/-! ## Induction on the program tree -/

section Induction

variable {refs : List (UInt16 × ConstantKind)}

/-- Items collected in a list, or pushed one after another. -/
theorem Fitting.items {ctx : Context} {items : List Expr} {cause : Cause} {pos : Position}
    {limit : Nat} {collected counted : Gen Unit}
    (hspread : Fitting ctx.isGenerator refs (compileSpread ctx items))
    (hitems : Fitting ctx.isGenerator refs (compileExprs ctx items))
    (hcollected : Fitting ctx.isGenerator refs collected)
    (hcounted : Fitting ctx.isGenerator refs counted) :
    Fitting ctx.isGenerator refs (if hasSpread items = true then do
        Compile.emitListStart items
        compileSpread ctx items
        collected
      else do
        if items.length > limit then Compile.fail cause pos
        compileExprs ctx items
        counted) :=
  .ite (.bind (.emitListStart items) fun _ => hspread.bind fun _ => hcollected)
    (.unless (hitems.bind fun _ => hcounted))

/-- A call of something that is no method. -/
theorem fitting_call {ctx : Context} {pos : Position} {callee : Expr} {arguments : List Expr}
    (hcallee : Fitting ctx.isGenerator refs (compileExpr ctx callee))
    (hspread : Fitting ctx.isGenerator refs (compileSpread ctx arguments))
    (hitems : Fitting ctx.isGenerator refs (compileExprs ctx arguments))
    (hmethod : ∀ pos object name, callee = .member pos object name → False) :
    Fitting ctx.isGenerator refs (compileExpr ctx (.call pos callee arguments)) := by
  rw [compileExpr]
  · exact hcallee.bind fun _ =>
      .items hspread hitems (.emit pos.line (.bare rfl rfl)) (.emit pos.line (fresh_call _))
  · exact hmethod

/-- A `try` statement with any of its parts. -/
theorem fitting_guarded {ctx : Context} {pos : Position} {body : Stmt} {clauses : List ExceptClause}
    {ensure : Option Stmt} (hctx : ctx.Fitting) (hbody : Inherits ctx refs (compileStmt · body))
    (hclauses : ∀ x y, Inherits ctx refs fun ctx' =>
      compileClauses ctx' x y clauses >>= fun exits => patchJumps exits ⟨0, 0⟩)
    (hensure : ∀ s, ensure = some s → ∀ refs, Inherits ctx refs (compileStmt · s)) :
    Fitting ctx.isGenerator refs (compileStmt ctx (.guarded pos body clauses ensure)) := by
  have hsome : ∀ c, some (fun ctx' x y => compileClauses ctx' x y clauses >>= fun exits =>
      patchJumps exits ⟨0, 0⟩) = some c → ∀ x y, Inherits ctx refs (c · x y) := by
    rintro _ ⟨⟩
    exact hclauses
  have hpart : ∀ s, ensure = some s → ∀ e, some (fun ctx' => compileStmt ctx' s) = some e →
      ∀ refs, Inherits ctx refs e := by
    rintro s hs _ ⟨⟩
    exact hensure s hs
  cases ensure with
  | none =>
    cases clauses with
    | nil => exact .emitTry hctx hbody nofun nofun
    | cons clause clauses => exact .emitTry hctx hbody hsome nofun
  | some s =>
    cases clauses with
    | nil => exact .emitTry hctx hbody nofun (hpart s rfl)
    | cons clause clauses => exact .emitTry hctx hbody hsome (hpart s rfl)

mutual

/-- Expressions keep code conforming. -/
theorem fitting_compileExpr (ctx : Context) (e : Expr) (refs : List (UInt16 × ConstantKind))
    (hctx : ctx.Fitting) : Fitting ctx.isGenerator refs (compileExpr ctx e) := by
  match e with
  | .number pos n =>
    rw [compileExpr]
    exact .emitConstant (by nofun) pos
  | .string pos s =>
    rw [compileExpr]
    exact .emitConstant (by nofun) pos
  | .bool pos b =>
    rw [compileExpr]
    cases b <;> exact .emit pos.line (.bare rfl rfl)
  | .null pos =>
    rw [compileExpr]
    exact .emit pos.line (.bare rfl rfl)
  | .ident pos name =>
    rw [compileExpr]
    exact .getVariable name pos
  | .receiver pos =>
    rw [compileExpr]
    exact .ite (.fail _ _) (.getVariable _ pos)
  | .binary pos op left right =>
    rw [compileExpr]
    have hl := fitting_compileExpr ctx left refs hctx
    have hr := fitting_compileExpr ctx right refs hctx
    exact hl.bind fun _ => hr.bind fun _ => .emitBinary op pos.line
  | .unary pos op operand =>
    rw [compileExpr]
    have ho := fitting_compileExpr ctx operand refs hctx
    exact ho.bind fun _ => .emitUnary op pos
  | .conj pos left right =>
    rw [compileExpr]
    have hl := fitting_compileExpr ctx left refs hctx
    have hr := fitting_compileExpr ctx right refs hctx
    exact hl.bind fun _ => .bind (.emit pos.line (.bare rfl rfl)) fun _ =>
        .bind (.emitJump pos.line (.bare rfl rfl)) fun _ =>
      .bind (.emit pos.line (.bare rfl rfl)) fun _ => hr.bind fun _ => .patchJump _ pos
  | .disj pos left right =>
    rw [compileExpr]
    have hl := fitting_compileExpr ctx left refs hctx
    have hr := fitting_compileExpr ctx right refs hctx
    exact hl.bind fun _ => .bind (.emit pos.line (.bare rfl rfl)) fun _ =>
        .bind (.emitJump pos.line (.bare rfl rfl)) fun _ =>
      .bind (.emit pos.line (.bare rfl rfl)) fun _ => hr.bind fun _ => .patchJump _ pos
  | .conditional pos condition thenExpr elseExpr =>
    rw [compileExpr]
    have hc := fitting_compileExpr ctx condition refs hctx
    have ht := fitting_compileExpr ctx thenExpr refs hctx
    have he := fitting_compileExpr ctx elseExpr refs hctx
    refine .emitBranch hc ht ?_
    rintro _ ⟨⟩
    exact he
  | .assign pos target value =>
    have hvalue := fitting_compileExpr ctx value refs hctx
    cases target with
    | ident pos name =>
      rw [compileExpr]
      exact hvalue.bind fun _ => .setVariable name pos
    | member pos object name =>
      rw [compileExpr]
      have hobject := fitting_compileExpr ctx object refs hctx
      exact hobject.bind fun _ => hvalue.bind fun _ => .withName fun _ =>
          .emit pos.line (.naming rfl rfl List.mem_cons_self)
    | index pos object index =>
      rw [compileExpr]
      have hobject := fitting_compileExpr ctx object refs hctx
      have hindex := fitting_compileExpr ctx index refs hctx
      exact hobject.bind fun _ => hindex.bind fun _ => hvalue.bind fun _ =>
          .emit pos.line (.bare rfl rfl)
    | _ =>
      simp only [compileExpr]
      exact .fail _ _
  | .compound pos op target value =>
    have hvalue := fitting_compileExpr ctx value refs hctx
    cases target with
    | ident pos name =>
      rw [compileExpr]
      exact .bind (.getVariable name pos) fun _ => hvalue.bind fun _ =>
        .bind (.emitBinary op pos.line) fun _ => .setVariable name pos
    | member pos object name =>
      rw [compileExpr]
      have hobject := fitting_compileExpr ctx object refs hctx
      exact .withName fun _ => hobject.more.bind fun _ =>
          .bind (.emit pos.line (.bare rfl rfl)) fun _ =>
        .bind (.emit pos.line (.naming rfl rfl List.mem_cons_self)) fun _ =>
        hvalue.more.bind fun _ =>
        .bind (.emitBinary op pos.line) fun _ => .emit pos.line (.naming rfl rfl List.mem_cons_self)
    | index pos object index =>
      rw [compileExpr]
      have hobject := fitting_compileExpr ctx object refs hctx
      have hindex := fitting_compileExpr ctx index refs hctx
      exact hobject.bind fun _ => hindex.bind fun _ =>
          .bind (.emit pos.line (.bare rfl rfl)) fun _ =>
        .bind (.emit pos.line (.bare rfl rfl)) fun _ => hvalue.bind fun _ =>
        .bind (.emitBinary op pos.line) fun _ => .emit pos.line (.bare rfl rfl)
    | _ =>
      simp only [compileExpr]
      exact .fail _ _
  | .call pos callee arguments =>
    have hspread := fitting_compileSpread ctx arguments refs hctx
    have hitems := fitting_compileExprs ctx arguments refs hctx
    have hcallee := fitting_compileExpr ctx callee refs hctx
    cases callee with
    | member mpos object name =>
      rw [compileExpr]
      have hobject := fitting_compileExpr ctx object refs hctx
      exact hobject.bind fun _ => .items hspread hitems (.withName fun _ =>
          .emit pos.line (.naming rfl rfl List.mem_cons_self))
        (.withName fun i => .emit pos.line (fresh_invoke _ i))
    | _ => exact fitting_call hcallee hspread hitems nofun
  | .member pos object name =>
    rw [compileExpr]
    have hobject := fitting_compileExpr ctx object refs hctx
    exact hobject.bind fun _ => .withName fun _ =>
        .emit pos.line (.naming rfl rfl List.mem_cons_self)
  | .index pos object index =>
    rw [compileExpr]
    have hobject := fitting_compileExpr ctx object refs hctx
    have hindex := fitting_compileExpr ctx index refs hctx
    exact hobject.bind fun _ => hindex.bind fun _ => .emit pos.line (.bare rfl rfl)
  | .superCall pos method arguments =>
    rw [compileExpr]
    have hspread := fitting_compileSpread ctx arguments refs hctx
    have hitems := fitting_compileExprs ctx arguments refs hctx
    exact .bind (.superName ctx method pos) fun name => .bind (.getVariable _ pos) fun _ =>
      .items hspread hitems
        (.bind (.getVariable _ pos) fun _ => .withName fun _ =>
        .emit pos.line (.naming rfl rfl List.mem_cons_self))
        (.bind (.getVariable _ pos) fun _ => .withName fun _ =>
        .emit pos.line (.naming rfl rfl List.mem_cons_self))
  | .superMember pos method =>
    rw [compileExpr]
    exact .bind (.superName ctx method pos) fun name => .bind (.getVariable _ pos) fun _ =>
      .unless (.bind (.getVariable _ pos) fun _ => .withName fun _ =>
      .emit pos.line (.naming rfl rfl List.mem_cons_self))
  | .list pos items =>
    rw [compileExpr]
    have hspread := fitting_compileSpread ctx items refs hctx
    have hitems := fitting_compileExprs ctx items refs hctx
    exact .ite (.bind (.emitListStart items) fun _ => hspread)
      (.unless (hitems.bind fun _ => .emit pos.line (.bare rfl rfl)))
  | .tuple pos items =>
    rw [compileExpr]
    have hspread := fitting_compileSpread ctx items refs hctx
    have hitems := fitting_compileExprs ctx items refs hctx
    exact .items hspread hitems (.emit pos.line (.bare rfl rfl)) (.emit pos.line (.bare rfl rfl))
  | .table pos entries =>
    rw [compileExpr]
    have hentries := fitting_compileEntries ctx entries refs hctx
    exact .unless (hentries.bind fun _ => .emit pos.line (.bare rfl rfl))
  | .function pos ⟨name, params, vararg, body, declPos⟩ =>
    rw [compileExpr]
    exact .emitFunction fun ctx' hctx' => fitting_compileStmts ctx' body [] hctx'
  | .spread pos inner =>
    rw [compileExpr]
    exact .fail _ _
  | .yield pos value =>
    rw [compileExpr]
    split
    · exact .failed
    · next hg =>
      have hg : ctx.isGenerator = true := by simpa using hg
      have hyield : Fitting ctx.isGenerator refs (emit .yield pos.line) := by
        refine .emit pos.line ?_
        constructor <;> simp [Op.constantOperands, Op.forwardDistance?, refersBack, hg]
      cases value with
      | none => exact .bind (.emit pos.line (.bare rfl rfl)) fun _ => hyield
      | some value => exact (fitting_compileExpr ctx value refs hctx).bind fun _ => hyield

/-- Expressions one after another keep code conforming. -/
theorem fitting_compileExprs (ctx : Context) (es : List Expr) (refs : List (UInt16 × ConstantKind))
    (hctx : ctx.Fitting) : Fitting ctx.isGenerator refs (compileExprs ctx es) := by
  match es with
  | [] =>
    rw [compileExprs]
    exact .pure _
  | e :: rest =>
    rw [compileExprs]
    have hrest := fitting_compileExprs ctx rest refs hctx
    exact (fitting_compileExpr ctx e refs hctx).bind fun _ => hrest

/-- So do items added to a list. -/
theorem fitting_compileSpread (ctx : Context) (es : List Expr) (refs : List (UInt16 × ConstantKind))
    (hctx : ctx.Fitting) : Fitting ctx.isGenerator refs (compileSpread ctx es) := by
  match es with
  | [] =>
    rw [compileSpread]
    exact .pure _
  | e :: rest =>
    have hrest := fitting_compileSpread ctx rest refs hctx
    have he := fitting_compileExpr ctx e refs hctx
    cases e with
    | spread pos inner =>
      rw [compileSpread]
      have hinner := fitting_compileExpr ctx inner refs hctx
      exact hinner.bind fun _ => .bind (.emit pos.line (.bare rfl rfl)) fun _ => hrest
    | _ =>
      rw [compileSpread]
      · exact he.bind fun _ => .bind (.emit _ (.bare rfl rfl)) fun _ => hrest
      · nofun

/-- So do the entries of a table. -/
theorem fitting_compileEntries (ctx : Context) (entries : List (Expr × Expr))
    (refs : List (UInt16 × ConstantKind)) (hctx : ctx.Fitting) :
    Fitting ctx.isGenerator refs (compileEntries ctx entries) := by
  match entries with
  | [] =>
    rw [compileEntries]
    exact .pure _
  | (k, v) :: rest =>
    rw [compileEntries]
    have hkey := fitting_compileExpr ctx k refs hctx
    have hvalue := fitting_compileExpr ctx v refs hctx
    have hrest := fitting_compileEntries ctx rest refs hctx
    exact hkey.bind fun _ => hvalue.bind fun _ => hrest

/-- Statements keep code conforming. -/
theorem fitting_compileStmt (ctx : Context) (s : Stmt) (refs : List (UInt16 × ConstantKind))
    (hctx : ctx.Fitting) : Fitting ctx.isGenerator refs (compileStmt ctx s) := by
  match s with
  | .expression pos e =>
    exact (fitting_compileExpr ctx e refs hctx).bind fun _ => .emit pos.line (.bare rfl rfl)
  | .declare pos names (some e) =>
    have he := fitting_compileExpr ctx e refs hctx
    refine .emitDeclare ?_
    rintro _ ⟨⟩
    exact he
  | .declare pos names none => exact .emitDeclare nofun
  | .block pos body => exact .inScope pos.line (fitting_compileStmts ctx body refs hctx)
  | .branch pos c t (some e) =>
    have hc := fitting_compileExpr ctx c refs hctx
    have ht := fitting_compileStmt ctx t refs hctx
    have he := fitting_compileStmt ctx e refs hctx
    refine .emitBranch hc ht ?_
    rintro _ ⟨⟩
    exact he
  | .branch pos c t none =>
    have hc := fitting_compileExpr ctx c refs hctx
    have ht := fitting_compileStmt ctx t refs hctx
    exact .emitBranch hc ht nofun
  | .whileLoop pos c body =>
    have hc := fitting_compileExpr ctx c refs hctx
    have hb := fitting_compileStmt ctx body refs hctx
    exact .emitWhile ctx hc hb
  | .forLoop pos initial condition step body =>
    have hb := fitting_compileStmt ctx body refs hctx
    rw [compileStmt_forLoop]
    refine .emitFor ctx ?_ ?_ ?_ hb
    · cases initial with
      | none => nofun
      | some s =>
        have hs := fitting_compileStmt ctx s refs hctx
        rintro _ ⟨⟩
        exact hs
    · cases condition with
      | none => nofun
      | some e =>
        have he := fitting_compileExpr ctx e refs hctx
        rintro _ ⟨⟩
        exact he
    · cases step with
      | none => nofun
      | some e =>
        have he := fitting_compileExpr ctx e refs hctx
        rintro _ ⟨⟩
        exact he
  | .forEach pos names iterable body =>
    have hi := fitting_compileExpr ctx iterable refs hctx
    have hb := fitting_compileStmt ctx body refs hctx
    exact .emitForEach ctx hi hb
  | .breakLoop pos => exact .emitBreak hctx pos
  | .continueLoop pos => exact .emitContinue hctx pos
  | .returnValue pos (some e) =>
    have he := fitting_compileExpr ctx e refs hctx
    refine .emitReturnStmt ?_
    rintro _ ⟨⟩
    exact he
  | .returnValue pos none => exact .emitReturnStmt nofun
  | .raise pos e =>
    exact (fitting_compileExpr ctx e refs hctx).bind fun _ => .emit pos.line (.bare rfl rfl)
  | .guarded pos body clauses ensure =>
    have hbody : Inherits ctx refs (compileStmt · body) := fun ctx' hg hctx' =>
      hg ▸ fitting_compileStmt ctx' body refs hctx'
    have hclauses : ∀ x y, Inherits ctx refs fun ctx' =>
        compileClauses ctx' x y clauses >>= fun exits => patchJumps exits ⟨0, 0⟩ := by
      intro x y ctx' hg hctx'
      have hc := fitting_compileClauses ctx' x y clauses refs hctx'
      rw [hg] at hc
      exact hc.bind fun exits => .patchJumps exits ⟨0, 0⟩
    refine fitting_guarded hctx hbody hclauses ?_
    cases ensure with
    | none => nofun
    | some s =>
      have hs : ∀ refs, Inherits ctx refs (compileStmt · s) := fun refs ctx' hg hctx' =>
        hg ▸ fitting_compileStmt ctx' s refs hctx'
      rintro _ ⟨⟩
      exact hs
  | .withResource pos name value body =>
    have hvalue : Inherits ctx refs (compileExpr · value) := fun ctx' hg hctx' =>
      hg ▸ fitting_compileExpr ctx' value refs hctx'
    have hbody : Inherits ctx refs (compileStmt · body) := fun ctx' hg hctx' =>
      hg ▸ fitting_compileStmt ctx' body refs hctx'
    exact .emitWith hctx hvalue hbody
  | .function pos ⟨name, params, vararg, body, declPos⟩ =>
    have hfun : Fitting ctx.isGenerator refs
        (emitFunction ctx (signatureOf .function name params vararg body declPos)
          fun ctx => compileStmts ctx body) :=
      .emitFunction fun ctx' hctx' => fitting_compileStmts ctx' body [] hctx'
    exact .bind .atTopLevel fun _ => .ite (hfun.bind fun _ => .defineVariable name declPos)
      (.bind (.defineLocal name declPos) fun _ => hfun)
  | .native pos decl =>
    exact .withNative fun _ => .bind (.emit pos.line (.naming rfl rfl List.mem_cons_self)) fun _ =>
        .defineVariable _ _
  | .classDef pos name superclass methods =>
    have hmethods := fitting_compileMethods ctx name methods refs hctx
    rw [compileStmt_classDef]
    refine .emitClass ?_ hmethods
    cases superclass with
    | none => exact .emit pos.line (.bare rfl rfl)
    | some e => exact fitting_compileExpr ctx e refs hctx
  | .importModule pos decl => exact .emitImport decl

/-- Statements one after another keep code conforming. -/
theorem fitting_compileStmts (ctx : Context) (body : List Stmt)
    (refs : List (UInt16 × ConstantKind)) (hctx : ctx.Fitting) :
    Fitting ctx.isGenerator refs (compileStmts ctx body) := by
  match body with
  | [] =>
    rw [compileStmts]
    exact .pure _
  | s :: rest =>
    rw [compileStmts]
    have hrest := fitting_compileStmts ctx rest refs hctx
    exact (fitting_compileStmt ctx s refs hctx).bind fun _ => hrest

/-- So do the clauses of a `try` statement. -/
theorem fitting_compileClauses (ctx : Context) (x y : UInt16) (clauses : List ExceptClause)
    (refs : List (UInt16 × ConstantKind)) (hctx : ctx.Fitting) :
    Fitting ctx.isGenerator refs (compileClauses ctx x y clauses) := by
  match clauses with
  | [] => exact .pure _
  | ⟨pos, exceptionClass, binder, body⟩ :: rest =>
    rw [compileClauses]
    have hc := fitting_compileExpr ctx exceptionClass refs hctx
    have hb := fitting_compileStmt ctx body refs hctx
    have hrest := fitting_compileClauses ctx x y rest refs hctx
    exact .bind (.emitClause hc hb _) fun _ => hrest.bind fun _ => .pure _

/-- So do the methods of a class. -/
theorem fitting_compileMethods (ctx : Context) (className : String) (methods : List Method)
    (refs : List (UInt16 × ConstantKind)) (hctx : ctx.Fitting) :
    Fitting ctx.isGenerator refs (compileMethods ctx className methods) := by
  match methods with
  | [] => exact .pure _
  | .function ⟨name, params, vararg, body, pos⟩ :: rest =>
    rw [compileMethods]
    have hrest := fitting_compileMethods ctx className rest refs hctx
    exact .bind (.emitFunction fun ctx' hctx' => fitting_compileStmts ctx' body [] hctx') fun _ =>
      .withName fun _ => .bind (.emit pos.line (.naming rfl rfl List.mem_cons_self)) fun _ =>
      hrest.more
  | .native decl :: rest =>
    rw [compileMethods]
    have hrest := fitting_compileMethods ctx className rest refs hctx
    exact .withNative fun _ =>
        .bind (.emit decl.pos.line (.naming rfl rfl List.mem_cons_self)) fun _ => hrest.more

end

end Induction

/-! ## Programs -/

/-- Top-level code captures nothing and has no defaults. -/
theorem signature_compile {program : Program} {m : Module} (h : compile program = .ok m) :
    m.main.upvalueCount = 0 ∧ m.main.defaults = #[] := by
  simp only [compile] at h
  split at h
  · cases h
  · split at h
    · cases h
    · cases h
      exact ⟨rfl, rfl⟩

/-- Top-level code is conforming and captures nothing. -/
theorem conforming_main {body : List Stmt} {s : CompilerState}
    (h : Ran (compileStmts topLevel body) ⟨.start "", []⟩ () s) :
    s.Conforming false ∧ s.current.upvalues = #[] := by
  have hstart : CompilerState.Conforming false ⟨.start "", []⟩ := ⟨Chunk.conforming_empty _, rfl⟩
  obtain ⟨hs, hon⟩ : s.Conforming false ∧ Onward ⟨.start "", []⟩ s :=
    fitting_compileStmts topLevel body [] nofun hstart nofun h
  have hchain := hs.chained
  rw [List.forall₂_nil_left_iff.1 hon.enclosing] at hchain
  exact ⟨hs, hchain⟩

/-- Top-level code is finished, and so are all functions in it. -/
theorem finished_compile {program : Program} {m : Module} (h : compile program = .ok m) :
    m.main.Finished 0 ∧ ∀ r, m.main.Nested r → r.chunk.Served := by
  obtain ⟨s, hrun, hcounted, -, hchunk⟩ := ran_compile h
  obtain ⟨hcount, hdefaults⟩ := signature_compile h
  obtain ⟨hs, hnone⟩ := conforming_main hrun
  have hcode : s.chunk.Conforming 0 false s.current.overflowed := by
    have hcode := hs.code
    rwa [hnone] at hcode
  have hnull : Fresh false [] .null := by
    constructor <;> simp [Op.constantOperands, Op.forwardDistance?, refersBack]
  have hlast := hcode.emit (hnull.fits nofun _ _) nofun (lastLine program.body 1)
  refine hlast.finished hchunk hcounted hcount ?_
  rw [hdefaults]
  exact Nat.zero_le _

end ScriptEngine.Compile

namespace ScriptEngine

open Bytecode

/-! ## Evaluation -/

/-- Every result the action can give has the property, however the calls it makes end. -/
def Proc.Always {α : Type} (P : α → Prop) : Proc α → Prop
  | .done a _ => P a
  | .raised _ | .fault _ => True
  | .call _ _ _ resume => ∀ ok s, (resume ok s).Always P

/-- The results of an action are those of its last part. -/
theorem Proc.Always.bind {α β : Type} {P : β → Prop} {f : α → State → Proc β}
    (hf : ∀ a s, (f a s).Always P) (p : Proc α) : (p.bind f).Always P := by
  induction p with
  | done a s => exact hf a s
  | raised s => trivial
  | fault e => trivial
  | call s method argc resume ih => exact ih

/-- What holds of all results holds of the result of a run. -/
theorem Proc.Always.of_finish {α : Type} {P : α → Prop} {steps : Nat} {p : Proc α}
    (h : p.Always P) {a : α} {s : State} (hr : p.finish steps = .done a s) : P a := by
  induction p with
  | done b t =>
    cases hr
    exact h
  | raised t => cases hr
  | fault e => cases hr
  | call t method argc resume ih =>
    rw [Proc.finish] at hr
    split at hr
    · exact ih _ _ (h _ _) hr
    · exact ih _ _ (h _ _) hr
    · cases hr
    · cases hr

/-- Code that passes the checks is not reported as malformed. -/
theorem Act.always_evalModule {name : String} {m : Module} (h : m.main.verify = .ok ())
    (s : State) : (Act.evalModule name m s).Always fun r => ∀ e, r ≠ .error (.malformed e) := by
  unfold Act.evalModule
  rw [h]
  refine Proc.Always.bind (fun key s => ?_) _
  refine Proc.Always.bind (fun closure s => ?_) _
  refine Proc.Always.bind (fun height s => ?_) _
  refine Proc.Always.bind (fun _ s => ?_) _
  refine Proc.Always.bind (fun returned s => ?_) _
  cases returned with
  | true =>
    refine Proc.Always.bind (fun _ s => ?_) _
    intro e he
    cases he
  | false =>
    refine Proc.Always.bind (fun report s => ?_) _
    refine Proc.Always.bind (fun _ s => ?_) _
    intro e he
    cases he

/-- Jumps of a compiled program land on instructions. Where no function captures more variables than
a prototype can count, the checks accept the module, and evaluating the program never reports it as
malformed. -/
theorem Compile.accepts_compile {program : Source.Program} {m : Module}
    (h : compile program = .ok m) :
    (∀ p, m.main.Nested p → ∀ (offset : Nat) (op : Op) (target : Nat),
      p.chunk.code[offset]? = some op → op.forwardTarget? offset = some target →
        target < p.chunk.code.size) ∧
    ((∀ p, m.main.Nested p → ∀ i cs, .closure i cs ∈ p.chunk.code → cs.length ≤ 65535) →
      m.main.verify = .ok () ∧ ∀ steps s s' e,
        (Act.evalProgram program).run steps s ≠ .done (.error (.malformed e)) s') := by
  obtain ⟨hmain, hserved⟩ := finished_compile h
  refine ⟨fun p hp => ?_, fun hcaptures => ?_⟩
  · obtain ⟨n, hfin, -⟩ := hmain.nested hserved hp
    exact hfin.inside
  · have hverify : m.main.verify = .ok () := by
      refine verify_iff.2 fun p hp => ?_
      obtain ⟨n, hfin, hn⟩ := hmain.nested hserved hp
      refine hfin.fits ?_ (hcaptures p hp)
      rcases hn with rfl | ⟨r, i, cs, hr, hop, rfl⟩
      · exact Nat.zero_le _
      · exact hcaptures r hr i cs hop
    refine ⟨hverify, fun steps s s' e hrun => ?_⟩
    have heval : Act.evalProgram program = Act.evalModule Act.mainModule m := by
      unfold Act.evalProgram
      rw [h]
    rw [heval] at hrun
    exact (Act.always_evalModule hverify s).of_finish hrun e rfl

/-- A function that returns a generator. The generator captures a parameter and a local, and leaves
a loop through a `try` statement. -/
def Compile.countingProgram : Source.Program where
  file := ""
  body := [.function ⟨1, 1⟩ ⟨"count", [⟨"step", some (.null ⟨1, 1⟩), []⟩], none,
    [.declare ⟨2, 1⟩ ["n"] none,
      .returnValue ⟨3, 1⟩ (some (.function ⟨3, 1⟩ ⟨"", [], none,
        [.whileLoop ⟨4, 1⟩ (.ident ⟨4, 1⟩ "step")
          (.guarded ⟨5, 1⟩
            (.block ⟨5, 1⟩
              [.expression ⟨6, 1⟩ (.yield ⟨6, 1⟩ (some (.ident ⟨6, 1⟩ "n"))), .breakLoop ⟨7, 1⟩])
            [⟨⟨8, 1⟩, .ident ⟨8, 1⟩ "Exception", "e", .block ⟨8, 1⟩ []⟩]
            (some (.expression ⟨9, 1⟩
              (.assign ⟨9, 1⟩ (.ident ⟨9, 1⟩ "n") (.ident ⟨9, 1⟩ "step")))))],
        ⟨3, 1⟩⟩))], ⟨1, 1⟩⟩]

/-- Whether a prototype makes closures with captures that can be counted. -/
def Bytecode.Proto.countable (p : Proto) : Bool :=
  p.chunk.code.all fun
    | .closure _ cs => decide (cs.length ≤ 65535)
    | _ => true

/-- A prototype that can be stored has no more captures than can be counted. -/
theorem Bytecode.Proto.length_captures {p : Proto} (h : p.countable = true) {i : UInt16}
    {cs : List Capture} (hop : .closure i cs ∈ p.chunk.code) : cs.length ≤ 65535 := by
  obtain ⟨k, hk, hop⟩ := Array.mem_iff_getElem.1 hop
  have hclosures := Array.all_eq_true.1 h k hk
  rw [hop] at hclosures
  exact of_decide_eq_true hclosures

/-- A program with a generator and an `ensure` part is compiled, and its captures can be counted. -/
theorem Compile.compiles_countingProgram : ∃ m, compile countingProgram = .ok m ∧
    m.main.all Proto.countable = true := by
  have h : ((compile countingProgram).toOption.any (·.main.all Proto.countable)) = true := by
    decide +kernel
  cases hc : compile countingProgram with
  | error e => rw [hc] at h; cases h
  | ok m => rw [hc] at h; exact ⟨m, rfl, h⟩

/-- No run of this program finds its code malformed. -/
theorem Compile.accepts_countingProgram : ∃ m, compile countingProgram = .ok m ∧
    m.main.verify = .ok () ∧ ∀ steps s s' e,
      (Act.evalProgram countingProgram).run steps s ≠ .done (.error (.malformed e)) s' := by
  obtain ⟨m, hm, hall⟩ := compiles_countingProgram
  refine ⟨m, hm, (accepts_compile hm).2 fun p hp i cs hop => ?_⟩
  exact Proto.length_captures (all_nested hall hp) hop

end ScriptEngine
