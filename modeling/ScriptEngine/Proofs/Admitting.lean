import ScriptEngine.Proofs.Functions
import ScriptEngine.Proofs.Judging

/-!
# What the code of a program asks for and takes up

Every emitter asks for what its parts ask for, and for a rule of its own: that declared names are new
in their scope, that a `return` stands in a function, that the defaults of parameters are literals and
come last. Where a name is read that has just been declared, nothing is asked for. It takes up what
its parts take up, and some instructions of its own. As parts are emitted at several places, `Takes`
says so for all code in front of them.
-/

namespace ScriptEngine.Compile

open Bytecode Source Extent

/-! ## Names in sight -/

/-- What is found among names that stand for the same in front of a list. -/
theorem lookup_map_append {β : Type} (xs : List String) (b : β) (ls : List (String × β))
    (name : String) :
    (xs.map (·, b) ++ ls).lookup name = if name ∈ xs then some b else ls.lookup name := by
  induction xs with
  | nil => rfl
  | cons x xs ih =>
    rw [List.map_cons, List.cons_append, List.lookup_cons, ih]
    by_cases h : name = x
    · simp [h]
    · rw [beq_eq_false_iff_ne.2 h]
      simp [h]

section Sight

variable {around : List Outline} {o : Outline} {name : String}

/-- What a name means behind a declaration. -/
theorem lookup_bind (names : List String) : (sightOf around (o.bind names)).lookup name =
    if name ∈ names then some (some o.depth) else (sightOf around o).lookup name := by
  rw [sightOf, Outline.bind, List.append_assoc, lookup_map_append]
  simp only [List.mem_reverse]
  rfl

/-- What a name means in the initial value of a declaration. -/
theorem lookup_await (names : List String) : (sightOf around (o.await names)).lookup name =
    if name ∈ names then some none else (sightOf around o).lookup name := by
  rw [sightOf, Outline.await, List.append_assoc, lookup_map_append]
  simp only [List.mem_reverse]
  rfl

/-- The variable a name means has its initial value. -/
def Known (around : List Outline) (o : Outline) (name : String) : Prop :=
  (sightOf around o).lookup name ≠ some none

/-- Behind a declaration no more names wait for a value. -/
theorem Known.bind (h : Known around o name) (names : List String) :
    Known around (o.bind names) name := by
  unfold Known
  rw [lookup_bind]
  split
  · nofun
  · exact h

/-- A variable that has been declared has its value. -/
theorem known_bound (o : Outline) (name : String) : Known around (o.bind [name]) name := by
  unfold Known
  rw [lookup_bind, if_pos (List.mem_singleton.2 rfl)]
  nofun

end Sight

/-! ## Code wherever it stands -/

namespace Outline

variable (o : Outline)

/-- With some code so far. -/
def withExtent (x : Extent) : Outline := { o with extent := x }

/-- Room for more locals. -/
def room (count : Nat) : Extent := .limit (o.locals.length + count ≤ FunctionState.maxLocals)

@[simp] theorem extent_withExtent (x : Extent) : (o.withExtent x).extent = x := rfl

@[simp] theorem extent_plus (x : Extent) : (o.plus x).extent = o.extent ++ x := rfl

@[simp] theorem extent_inner : o.inner.extent = o.extent := rfl

@[simp] theorem extent_bind (names : List String) : (o.bind names).extent = o.extent := rfl

@[simp] theorem extent_await (names : List String) : (o.await names).extent = o.extent := rfl

@[simp] theorem extent_loop (tries : Nat) : (o.loop tries).extent = o.extent := rfl

@[simp] theorem size_inner : o.inner.size = o.size := rfl

@[simp] theorem size_bind (names : List String) : (o.bind names).size = o.size := rfl

@[simp] theorem size_await (names : List String) : (o.await names).size = o.size := rfl

@[simp] theorem size_loop (tries : Nat) : (o.loop tries).size = o.size := rfl

end Outline

/-- Whatever the code so far is, the generator leads from one outline to another, takes up some more,
and asks for a condition. -/
def Takes {α : Type} (S : Prop) (around : List Outline) (o o' : Outline) (x : Extent) (P : Prop)
    (m : Gen α) : Prop :=
  ∀ e, Checks S around (o.withExtent e) ((o'.withExtent e).plus x) P m

section Rules

variable {α β : Type} {S S' : Prop} {around : List Outline} {o o₁ o₂ : Outline} {P Q : Prop}
variable {x y : Extent}

/-- The outline behind a generator, with its parts written in another way. -/
theorem Checks.as {m : Gen α} (h : Checks S around o o₁ P m) (hextent : o₁.extent = o₂.extent)
    (hrest : o₁.withExtent .nothing = o₂.withExtent .nothing) : Checks S around o o₂ P m := by
  obtain ⟨locals₁, depth₁, loops₁, extent₁⟩ := o₁
  obtain ⟨locals₂, depth₂, loops₂, extent₂⟩ := o₂
  unfold Outline.withExtent at hrest
  cases hrest
  cases hextent
  exact h

/-- The outline in front of a generator, with its parts written in another way. -/
theorem Checks.behind {m : Gen α} (h : Checks S around o₁ o P m) (hextent : o₁.extent = o₂.extent)
    (hrest : o₁.withExtent .nothing = o₂.withExtent .nothing) : Checks S around o₂ o P m := by
  obtain ⟨locals₁, depth₁, loops₁, extent₁⟩ := o₁
  obtain ⟨locals₂, depth₂, loops₂, extent₂⟩ := o₂
  unfold Outline.withExtent at hrest
  cases hrest
  cases hextent
  exact h

/-- The condition may be replaced by an equivalent one. -/
theorem Takes.congr {m : Gen α} (h : Takes S around o o₁ x P m) (hpq : P ↔ Q) :
    Takes S around o o₁ x Q m := fun e => (h e).congr hpq

/-- More may be assumed on the side. -/
theorem Takes.mono {m : Gen α} (h : Takes S' around o o₁ x P m) (hside : S → S') :
    Takes S around o o₁ x P m := fun e => (h e).mono hside

/-- What is taken up, written in another way. -/
theorem Takes.cast {m : Gen α} (h : Takes S around o o₁ x P m) (hx : x = y) :
    Takes S around o o₁ y P m := hx ▸ h

/-- No code takes up nothing. -/
theorem Takes.pure (a : α) : Takes S around o o .nothing True (pure a : Gen α) := fun _ =>
  (Checks.pure a).to (Outline.plus_nothing _).symm

/-- One part after another. -/
theorem Takes.bind [Nonempty α] {m : Gen α} {f : α → Gen β} (hm : Takes S around o o₁ x P m)
    (hf : ∀ a, Takes S around o₁ o₂ y Q (f a)) : Takes S around o o₂ (x ++ y) (P ∧ Q) (m >>= f) :=
  fun e => ((hm e).bind fun a => hf a (e ++ x)).to (by
    rw [Outline.plus_append]
    rfl)

/-- First something that asks for nothing. -/
theorem Takes.after [Nonempty α] {m : Gen α} {f : α → Gen β} (hm : Takes S around o o₁ x True m)
    (hf : ∀ a, Takes S around o₁ o₂ y P (f a)) : Takes S around o o₂ (x ++ y) P (m >>= f) :=
  (hm.bind hf).congr (Iff.of_eq (true_and P))

/-- Then something that asks for nothing. -/
theorem Takes.before [Nonempty α] {m : Gen α} {f : α → Gen β} (hm : Takes S around o o₁ x P m)
    (hf : ∀ a, Takes S around o₁ o₂ y True (f a)) : Takes S around o o₂ (x ++ y) P (m >>= f) :=
  (hm.bind hf).congr (Iff.of_eq (and_true P))

/-- A rule is violated. -/
theorem Takes.fail (cause : Cause) (pos : Position) (hp : ¬ P) :
    Takes S around o o x P (fail cause pos : Gen α) := fun _ => .fail cause pos hp

/-- What follows a violated rule does not matter. -/
theorem Takes.failed {cause : Cause} {pos : Position} {f : β → Gen α} (hp : ¬ P) :
    Takes S around o o x P ((Compile.fail cause pos : Gen β) >>= f) := fun _ => .failed hp

/-- A rule that is checked before something. -/
theorem Takes.require {p : Prop} [Decidable p] {cause : Cause} {pos : Position} {f : β → Gen α}
    {m : Gen α} (hm : ¬ p → Takes S around o o x P m) :
    Takes S around o o x (¬ p ∧ P) (if p then (Compile.fail cause pos : Gen β) >>= f else m) :=
  fun e => .require fun h => hm h e

/-- A limit that is checked before something. -/
theorem Takes.unless {p : Prop} [Decidable p] {b : Bool} {cause : Cause} {pos : Position}
    {f : β → Gen α} {m : Gen α} (hb : b = true → ¬ p) (hm : Takes S around o o₁ x P m) :
    Takes S around o o₁ (.limit b ++ x) P
      (if p then (Compile.fail cause pos : Gen β) >>= f else m) := fun e =>
  Checks.unless hb (Checks.to (hm (e ++ Extent.limit b)) (by
    rw [Outline.plus_append]
    rfl))

end Rules

section Emitters

variable {α : Type} {S S' : Prop} {around : List Outline} {o o' : Outline} {P P' Q R : Prop}
variable {x y z : Extent} {ctx : Context} {pos : Position} {scope names : List String}

/-! ## Instructions -/

/-- An instruction. -/
theorem Takes.emit (op : Op) (line : Nat) :
    Takes S around o o (.ops line 1) True (Compile.emit op line) := fun _ => .emit op line

/-- A name in the constant pool. -/
theorem Takes.addName (name : String) (pos : Position) :
    Takes S around o o (.name name) True (Compile.addName name pos) := fun _ => .addName name pos

/-- A constant is entered. -/
theorem Takes.addConstant (c : Constant) (pos : Position) :
    Takes S around o o (constantExtent c) True (Compile.addConstant c pos) := fun _ =>
  .addConstant c pos

/-- A constant is entered and pushed. -/
theorem Takes.emitConstant (c : Constant) (pos : Position) :
    Takes S around o o (constantExtent c ++ .ops pos.line 1) True (Compile.emitConstant c pos) :=
  fun _ => (Checks.emitConstant c pos).to (Outline.plus_append _ _ _).symm

/-- An operator with one or two instructions. -/
theorem Takes.emitBinary (op : BinaryOp) (line : Nat) :
    Takes S around o o (.binary op line) True (Compile.emitBinary op line) := by
  have hlength : (binaryOps op).length = if op = .notEqual then 2 else 1 := by cases op <;> rfl
  intro e
  rw [Extent.binary, ← hlength]
  exact Checks.emits (f := id) _ line

/-- An operator that is an instruction or a method call. -/
theorem Takes.emitUnary (op : UnaryOp) (pos : Position) :
    Takes S around o o (.unary op pos.line) True (Compile.emitUnary op pos) := by
  cases op with
  | negate | not | bitNot => exact (Takes.emit _ _).cast (Extent.nothing_append _).symm
  | length | stringify => exact (Takes.addName _ pos).after fun _ => .emit _ _

/-- A return, which closes a generator. -/
theorem Takes.emitReturn (ctx : Context) (line : Nat) :
    Takes S around o o (.ops line (ctx.isGenerator.toNat + 1)) True
      (Compile.emitReturn ctx line) := by
  unfold Compile.emitReturn
  cases ctx.isGenerator with
  | true => exact ((Takes.emit _ _).after fun _ => .emit _ _).cast (ops_add line 1 1).symm
  | false => exact .emit _ _

/-- The list that items are added to. -/
theorem Takes.emitListStart (items : List Expr) :
    Takes S around o o (.listStart items) True (Compile.emitListStart items) := by
  cases items with
  | nil => exact .pure _
  | cons e _ => exact .emit _ _

/-- The superclass is named in methods. -/
theorem Takes.withSuper {method : Option String} {f : String → Gen Unit}
    (hf : ∀ own, ctx.method = some own → Takes S around o o x P (f (method.getD own))) :
    Takes S around o o x (ctx.method.isSome = true ∧ P)
      (Compile.superName ctx method pos >>= f) := by
  unfold Compile.superName
  cases h : ctx.method with
  | none => exact .failed nofun
  | some own => exact (hf own h).congr (by simp)

/-- Reading a variable. -/
theorem Takes.getVariable (name : String) (pos : Position) :
    Takes S around o o (useOf around o name ++ .ops pos.line 1)
      (Known around o name) (Compile.getVariable name pos) := fun _ =>
  (Checks.getVariable name pos).to (Outline.plus_append _ _ _).symm

/-- Writing a variable. -/
theorem Takes.setVariable (name : String) (pos : Position) :
    Takes S around o o (useOf around o name ++ .ops pos.line 1)
      (Known around o name) (Compile.setVariable name pos) := fun _ =>
  (Checks.setVariable name pos).to (Outline.plus_append _ _ _).symm

/-- Code in a scope of its own. -/
theorem Takes.inScope {body : Gen Unit} (line : Nat) (h : Settled o.depth o.locals)
    (names : List String) (hbody : Takes S around o.inner (o.inner.bind names) x P body) :
    Takes S around o o (x ++ .ops line names.length) P (Compile.inScope line body) := fun e =>
  (Checks.inScope (o := o.withExtent e) line h names (hbody e)).to (Outline.plus_append _ _ _).symm

/-! ## Statements -/

/-- The values of declared variables: nulls, or what an initial value is unpacked into. -/
inductive Values (T : Extent → Gen Unit → Prop) (P : Prop) (names : List String) (line : Nat) :
    Option (Gen Unit) → Extent → Prop
  /-- There is no initial value. -/
  | nulls (h : P) : Values T P names line none (.ops line names.length)
  /-- There is one, which is unpacked for several variables. -/
  | value {m : Gen Unit} {x : Extent} (h : T x m) :
    Values T P names line (some m) (x ++ .unpack names line)

/-- Where an initial value is computed: inside a scope, the names are declared before. -/
def Outline.initial (o : Outline) (names : List String) : Outline :=
  if o.depth = 0 then o else o.await names

/-- Values that are bound to globals. -/
theorem Takes.globals (names : List String) (pos : Position) :
    Takes S around o o (.globals pos.line names) True (names.forM fun name => do
      Compile.emit (.defineGlobal (← Compile.addName name pos)) pos.line) := by
  induction names with
  | nil => exact .pure _
  | cons name names ih =>
    rw [Extent.globals]
    exact Takes.after ((Takes.addName name pos).after fun _ => .emit _ _) fun _ => ih

/-- A value is unpacked for several variables. -/
theorem Checks.unpack {m : Gen Unit} (names : List String)
    (hm : Checks S around (o.plus (.unpack names pos.line)) o' P m) :
    Checks S around o o' P (do
      if names.length > 1 then
        if names.length > maxArguments then Compile.fail .tooManyNames pos
        Compile.emit (.unpack (UInt8.ofNat names.length)) pos.line
      m) := by
  unfold Extent.unpack at hm
  by_cases h : names.length > 1
  · rw [if_pos h, Outline.plus_append] at hm
    rw [if_pos h]
    refine .unless (b := decide (names.length ≤ maxArguments)) (fun hle => ?_)
      (.after (.emit _ pos.line) fun _ => hm)
    exact Nat.not_lt.2 (of_decide_eq_true hle)
  · rw [if_neg h, Outline.plus_nothing] at hm
    rw [if_neg h]
    exact hm

/-- What follows the unpacking may stand anywhere. -/
theorem Takes.unpack {m : Gen Unit} (names : List String) (hm : Takes S around o o' x P m) :
    Takes S around o o' (.unpack names pos.line ++ x) P (do
      if names.length > 1 then
        if names.length > maxArguments then Compile.fail .tooManyNames pos
        Compile.emit (.unpack (UInt8.ofNat names.length)) pos.line
      m) := fun e =>
  Checks.unpack names (Checks.as (hm (e ++ Extent.unpack names pos.line))
    (by simp [append_assoc]) (by rfl))

/-- Nulls, one after another. -/
theorem Takes.nulls (names : List String) (line : Nat) :
    Takes S around o o (.ops line names.length) True (names.forM fun _ => Compile.emit .null line) :=
  fun _ => .emits names line

/-- What follows may depend on whether declarations make globals. -/
theorem Takes.withTop {f : Bool → Gen α} (h : Takes S around o o' x P (f (o.depth == 0))) :
    Takes S around o o' x P (atTopLevel >>= f) := fun e => .withTop (h e)

/-- Names are declared one after another where there is room for them. -/
theorem Takes.declares (hl : o.Lists scope) (hnames : names.all isOrdinary = true) (pos : Position) :
    Takes S around o (o.await names) (o.room names.length) (unused scope names = true)
      (names.forM fun name => updateFunctionM (·.declare name pos)) := fun e =>
  .limit (Checks.declares (o := (o.withExtent e).plus (o.room names.length)) hl hnames
    ((o.withExtent e).roomy_limit names.length) pos)

/-- The declared names have their values. -/
theorem Takes.markInitialized (names : List String) :
    Takes S around (o.await names) (o.bind names) .nothing True
      (updateFunction (·.markInitialized names.length)) := fun e =>
  (Checks.markInitialized (o := o.withExtent e) names).to (Outline.plus_nothing _).symm

/-- Declared names are new in their scope. -/
theorem Takes.emitDeclare {initial : Option (Gen Unit)} (hl : o.depth ≠ 0 → o.Lists scope)
    (hnames : names.all isOrdinary = true)
    (hv : Values (fun x m => Takes S around (o.initial names) (o.initial names) x P m) P names
      pos.line initial x) :
    Takes S around o (o.declare names)
      (.declaration (o.depth == 0) (o.room names.length) x names pos.line)
      (o.Admits scope names ∧ P) (Compile.emitDeclare pos names initial) := by
  unfold Compile.emitDeclare
  refine .withTop ?_
  unfold Extent.declaration Outline.initial Outline.declare at *
  cases htop : o.depth == 0 with
  | true =>
    have h : o.depth = 0 := by simpa using htop
    have hglobals : Takes S around o o (.globals pos.line names.reverse) True _ :=
      .globals names.reverse pos
    simp only [if_pos h, if_true, nothing_append] at hv ⊢
    refine Takes.congr (P := P) ?_ (by simp [Outline.Admits, h])
    cases hv with
    | nulls hp =>
      exact Takes.congr (.after (.nulls names pos.line) fun _ => hglobals)
        (iff_of_true trivial hp)
    | value hm =>
      exact Takes.cast (hm.before fun _ => .unpack names hglobals) (append_assoc _ _ _).symm
  | false =>
    have h : o.depth ≠ 0 := by simpa using htop
    have hmark : Takes S around (o.await names) (o.bind names) .nothing True
        (updateFunction (·.markInitialized names.length)) := .markInitialized names
    simp only [if_neg h, Bool.false_eq_true, if_false, append_nothing] at hv ⊢
    refine Takes.congr (P := unused scope names = true ∧ P) ?_ (by simp [Outline.Admits, h])
    refine (Takes.declares (hl h) hnames pos).bind fun _ => ?_
    cases hv with
    | nulls hp =>
      exact Takes.congr (Takes.cast (.after (.nulls names pos.line) fun _ => hmark)
        (append_nothing _)) (iff_of_true trivial hp)
    | value hm =>
      exact Takes.cast (hm.before fun _ => .unpack names hmark) (by simp)

/-- A branch that is taken or jumped over. -/
theorem Takes.emitBranch {condition thenBranch : Gen Unit}
    (hc : Takes S around o o x P condition) (ht : Takes S around o o y Q thenBranch) :
    Takes S around o o (x ++ .ops pos.line 1 ++ .skipped y) (P ∧ Q)
      (Compile.emitBranch pos condition thenBranch none) := by
  intro e
  refine Checks.as ((hc e).bind fun _ => .jump ((ht _).before fun _ => .patch (x := y) ?_ pos))
    ?_ (by rfl)
  · simp [Outline.size]
  · simp [Extent.skipped, append_assoc]

/-- One of two branches. -/
theorem Takes.emitBranches {condition thenBranch elseBranch : Gen Unit}
    (hc : Takes S around o o x P condition) (ht : Takes S around o o y Q thenBranch)
    (he : Takes S around o o z R elseBranch) :
    Takes S around o o
      (x ++ .ops pos.line 1 ++ .skipped (y ++ .ops pos.line 1) ++ .skipped z) (P ∧ Q ∧ R)
      (Compile.emitBranch pos condition thenBranch (some elseBranch)) := by
  intro e
  refine Checks.as ((hc e).bind fun _ => .jump ((ht _).bind fun _ => .jump
    (.after (.patch (x := y ++ .ops pos.line 1) ?_ pos) fun _ => (he _).before fun _ =>
      .patch (x := z) ?_ pos))) ?_ (by rfl)
  · simp [Outline.size]
    omega
  · simp [Outline.size]
  · simp [Extent.skipped, append_assoc]

/-- A right operand that is jumped over. -/
theorem Takes.shortcut {left right : Gen Unit} {op : Op}
    (hl : Takes S around o o x P left) (hr : Takes S around o o y Q right) :
    Takes S around o o (x ++ .ops pos.line 2 ++ .skipped (.ops pos.line 1 ++ y)) (P ∧ Q) (do
      left
      Compile.emit .dup pos.line
      let jump ← emitJump op pos.line
      Compile.emit .pop pos.line
      right
      Compile.patchJump jump pos) := by
  intro e
  refine Checks.as ((hl e).bind fun _ => .after (.emit _ _) fun _ => .jump
    (.after (.emit _ _) fun _ => (hr _).before fun _ =>
      .patch (x := .ops pos.line 1 ++ y) ?_ pos)) ?_ (by rfl)
  · simp [Outline.size]
    omega
  · simp [Extent.skipped, append_assoc, ops_add pos.line 1 1]

/-! ### Loops -/

/-- Behind a loop that is within the limits. -/
theorem Checks.leaveLoop (o : Outline) (e x : Extent) (tries : Nat) (pos : Position)
    (h : x.fits = true → x.size - e.size ≤ Chunk.maxJump) :
    Checks S around (((o.withExtent e).loop tries).withExtent x) (o.withExtent x) True
      (Compile.endLoop pos) :=
  .endLoop (o := o.withExtent x) (l := ⟨e.size, o.locals.length, tries⟩) pos h

/-- A loop with a condition in front. -/
theorem Takes.emitWhile {condition body : Gen Unit}
    (hc : ∀ e, Takes S around ((o.withExtent e).loop ctx.tries.length)
      ((o.withExtent e).loop ctx.tries.length) x P condition)
    (hb : ∀ e, Takes S around ((o.withExtent e).loop ctx.tries.length)
      ((o.withExtent e).loop ctx.tries.length) y Q body) :
    Takes S around o o (.repeated pos.line (x ++ .ops pos.line 1 ++ y)) (P ∧ Q)
      (Compile.emitWhile ctx pos condition body) := by
  intro e
  refine Checks.as (.withOffset (.after (.beginLoop ctx fun _ h => ?_) fun _ =>
    (hc e e).bind fun _ => .jump ((hb e _).before fun _ =>
      .after (.repeated (x := x ++ .ops pos.line 1 ++ y) ?_ pos) fun _ =>
      .after (.patchWithin (fun hwithin => ?_) pos) fun _ =>
      .leaveLoop o e _ ctx.tries.length pos fun hfits => ?_))) ?_ (by rfl)
  · exact Nat.le_of_eq (Option.some.inj h)
  · simp [Outline.size]
    omega
  · have hlt := of_decide_eq_true hwithin.before.limit
    simp [Outline.size] at hlt ⊢
    omega
  · simp at hfits ⊢
    omega
  · simp [Extent.repeated, append_assoc]

/-- An optional part takes up some code, which more follows; one that is missing takes up nothing. -/
inductive Optional (T : Extent → Gen Unit → Prop) (P : Prop) (more : Extent) :
    Option (Gen Unit) → Extent → Prop
  /-- It is missing. -/
  | missing (h : P) : Optional T P more none .nothing
  /-- It is there. -/
  | given {m : Gen Unit} {x : Extent} (h : T x m) : Optional T P more (some m) (x ++ more)

/-- A jump that there may be lands. -/
theorem Checks.patchOptional {jump : Option Nat}
    (h : ∀ j ∈ jump, Within around o → o.size - j - 1 ≤ Chunk.maxJump) :
    Checks S around o o True (jump.forM (Compile.patchJump · pos)) := by
  cases jump with
  | none => exact .pure _
  | some j => exact .patchWithin (h j rfl) pos

/-- A scope is left. -/
theorem Takes.endScope (line : Nat) (h : Settled o.depth o.locals) (names : List String) :
    Takes S around (o.inner.bind names) o (.ops line names.length) True (Compile.endScope line) :=
  fun e => .endScope (o := o.withExtent e) line h names

/-- A scope is opened. -/
theorem Takes.beginScope : Takes S around o o.inner .nothing True Compile.beginScope := fun _ =>
  Checks.beginScope.to (Outline.plus_nothing _).symm

/-- A counting loop. -/
theorem Takes.emitFor {initial condition step : Option (Gen Unit)} {body : Gen Unit} {w : Extent}
    (hs : Settled o.depth o.locals)
    (hi : Takes S around o.inner (o.inner.bind names) w P (initial.forM id))
    (hc : Optional (fun x m => Takes S around (o.inner.bind names) (o.inner.bind names) x Q m) Q
      (.ops pos.line 1) condition x)
    (hb : ∀ e, Takes S around (((o.inner.bind names).withExtent e).loop ctx.tries.length)
      (((o.inner.bind names).withExtent e).loop ctx.tries.length) y P' body)
    (hp : ∀ e, Optional (fun z m =>
      Takes S around (((o.inner.bind names).withExtent e).loop ctx.tries.length)
      (((o.inner.bind names).withExtent e).loop ctx.tries.length) z R m) R
      (.ops pos.line 1) step z) :
    Takes S around o o
      (w ++ .repeated pos.line (x ++ y ++ z) ++ .ops pos.line names.length)
      (P ∧ Q ∧ P' ∧ R) (Compile.emitFor ctx pos initial condition step body) := by
  intro e
  have hstep : ∀ e, Takes S around (((o.inner.bind names).withExtent e).loop ctx.tries.length)
      (((o.inner.bind names).withExtent e).loop ctx.tries.length) z R (step.forM fun step => do
        step
        Compile.emit .pop pos.line) := by
    intro e
    cases hp e with
    | missing h => exact (Takes.pure _).congr (iff_of_true trivial h)
    | given h => exact h.before fun _ => .emit _ _
  -- from the body on, where the loop has begun behind the condition
  have hround : ∀ exit : Option Nat, (∀ j ∈ exit, x.size > 0 ∧ (e ++ w ++ x).size = j + 1) →
      Checks S around ((o.inner.bind names).withExtent (e ++ w ++ x))
        ((o.withExtent e).plus (w ++ .repeated pos.line (x ++ y ++ z) ++ .ops pos.line names.length))
        (P' ∧ R) (do
          Compile.beginLoop ctx none
          body
          Compile.patchContinues pos
          step.forM fun step => do
            step
            Compile.emit .pop pos.line
          Compile.emitLoop (e ++ w).size pos
          exit.forM (Compile.patchJump · pos)
          Compile.endLoop pos
          Compile.endScope pos.line) := by
    intro exit hexit
    refine Checks.as (.after (.beginLoop ctx nofun) fun _ => (hb (e ++ w ++ x) _).bind fun _ =>
      .after (.patchContinues pos) fun _ => (hstep (e ++ w ++ x) _).before fun _ =>
      .after (.repeated (x := x ++ y ++ z) ?_ pos) fun _ =>
      .after (.patchOptional fun j hj hwithin => ?_) fun _ =>
      .after (.leaveLoop (o.inner.bind names) (e ++ w ++ x) _ ctx.tries.length pos fun hfits => ?_)
        fun _ => Takes.endScope pos.line hs names _) ?_ (by rfl)
    · simp [Outline.size]
      omega
    · obtain ⟨hpos, hj⟩ := hexit j hj
      have hlt := of_decide_eq_true hwithin.before.limit
      simp [Outline.size] at hj hlt ⊢
      omega
    · simp at hfits ⊢
      omega
    · simp [Extent.repeated, append_assoc]
  refine .after .beginScope fun _ => (hi e).bind fun _ => .withOffset ?_
  cases hc with
  | missing h =>
    have hnone := hround none nofun
    rw [append_nothing] at hnone
    exact hnone.congr (by simp [h])
  | @given condition x h =>
    refine Checks.congr (P := Q ∧ P' ∧ R) ?_ Iff.rfl
    have hsome := hround (some (e ++ w ++ x).size) (by simp [Nat.add_assoc])
    simp only [Option.mapM_some, map_eq_pure_bind, bind_assoc, pure_bind]
    refine (h (e ++ w)).bind fun _ => .jump ?_
    have hbehind : ((o.inner.bind names).withExtent (e ++ w ++ (x ++ .ops pos.line 1))) =
        (((o.inner.bind names).withExtent (e ++ w)).plus x).plus (.ops pos.line 1) := by
      rw [← Outline.plus_append]
      rfl
    rwa [hbehind] at hsome

/-- A hidden local of a scope that has made others. -/
theorem Checks.defineHidden {e : Extent} (hs : Settled o.depth o.locals) (hidden : List String)
    (name : String) (hnew : hidden.contains name = false) (pos : Position)
    (h : e.fits = true → o.locals.length + hidden.length < FunctionState.maxLocals) :
    Checks S around ((o.inner.bind hidden).withExtent e)
      ((o.inner.bind (hidden ++ [name])).withExtent e) True (Compile.defineLocal name pos) := by
  refine .defineNext (o := o.withExtent e) hs hidden name hnew (fun hfits => ?_) pos
  have hlt := h hfits
  have hlength : ((o.withExtent e).inner.bind hidden).locals.length =
      hidden.length + o.locals.length := by
    simp [Outline.bind, Outline.inner, Outline.withExtent]
  omega

/-- The hidden locals of an iteration. -/
def Outline.iterating (o : Outline) : Outline :=
  o.inner.bind [".expr", ".iter", ".__iter__", ".__next__"]

/-- The place of the body of an iteration. -/
def Outline.element (o : Outline) (e : Extent) (tries : Nat) (names : List String) : Outline :=
  ((o.iterating.withExtent e).loop tries).inner.bind names

/-- The rounds of an iteration, whose hidden locals are there. -/
theorem Takes.iterate {body : Gen Unit} (hs : Settled o.depth o.locals)
    (hnames : names.all isOrdinary = true)
    (hb : ∀ e, Takes S around (o.element e ctx.tries.length names)
      (o.element e ctx.tries.length names) y Q body) :
    Takes S around o.iterating o
      (.repeated pos.line (.ops pos.line 2 ++ .unpack names pos.line ++
        o.iterating.room names.length ++ y ++ .ops pos.line names.length) ++ .ops pos.line 4)
      (unused [] names = true ∧ Q) (do
        let start ← offset
        Compile.beginLoop ctx (some start)
        Compile.emit .forIter pos.line
        let exit ← emitJump (.forNext 0) pos.line
        Compile.beginScope
        if names.length > 1 then
          if names.length > maxArguments then Compile.fail .tooManyNames pos
          Compile.emit (.unpack (UInt8.ofNat names.length)) pos.line
        names.forM fun name => updateFunctionM (·.declare name pos)
        updateFunction (·.markInitialized names.length)
        body
        Compile.endScope pos.line
        Compile.emitLoop start pos
        Compile.patchJump exit pos
        Compile.endLoop pos
        Compile.endScope pos.line) := by
  intro e
  have hin : Settled o.iterating.depth o.iterating.locals :=
    Outline.settled_bind (o := o.inner) (hs.mono (Nat.le_succ _)) _
  let i : Outline := (o.iterating.withExtent e).loop ctx.tries.length
  have hdeclare : Takes S around i.inner (i.inner.await names) (o.iterating.room names.length)
      (unused [] names = true) (names.forM fun name => updateFunctionM (·.declare name pos)) :=
    .declares (Outline.lists_inner (o := i) hin) hnames pos
  have hmark : Takes S around (i.inner.await names) (i.inner.bind names) .nothing True
      (updateFunction (·.markInitialized names.length)) := .markInitialized names
  have hend : Takes S around (i.inner.bind names) i (.ops pos.line names.length) True
      (Compile.endScope pos.line) := .endScope (o := i) pos.line hin names
  refine Checks.as (.withOffset (.after (.beginLoop ctx fun _ h => ?_) fun _ =>
    .after (.emit _ _) fun _ => .jump (.after .beginScope fun _ => .unpack names
    ((hdeclare _).bind fun _ => .after (hmark _) fun _ => (hb e _).before fun _ =>
      .after (hend _) fun _ => .after (.repeated (x := .ops pos.line 2 ++ .unpack names pos.line ++
        o.iterating.room names.length ++ y ++ .ops pos.line names.length) ?_ pos) fun _ =>
      .after (.patchWithin (fun hwithin => ?_) pos) fun _ =>
      .after (.leaveLoop o.iterating e _ ctx.tries.length pos fun hfits => ?_) fun _ =>
      Takes.endScope pos.line hs [".expr", ".iter", ".__iter__", ".__next__"] _)))) ?_ (by rfl)
  · exact Nat.le_of_eq (Option.some.inj h)
  · simp [Outline.size, i]
    omega
  · have hlt := of_decide_eq_true hwithin.before.limit
    simp [Outline.size, i] at hlt ⊢
    omega
  · simp at hfits ⊢
    omega
  · simp [i, Extent.repeated, append_assoc, ops_add pos.line 1 1]

/-- An iteration. -/
theorem Takes.emitForEach {iterable body : Gen Unit} (hs : Settled o.depth o.locals)
    (hnames : names.all isOrdinary = true) (hi : Takes S around o.inner o.inner x P iterable)
    (hb : ∀ e, Takes S around (o.element e ctx.tries.length names)
      (o.element e ctx.tries.length names) y Q body) :
    Takes S around o o
      (x ++ o.room 4 ++ .ops pos.line 2 ++ .repeated pos.line (.ops pos.line 2 ++
        .unpack names pos.line ++ o.iterating.room names.length ++ y ++
        .ops pos.line names.length) ++ .ops pos.line 4)
      (P ∧ unused [] names = true ∧ Q) (Compile.emitForEach ctx pos names iterable body) := by
  intro e
  unfold Compile.emitForEach
  refine Checks.as (.after .beginScope fun _ => (hi _).bind fun _ =>
    .noted (x := o.room 4) rfl rfl rfl
    (.after (.defineHidden (o := o) hs [] ".expr" rfl pos ?_) fun _ => .after (.emit _ _) fun _ =>
    .after (.defineHidden (o := o) hs [".expr"] ".iter" (by simp) pos ?_) fun _ =>
    .after (.emit _ _) fun _ =>
    .after (.defineHidden (o := o) hs [".expr", ".iter"] ".__iter__" (by simp) pos ?_)
      fun _ => .after (.defineHidden (o := o) hs [".expr", ".iter", ".__iter__"] ".__next__"
        (by simp) pos ?_) fun _ => Takes.iterate hs hnames hb _)) ?_ (by rfl)
  -- the four hidden locals fit
  iterate 4
    intro hfits
    simp [Outline.room] at hfits ⊢
    omega
  simp [append_assoc, ops_add pos.line 1 1]

/-- `return` without a value stands in a function. -/
theorem Takes.emitReturnNone :
    Takes S around o o (.ops pos.line 1 ++ .ops pos.line (ctx.isGenerator.toNat + 1))
      (ctx.kind ≠ .script) (Compile.emitReturnStmt ctx pos none) := by
  have hreturn : Takes S around o o _ True (Compile.emitReturn ctx pos.line) :=
    .emitReturn ctx pos.line
  unfold Compile.emitReturnStmt
  cases ctx.kind with
  | script => exact .failed fun h => h rfl
  | constructor | function | method =>
    exact Takes.congr (.after (.emit _ _) fun _ => hreturn) (iff_of_true trivial nofun)

/-- `return` with a value stands in a function that is no constructor. -/
theorem Takes.emitReturnSome {value : Gen Unit} (hv : Takes S around o o x P value) :
    Takes S around o o (x ++ .ops pos.line (ctx.isGenerator.toNat + 1))
      (ctx.kind ≠ .script ∧ ctx.kind ≠ .constructor ∧ P)
      (Compile.emitReturnStmt ctx pos (some value)) := by
  have hreturn : Takes S around o o _ True (Compile.emitReturn ctx pos.line) :=
    .emitReturn ctx pos.line
  unfold Compile.emitReturnStmt
  cases ctx.kind with
  | script => exact .failed fun h => h.1 rfl
  | constructor => exact .failed fun h => h.2.1 rfl
  | function | method => exact Takes.congr (Takes.before hv fun _ => hreturn) (by simp)

/-! ## `try` statements -/

/-- One except clause. What follows knows where the jump out of it stands, if it has one. -/
theorem Checks.emitClause {slot cause : UInt16} {binder : String}
    {exceptionClass body : Gen Unit} {f : Option Nat → Gen α} {hasNext : Bool} {e : Extent}
    (hs : Settled o.depth o.locals) (hc : Takes S around o o x P exceptionClass)
    (hb : Takes S around (o.inner.bind [binder]) (o.inner.bind [binder]) y Q body)
    (hf : ∀ exit : Option Nat, (∀ j ∈ exit, e.size + (ops pos.line 1 ++ x ++ ops pos.line 2 ++
        .skipped (o.room 1 ++ ops pos.line 1 ++ y ++ ops pos.line 4 ++
          ops pos.line hasNext.toNat)).size = j + 1) →
      Checks S around ((o.withExtent e).plus (ops pos.line 1 ++ x ++ ops pos.line 2 ++
        .skipped (o.room 1 ++ ops pos.line 1 ++ y ++ ops pos.line 4 ++
          ops pos.line hasNext.toNat))) o' R (f exit)) :
    Checks S around (o.withExtent e) o' (P ∧ Q ∧ R)
      (Compile.emitClause pos slot cause binder exceptionClass body hasNext >>= f) := by
  have happlied : Takes S around o o (o.room 1 ++ ops pos.line 1 ++ y ++ ops pos.line 4) Q
      (emitApplied pos slot cause binder body) := by
    refine Takes.cast (.inScope pos.line hs [binder] (x := o.room 1 ++ ops pos.line 1 ++ y ++
      ops pos.line 3) fun e => ?_) ?_
    · refine Checks.as (.noted (x := o.room 1) rfl rfl rfl (.after (.emit _ _) fun _ =>
        .after (.defineHidden (o := o) hs [] binder rfl pos ?_) fun _ => (hb _).before fun _ =>
        .after (.emit _ _) fun _ => .after (.emit _ _) fun _ => .emit _ _)) ?_ (by rfl)
      · intro hfits
        simp [Outline.room] at hfits ⊢
        omega
      · simp [append_assoc, ops_add pos.line 1 2, ops_add pos.line 1 1]
    · simp [append_assoc, ops_add pos.line 3 1]
  rw [emitClause_eq]
  simp only [emitTest, bind_assoc, pure_bind]
  refine .after (.emit _ _) fun _ => (hc _).bind fun _ => .after (.emit _ _) fun _ => .jump
    ((happlied _).bind fun _ => ?_)
  cases hasNext with
  | true =>
    simp only [if_true, map_eq_pure_bind, bind_assoc, pure_bind]
    refine .jump (.after (.patch (x := o.room 1 ++ ops pos.line 1 ++ y ++ ops pos.line 4 ++
      ops pos.line 1) ?_ pos) fun _ => (hf _ ?_).behind ?_ (by rfl))
    · simp [Outline.size]
      omega
    · simp [Outline.size, Extent.skipped]
      omega
    · simp [Extent.skipped, append_assoc, ops_add pos.line 1 1]
  | false =>
    simp only [Bool.false_eq_true, if_false, bind_assoc, pure_bind]
    refine .after (.patch (x := o.room 1 ++ ops pos.line 1 ++ y ++ ops pos.line 4 ++
      ops pos.line 0) ?_ pos) fun _ => (hf none (by simp)).behind ?_ (by rfl)
    · simp [Outline.size]
    · simp [Extent.skipped, append_assoc, ops_add pos.line 1 1]

/-- The place of the handlers of a `try` statement. -/
def Outline.handling (o : Outline) : Outline := o.inner.bind [".exception", ".cause"]

/-- What the fall-through path leaves for the end of the statement. -/
theorem Takes.emitWindow (line : Nat) :
    Takes S around o o (.ops line 2) True (Compile.emitWindow line) :=
  Takes.cast (.after (.emit _ _) fun _ => .emit _ _) (ops_add line 1 1).symm

/-- What follows the hidden locals of a `try` statement. -/
theorem Checks.withHidden {e : Extent} {f : Nat → Gen Unit} (hs : Settled o.depth o.locals)
    (hf : ∀ slot, Checks S around (o.handling.withExtent (e ++ o.room 2)) o' P (f slot)) :
    Checks S around (o.withExtent e) o' P (emitHidden pos >>= f) := by
  have hroom : ∀ hidden : List String, hidden.length < 2 → (e ++ o.room 2).fits = true →
      o.locals.length + hidden.length < FunctionState.maxLocals := by
    intro hidden hlt hfits
    simp [Outline.room] at hfits
    omega
  unfold emitHidden
  simp only [bind_assoc, pure_bind]
  exact .after .beginScope fun _ => .withCount (.noted (x := o.room 2) rfl rfl rfl
    (.after (.defineHidden (o := o) hs [] ".exception" rfl pos (hroom [] (by decide))) fun _ =>
      .after (.defineHidden (o := o) hs [".exception"] ".cause" (by simp) pos
        (hroom [".exception"] (by simp))) fun _ => hf _))

/-- The `ensure` part is emitted once more behind the handlers. -/
theorem Checks.emitEnsurePart {e : Extent} {ensure : Context → Gen Unit} {count setup : Nat}
    (hs : Settled o.depth o.locals)
    (he : Takes S around o.handling o.handling z P (ensure (ctx.within count 0 none)))
    (hsize : e.size = setup + 1 + y.size) :
    Checks S around (o.handling.withExtent e)
      ((o.withExtent e).plus (.limit (y.size ≤ Chunk.maxJump) ++ z ++ ops pos.line 3)) P
      (Compile.emitEnsurePart ctx pos count setup ensure) := by
  refine Checks.as (.after (.patch (o := o.handling.withExtent e) (x := y) hsize pos) fun _ =>
    (he _).before fun _ => .after (.emit _ _) fun _ =>
    Takes.endScope (o := o) pos.line hs [".exception", ".cause"] _) ?_ (by rfl)
  simp [append_assoc, ops_add pos.line 1 2]

section Try

variable {body ensure : Context → Gen Unit} {clauses : Context → UInt16 → UInt16 → Gen Unit}

/-- `try` with an `ensure` part alone. Inside the body what that part asks for is on the side. -/
theorem Takes.tryEnsure (hs : Settled o.depth o.locals)
    (hb : Takes (S ∧ R) around o o x P
      (body (ctx.within o.locals.length 1 (some (ensure ctx)))))
    (he : Takes S around o.handling o.handling z R (ensure (ctx.within o.locals.length 0 none))) :
    Takes S around o o (.tryEnsure pos.line (o.room 2) x z) (P ∧ R)
      (emitTry ctx pos body none (some ensure)) := by
  intro e
  rw [emitTry_ensure]
  refine Checks.as (.jump (.withCount ((hb _).seq (fun _ => .after (.emit _ _) fun _ =>
    .after (Takes.emitWindow pos.line _) fun _ => .withHidden (o := o) hs fun _ =>
    .emitEnsurePart (o := o) (y := x ++ ops pos.line 3 ++ o.room 2) hs he ?_)
      fun hS hR => ⟨hS, hR⟩))) ?_ (by rfl)
  · simp [Outline.size]
    omega
  · simp [Extent.tryEnsure, Extent.skipped, append_assoc, ops_add pos.line 1 2]

/-- `try` with except clauses alone. -/
theorem Takes.tryClauses (hs : Settled o.depth o.locals)
    (hb : Takes S around o o x P (body (ctx.within o.locals.length 1 none)))
    (hc : ∀ slot cause, Takes S around o.handling o.handling y Q
      (clauses (ctx.within o.locals.length 0 none) slot cause)) :
    Takes S around o o (.tryClauses pos.line (o.room 2) x y) (P ∧ Q)
      (emitTry ctx pos body (some clauses) none) := by
  intro e
  rw [emitTry_clauses]
  refine Checks.as (.jump (.withCount ((hb _).bind fun _ => .after (.emit _ _) fun _ =>
    .withHidden (o := o) hs fun _ => .jump (.after
    (.patch (x := x ++ ops pos.line 1 ++ o.room 2 ++ ops pos.line 1) ?_ pos) fun _ =>
    (hc _ _ _).before fun _ => .after (.emit _ _) fun _ =>
    .after (Takes.endScope (o := o) pos.line hs [".exception", ".cause"] _) fun _ =>
    .patch (x := y ++ ops pos.line 3) ?_ pos)))) ?_ (by rfl)
  · simp [Outline.size]
    omega
  · simp [Outline.size]
    omega
  · simp [Extent.tryClauses, Extent.skipped, append_assoc, ops_add pos.line 1 2]

/-- `try` with both. -/
theorem Takes.tryBoth (hs : Settled o.depth o.locals)
    (hb : Takes (S ∧ R) around o o x P
      (body (ctx.within o.locals.length 2 (some (ensure ctx)))))
    (hc : ∀ slot cause, Takes (S ∧ R) around o.handling o.handling y Q
      (clauses (ctx.within o.locals.length 1 (some (ensure ctx))) slot cause))
    (he : Takes S around o.handling o.handling z R (ensure (ctx.within o.locals.length 0 none))) :
    Takes S around o o (.tryBoth pos.line (o.room 2) x y z) (P ∧ Q ∧ R)
      (emitTry ctx pos body (some clauses) (some ensure)) := by
  intro e
  rw [emitTry_both]
  refine Checks.as (.jump (.jump (.withCount ((hb _).seq (fun _ => .after (.emit _ _) fun _ =>
    .after (.emit _ _) fun _ => .after (Takes.emitWindow pos.line _) fun _ =>
    .withHidden (o := o) hs fun _ => .jump (.after
    (.patch (x := x ++ ops pos.line 4 ++ o.room 2 ++ ops pos.line 1) ?_ pos) fun _ =>
    (hc _ _ _).seq (fun _ => .after (.emit _ _) fun _ =>
      .after (.patch (x := y ++ ops pos.line 1) ?_ pos) fun _ =>
      .emitEnsurePart (o := o) (y := ops pos.line 1 ++
        Extent.skipped (x ++ ops pos.line 4 ++ o.room 2 ++ ops pos.line 1) ++
        Extent.skipped (y ++ ops pos.line 1)) hs he ?_) fun hS hR => ⟨hS, hR⟩))
      fun hS hQR => ⟨hS, hQR.2⟩)))) ?_ (by rfl)
  · simp [Outline.size]
    omega
  · simp [Outline.size]
    omega
  · simp [Outline.size, Extent.skipped]
    omega
  · simp [Extent.tryBoth, Extent.skipped, append_assoc, ops_add pos.line 1 3, ops_add pos.line 1 2]

end Try

/-- Closing a resource, unless it is falsy, asks for nothing where its variable has a value. -/
theorem Takes.emitClose {name : String} (h : Known around o name) :
    Takes S around o o (.close (useOf around o name ++ ops pos.line 1) pos.line) True
      (Compile.emitClose pos name) := by
  have hget : Takes S around o o (useOf around o name ++ ops pos.line 1) True
      (Compile.getVariable name pos) := (Takes.getVariable name pos).congr (iff_true_intro h)
  have hclose : Takes S around o o _ True (do
      Compile.getVariable name pos
      Compile.emit (.invoke 0 (← Compile.addName "close" pos)) pos.line
      Compile.emit .pop pos.line) :=
    hget.after fun _ => .after (.addName _ pos) fun _ => .after (.emit _ _) fun _ => .emit _ _
  refine ((Takes.emitBranch hget hclose).congr (by simp)).cast ?_
  simp [Extent.close, append_assoc, ops_add pos.line 1 1]

/-- The place of the value and the body of a `with`, whose variable is a local. -/
def Outline.resource (o : Outline) (name : String) : Outline := (o.inner.bind [name]).inner

/-- The context there. -/
def Context.resource (ctx : Context) (pos : Position) (o : Outline) (name : String) : Context :=
  ctx.within (o.inner.bind [name]).locals.length 1 (some (Compile.emitClose pos name))

/-- The variable of a `with` is in sight of its value. -/
theorem Takes.emitWith {name : String} {value body : Context → Gen Unit}
    (hs : Settled o.depth o.locals) (hname : isOrdinary name = true)
    (hv : Takes S around (o.resource name) (o.resource name) x P (value (ctx.resource pos o name)))
    (hb : Takes S around (o.resource name) (o.resource name) y Q (body (ctx.resource pos o name))) :
    Takes S around o o
      (o.room 1 ++ ops pos.line 1 ++
        .tryEnsure pos.line ((o.inner.bind [name]).room 2)
          (x ++ (useOf around (o.resource name) name ++ ops pos.line 1) ++ ops pos.line 1 ++ y)
          (.close (useOf around (o.inner.bind [name]).handling name ++ ops pos.line 1) pos.line) ++
        ops pos.line 1)
      (P ∧ Q) (Compile.emitWith ctx pos name value body) := by
  have hin : Settled (o.inner.bind [name]).depth (o.inner.bind [name]).locals :=
    Outline.settled_bind (o := o.inner) (hs.mono (Nat.le_succ _)) _
  have hdeclare : Takes S around o.inner (o.inner.bind [name]) (o.room 1 ++ ops pos.line 1) True
      (Compile.emitDeclare pos [name] none) := by
    rw [← Outline.declare_inner]
    have hnull : Values (fun x m => Takes S around (o.inner.initial [name])
        (o.inner.initial [name]) x True m) True [name] pos.line none (ops pos.line 1) :=
      .nulls trivial
    exact ((Takes.emitDeclare (fun _ => Outline.lists_inner hs) (by simpa using hname) hnull).congr
      (iff_of_true ⟨.inr rfl, trivial⟩ trivial)).cast (append_nothing _)
  have hset : Takes S around (o.resource name) (o.resource name)
      (useOf around (o.resource name) name ++ ops pos.line 1) True
      (Compile.setVariable name pos) :=
    (Takes.setVariable name pos).congr (iff_true_intro (known_bound o.inner name))
  have hbody : Takes S around (o.inner.bind [name]) (o.inner.bind [name])
      (x ++ (useOf around (o.resource name) name ++ ops pos.line 1) ++ ops pos.line 1 ++ y) (P ∧ Q)
      (Compile.inScope pos.line do
        value (ctx.resource pos o name)
        Compile.setVariable name pos
        Compile.emit .pop pos.line
        body (ctx.resource pos o name)) := by
    refine (Takes.inScope pos.line hin [] (hv.bind fun _ => hset.after fun _ =>
      .after (.emit _ _) fun _ => hb)).cast ?_
    simp [append_assoc]
  have hclose : Takes S around (o.inner.bind [name]).handling (o.inner.bind [name]).handling _ True
      (Compile.emitClose pos name) :=
    .emitClose (Known.bind (o := (o.inner.bind [name]).inner) (known_bound o.inner name) _)
  refine (Takes.inScope pos.line hs [name] (hdeclare.after fun _ =>
    (Takes.tryEnsure hin (hbody.mono And.left) hclose).congr (Iff.of_eq (and_true _)))).cast ?_
  simp [append_assoc]

/-! ## Declarations -/

/-- A local is declared once in its scope. -/
theorem Takes.defineLocal (name : String) (pos : Position) :
    Takes S around o (o.bind [name]) (o.room 1) (redeclares name o.depth o.locals = false)
      (Compile.defineLocal name pos) := fun e =>
  .limit (Checks.defineLocal (o := (o.withExtent e).plus (o.room 1))
    ((o.withExtent e).roomy_limit 1) name pos)

/-- The first local of a scope. -/
theorem Takes.defineFirst (h : Settled o.depth o.locals) (name : String) (pos : Position) :
    Takes S around o.inner (o.inner.bind [name]) (o.room 1) True (Compile.defineLocal name pos) :=
  (Takes.defineLocal (o := o.inner) name pos).congr (iff_true_intro (redeclares_settled h name))

/-- A declaration makes a global at the top level and a local elsewhere. -/
theorem Takes.defineVariable (hl : o.depth ≠ 0 → o.Lists scope) {name : String}
    (hname : isOrdinary name = true) (pos : Position) :
    Takes S around o (o.declare [name]) (.definition (o.depth == 0) (o.room 1) name pos.line)
      (o.Admits scope [name]) (Compile.defineVariable name pos) := by
  refine .withTop ?_
  unfold Outline.declare Outline.Admits Extent.definition
  by_cases h : o.depth = 0
  · simp only [h, beq_self_eq_true, if_true]
    exact Takes.congr (.after (.addName name pos) fun _ => .emit _ _)
      (iff_of_true trivial (.inl trivial))
  · simp only [beq_eq_false_iff_ne.2 h, if_neg h, Bool.false_eq_true, if_false]
    refine (Takes.defineLocal name pos).congr ?_
    rw [hl h name hname]
    simp [h, unused]

/-- Declaring does not change whether values stay. -/
theorem Outline.settled_declare (h : Settled o.depth o.locals) (names : List String) :
    Settled (o.declare names).depth (o.declare names).locals := by
  unfold Outline.declare
  split
  · exact h
  · exact Outline.settled_bind h names

/-- A class is declared, and its superclass and its methods follow. -/
theorem Takes.emitClass {name : String} {superclass methods : Gen Unit}
    (hs : Settled o.depth o.locals) (hl : o.depth ≠ 0 → o.Lists scope)
    (hname : isOrdinary name = true) (hknown : Known around (o.declare [name]) name)
    (hsuper : Takes S around (o.declare [name]).inner (o.declare [name]).inner x P superclass)
    (hm : Takes S around ((o.declare [name]).inner.bind ["super"])
      ((o.declare [name]).inner.bind ["super"]) y Q methods) :
    Takes S around o (o.declare [name])
      (.name name ++ ops pos.line 1 ++ .definition (o.depth == 0) (o.room 1) name pos.line ++ x ++
        (o.declare [name]).room 1 ++
        (useOf around ((o.declare [name]).inner.bind ["super"]) name ++ ops pos.line 1) ++
        ops pos.line 1 ++ y ++ ops pos.line 2)
      (o.Admits scope [name] ∧ P ∧ Q) (Compile.emitClass pos name superclass methods) := by
  have hs' := Outline.settled_declare hs [name]
  have hdefine : Takes S around o (o.declare [name]) _ (o.Admits scope [name])
      (Compile.defineVariable name pos) := .defineVariable hl hname pos
  generalize o.declare [name] = o' at hsuper hm hs' hdefine hknown ⊢
  have hget : Takes S around (o'.inner.bind ["super"]) (o'.inner.bind ["super"])
      (useOf around (o'.inner.bind ["super"]) name ++ ops pos.line 1) True
      (Compile.getVariable name pos) :=
    (Takes.getVariable name pos).congr (iff_true_intro (Known.bind (o := o'.inner) hknown ["super"]))
  unfold Compile.emitClass
  refine Takes.cast (.after (.addName name pos) fun _ => .after (.emit _ _) fun _ =>
    hdefine.bind fun _ => .after .beginScope fun _ => hsuper.bind fun _ =>
    .after (.defineFirst hs' "super" pos) fun _ => hget.after fun _ =>
    .after (.emit _ _) fun _ => hm.before fun _ => .after (.emit _ _) fun _ =>
    .endScope pos.line hs' ["super"]) ?_
  simp [append_assoc, ops_add pos.line 1 1]

/-- Names are unused one after another. -/
theorem unused_append (scope xs ys : List String) :
    unused scope (xs ++ ys) = (unused scope xs && unused (xs.reverse ++ scope) ys) := by
  induction xs generalizing scope with
  | nil => simp [unused]
  | cons x xs ih =>
    rw [List.cons_append, unused_cons, unused_cons, ih, List.reverse_cons, List.append_assoc,
      Bool.and_assoc]
    rfl

/-! ## Functions -/

/-- The defaults of parameters are literals. -/
theorem isSome_literal? (e : Expr) : (literal? e).isSome = e.isLiteral := by
  cases e <;> rfl

/-- Once there is a default, every parameter needs one. -/
theorem toBool_collectDefaults (pos : Position) (found : Array Constant) (params : List Parameter) :
    (collectDefaults pos found params).toBool =
      if found.isEmpty then defaultsTrail params
      else params.all (·.default.any Expr.isLiteral) := by
  induction params generalizing found with
  | nil =>
    rw [collectDefaults]
    split <;> rfl
  | cons p params ih =>
    rw [collectDefaults, defaultsTrail, List.dropWhile_cons, List.all_cons]
    cases hp : p.default with
    | none =>
      cases hfound : found.isEmpty with
      | true =>
        simp only [hfound, if_true, ih, Option.isNone_none]
        rfl
      | false => simp [Except.toBool]
    | some e =>
      have hsome := isSome_literal? e
      cases hlit : literal? e with
      | none =>
        rw [hlit] at hsome
        simp [hlit, Except.toBool, hp, ← hsome]
      | some c =>
        rw [hlit] at hsome
        simp [hlit, ih, hp, ← hsome]

/-- The defaults of parameters are literals and come last. -/
theorem Takes.parameterDefaults (params : List Parameter) (pos : Position) :
    Takes S around o o (.limit (params.length ≤ maxArguments)) (defaultsTrail params = true)
      (liftM (Compile.parameterDefaults params pos) : Gen (Array Constant)) := by
  have htrail : (collectDefaults pos #[] params).toBool = defaultsTrail params :=
    toBool_collectDefaults pos #[] params
  intro e
  unfold Compile.parameterDefaults
  refine .lift (fun ds h => ?_) fun d h hp => ?_
  · split at h
    · cases h
    · rw [← htrail, h]
      rfl
  · split at h
    · next hmany => exact decide_eq_false (Nat.not_le.2 hmany)
    · rw [← htrail, h] at hp
      cases hp

/-- A host function unpacks no parameter. -/
theorem Takes.nativeConstant (d : NativeDecl) :
    Takes S around o o (.native d) (d.valid = true) (Compile.nativeConstant d) := by
  unfold Compile.nativeConstant NativeDecl.valid
  split
  · next p h =>
    refine .fail _ _ fun hvalid => ?_
    have hall := List.all_eq_true.1 (Bool.and_eq_true_iff.1 hvalid).1 p (List.mem_of_find?_eq_some h)
    have hnot := List.find?_some h
    simp [hall] at hnot
  · next h =>
    have hall : d.params.all (·.pattern.isEmpty) = true := by
      simpa [List.all_eq_true] using h
    refine Takes.congr (P := defaultsTrail d.params = true) ?_ (by simp [hall])
    exact (Takes.parameterDefaults d.params d.pos).before fun defaults =>
      Takes.addConstant (.native ⟨d.name, _, defaults, _⟩) d.pos

/-! ### Parameters -/

/-- The names of parameters that are not unpacked. -/
def plainNames (params : List Parameter) : List String :=
  (params.filter (·.pattern.isEmpty)).map Parameter.name

/-- A number is read off its digits. -/
theorem toString_inj {i j : Nat} (h : toString i = toString j) : i = j := by
  have hdigits : Nat.toDigits 10 i = Nat.toDigits 10 j := by
    have hlists := congrArg String.toList h
    simpa [Nat.repr_eq_ofList_toDigits] using hlists
  rw [← Nat.ofDigitChars_toDigits (b := 10) (n := i) (by decide) (by decide), hdigits,
    Nat.ofDigitChars_toDigits (by decide) (by decide)]

/-- Hidden names of parameters are different. -/
theorem argument_beq (i j : Nat) : (".arg" ++ toString i == ".arg" ++ toString j) = (i == j) := by
  rw [Bool.eq_iff_iff, beq_iff_eq, beq_iff_eq]
  constructor
  · intro h
    have hlists := congrArg String.toList h
    rw [String.toList_append, String.toList_append, List.append_cancel_left_eq,
      String.toList_inj] at hlists
    exact toString_inj hlists
  · rintro rfl
    rfl

/-- No program names the hidden local of a parameter. -/
theorem isOrdinary_argument (i : Nat) : isOrdinary (".arg" ++ toString i) = false := by
  simp [isOrdinary, isHidden, String.toList_append]

/-- Each parameter is a local. -/
theorem length_argumentNames (i : Nat) (params : List Parameter) :
    (argumentNames i params).length = params.length := by
  induction params generalizing i with
  | nil => rfl
  | cons p params ih => rw [argumentNames, List.length_cons, List.length_cons, ih]

/-- The hidden names of later parameters are not declared yet. -/
def Outline.Spares (o : Outline) (i : Nat) : Prop :=
  ∀ j, i ≤ j → redeclares (".arg" ++ toString j) o.depth o.locals = false

/-- A parameter does not take the hidden names of later ones. -/
theorem Outline.Spares.bind {i : Nat} (h : o.Spares i) {name : String}
    (hname : isOrdinary name = true ∨ name = ".arg" ++ toString i) :
    (o.bind [name]).Spares (i + 1) := by
  intro j hj
  have hne : (".arg" ++ toString j == name) = false := by
    rcases hname with hname | rfl
    · refine beq_eq_false_iff_ne.2 ?_
      rintro rfl
      rw [isOrdinary_argument] at hname
      cases hname
    · rw [argument_beq]
      exact beq_eq_false_iff_ne.2 (by omega)
  rw [redeclares_bind, List.contains_cons, hne, h j (by omega)]
  rfl

/-- A parameter that is not unpacked has an ordinary name. -/
theorem isOrdinary_parameter {p : Parameter} (h : p.ordinary = true)
    (hempty : p.pattern.isEmpty = true) : isOrdinary p.name = true := by
  simpa [Parameter.ordinary, hempty] using (Bool.and_eq_true_iff.1 h).1

/-- Behind its parameters the scope of a function lists those that are not unpacked. -/
theorem Outline.Lists.arguments {params : List Parameter}
    (hparams : params.all Parameter.ordinary = true) {i : Nat} (hl : o.Lists scope) :
    (o.bind (argumentNames i params)).Lists ((plainNames params).reverse ++ scope) := by
  induction params generalizing o scope i with
  | nil => exact hl
  | cons p params ih =>
    obtain ⟨hparam, hparams⟩ := Bool.and_eq_true_iff.1 hparams
    rw [argumentNames, Outline.bind_cons]
    cases hempty : p.pattern.isEmpty with
    | true =>
      have hplain : plainNames (p :: params) = p.name :: plainNames params := by
        simp [plainNames, hempty]
      rw [hplain, List.reverse_cons, List.append_assoc]
      exact ih hparams (hl.cons (some_any_lt o.depth) p.name)
    | false =>
      have hplain : plainNames (p :: params) = plainNames params := by
        simp [plainNames, hempty]
      rw [hplain]
      exact ih hparams (hl.hide (some_any_lt o.depth) (isOrdinary_argument i))

/-- Parameters are different locals. -/
theorem Checks.defineParameters {params : List Parameter}
    (hparams : params.all Parameter.ordinary = true) {i : Nat} (hl : o.Lists scope)
    (hspare : o.Spares i) (hroom : o.Roomy params.length) :
    Checks S around o (o.bind (argumentNames i params)) (unused scope (plainNames params) = true)
      (Compile.defineParameters pos i params) := by
  induction params generalizing o scope i with
  | nil => exact (Checks.pure _).congr (iff_of_true trivial rfl)
  | cons p params ih =>
    obtain ⟨hparam, hparams⟩ := Bool.and_eq_true_iff.1 hparams
    have hone : o.Roomy 1 := hroom.less (by simp)
    have hmore : ∀ name, (o.bind [name]).Roomy params.length := fun name =>
      Outline.Roomy.bind (hroom.less (by simp [Nat.add_comm]))
    rw [argumentNames, Outline.bind_cons, Compile.defineParameters]
    cases hempty : p.pattern.isEmpty with
    | true =>
      have hname := isOrdinary_parameter hparam hempty
      have hplain : plainNames (p :: params) = p.name :: plainNames params := by
        simp [plainNames, hempty]
      have hrest := ih hparams (hl.cons (some_any_lt o.depth) p.name) (hspare.bind (.inl hname))
        (hmore p.name)
      rw [hplain]
      refine ((Checks.defineLocal hone p.name pos).bind fun _ => hrest).congr ?_
      rw [hl _ hname, unused_cons, Bool.and_eq_true, Bool.not_eq_true']
    | false =>
      have hplain : plainNames (p :: params) = plainNames params := by
        simp [plainNames, hempty]
      have hrest := ih hparams (hl.hide (some_any_lt o.depth) (isOrdinary_argument i))
        (hspare.bind (.inr rfl)) (hmore _)
      rw [hplain]
      exact (Checks.defineFresh (hspare i (Nat.le_refl i)) hone pos).after fun _ => hrest

/-- What parameters are unpacked into are different locals, too. -/
theorem Checks.unpackParameters {params : List Parameter}
    (hparams : params.all Parameter.ordinary = true) {i : Nat} (hl : o.Lists scope)
    (hroom : o.Roomy (params.flatMap Parameter.pattern).length) :
    Checks S around o
      ((o.bind (params.flatMap Parameter.pattern)).plus (.unpackings pos.line params))
      (unused scope (params.flatMap Parameter.pattern) = true)
      (Compile.unpackParameters pos i params) := by
  induction params generalizing o scope i with
  | nil => exact ((Checks.pure _).to (Outline.plus_nothing _).symm).congr (iff_of_true trivial rfl)
  | cons p params ih =>
    obtain ⟨hparam, hparams⟩ := Bool.and_eq_true_iff.1 hparams
    have hall : p.pattern.all isOrdinary = true := (Bool.and_eq_true_iff.1 hparam).2
    rw [List.flatMap_cons, List.length_append] at hroom
    rw [List.flatMap_cons, unused_append, Bool.and_eq_true, ← Outline.bind_bind,
      Compile.unpackParameters, Extent.unpackings]
    cases hempty : p.pattern.isEmpty with
    | true =>
      have hnil := List.isEmpty_iff.1 hempty
      rw [hnil, List.length_nil, Nat.zero_add] at hroom
      rw [hnil]
      exact ((ih hparams hl hroom).as (by simp) (by rfl)).congr (by simp [unused])
    | false =>
      refine Checks.as (.unless (b := decide (p.pattern.length ≤ maxArguments)) (fun hle => ?_)
        (.after (.emit _ _) fun _ => .after (.emit _ _) fun _ =>
          (Checks.defineAll (o := ((o.plus (.limit _)).plus _).plus _) hl hall
            (((hroom.plus _).plus _).plus _ |>.less (Nat.le_add_right _ _)) pos).bind fun _ =>
          ih hparams (Outline.Lists.bind hl p.pattern)
            (Outline.Roomy.bind (((hroom.plus _).plus _).plus _)))) ?_ (by rfl)
      · exact Nat.not_lt.2 (of_decide_eq_true hle)
      · simp [append_assoc, ops_add pos.line 1 1]

/-- The beginning of a function. -/
def Outline.entry (slotZero : String) : Outline := ⟨[(slotZero, some 0)], 1, [], .nothing⟩

/-- The beginning of its body, behind its parameters. -/
def Outline.body (slotZero : String) (params : List Parameter) (vararg : Option String) : Outline :=
  (((Outline.entry slotZero).bind (argumentNames 0 params)).bind vararg.toList).bind
    (params.flatMap Parameter.pattern)

/-- A function has declared nothing when it begins. -/
theorem Outline.lists_entry (slotZero : String) : (Outline.entry slotZero).Lists [] :=
  fun _ _ => rfl

/-- Nor has it hidden locals. -/
theorem Outline.spares_entry (slotZero : String) : (Outline.entry slotZero).Spares 0 :=
  fun _ _ => rfl

/-- The values of parameters stay. -/
theorem Outline.settled_body (slotZero : String) (params : List Parameter) (vararg : Option String) :
    Settled (Outline.body slotZero params vararg).depth
      (Outline.body slotZero params vararg).locals := by
  have hentry : Settled (Outline.entry slotZero).depth (Outline.entry slotZero).locals := by
    intro l hl
    rw [List.mem_singleton.1 hl]
    exact ⟨0, Nat.zero_le 1, rfl⟩
  exact settled_bind (settled_bind (settled_bind hentry _) _) _

/-- The scope of a function's body lists its parameters. -/
theorem Outline.lists_body {slotZero : String} {params : List Parameter} {vararg : Option String}
    (hsig : ordinarySignature params vararg = true) :
    (Outline.body slotZero params vararg).Lists (parameterNames params vararg).reverse := by
  have hlists := Outline.Lists.arguments (Bool.and_eq_true_iff.1 hsig).1 (i := 0)
    (Outline.lists_entry slotZero)
  have hall := (hlists.bind vararg.toList).bind (params.flatMap Parameter.pattern)
  rw [parameterNames, List.reverse_append, List.reverse_append, List.append_assoc]
  rwa [List.append_nil] at hall

/-- The tuple of further arguments is a local. -/
theorem Checks.defineOptional {vararg : Option String} (hl : o.Lists scope)
    (hvararg : vararg.all isOrdinary = true) (hroom : o.Roomy vararg.toList.length)
    (pos : Position) :
    Checks S around o (o.bind vararg.toList) (unused scope vararg.toList = true)
      (vararg.forM (Compile.defineLocal · pos)) := by
  cases vararg with
  | none => exact (Checks.pure _).congr (iff_of_true trivial rfl)
  | some name =>
    have hall : [name].all isOrdinary = true := by simpa using hvararg
    refine (Checks.defineLocal hroom name pos).congr ?_
    rw [hl name hvararg]
    simp [unused]

/-- An instruction that only generators have. -/
theorem Checks.emitIf (isGenerator : Bool) (op : Op) (line : Nat) :
    Checks S around o (o.plus (.ops line isGenerator.toNat)) True
      (Compile.emitIf isGenerator op line) := by
  cases isGenerator with
  | false => exact (Checks.pure _).to (Outline.plus_nothing _).symm
  | true => exact .emit _ _

/-- The code of a function, from its parameters to its last `return`. -/
theorem checks_function {sig : Signature} {body : Context → Gen Unit} {inner : Context}
    (hsig : ordinarySignature sig.params sig.vararg = true)
    (hb : Takes S around (.body sig.kind.slotZero sig.params sig.vararg) o' y Q (body inner)) :
    Checks S around (.entry sig.kind.slotZero)
      (o'.withExtent (.code ((Outline.body sig.kind.slotZero sig.params sig.vararg).room 0)
        sig.isGenerator sig.params y sig.pos.line sig.endLine))
      (unused [] (parameterNames sig.params sig.vararg) = true ∧ Q)
      (do
        emitParameters sig
        emitBody sig inner body
        Compile.emit .return sig.endLine) := by
  obtain ⟨hparams, hvararg⟩ := Bool.and_eq_true_iff.1 hsig
  obtain ⟨room, hroom⟩ : ∃ room, room =
      (Outline.body sig.kind.slotZero sig.params sig.vararg).room 0 := ⟨_, rfl⟩
  have hlists : ((Outline.entry sig.kind.slotZero).plus room).Lists [] := Outline.lists_entry _
  have hspares : ((Outline.entry sig.kind.slotZero).plus room).Spares 0 := Outline.spares_entry _
  -- the parameters and what they are unpacked into fit
  have hroomy : ((Outline.entry sig.kind.slotZero).plus room).Roomy (sig.params.length +
      (sig.vararg.toList.length + (sig.params.flatMap Parameter.pattern).length)) := by
    intro hfits
    simp [hroom, Outline.entry, Outline.room, Outline.body, Outline.bind, Extent.nothing,
      length_argumentNames] at hfits
    simp [Outline.entry, Outline.plus]
    omega
  have hunpack : ∀ e, Checks S around ((((Outline.entry sig.kind.slotZero).plus room).bind
      (argumentNames 0 sig.params)).bind sig.vararg.toList |>.plus e) _ _
      (Compile.unpackParameters sig.pos 0 sig.params) := fun e =>
    .unpackParameters hparams ((hlists.arguments hparams).bind sig.vararg.toList)
      (Outline.Roomy.plus (Outline.Roomy.bind (Outline.Roomy.bind (hroomy.less (by
        rw [length_argumentNames])))) e)
  unfold emitParameters emitBody
  simp only [bind_assoc]
  refine Checks.congr (Checks.as (.noted (x := room) (hroom ▸ rfl) (hroom ▸ rfl) (hroom ▸ rfl)
    ((Checks.defineParameters hparams hlists hspares
      (hroomy.less (Nat.le_add_right _ _))).bind fun _ =>
    (Checks.defineOptional (hlists.arguments hparams) hvararg (Outline.Roomy.bind (hroomy.less (by
      rw [length_argumentNames]
      omega))) sig.pos).bind fun _ =>
    .after (.emitIf _ _ _) fun _ => (hunpack _).bind fun _ => (hb _).before fun _ =>
    .after (.emit _ _) fun _ => .after (.emitIf _ _ _) fun _ => .emit _ _)) ?_ (by rfl)) ?_
  · simp [hroom, Extent.code, Outline.entry, append_assoc,
      ops_add sig.endLine sig.isGenerator.toNat 1]
  · rw [parameterNames, ← plainNames, unused_append, unused_append, Bool.and_eq_true,
      Bool.and_eq_true]
    simp only [List.append_nil, and_assoc]

/-- A function that keeps the limits ends. -/
theorem not_stops_endFunction {t : CompilerState} {g : FunctionState} {gs : List FunctionState}
    {d : Diagnostic} (hover : t.current.overflowed = false) (heq : t.enclosing = g :: gs) :
    ¬ Stops endFunction t d := by
  obtain ⟨current, enclosing⟩ := t
  subst heq
  intro hd
  rw [endFunction, stops_bind] at hd
  rcases hd with hd | ⟨_, _, hget, hd⟩
  · cases hd
  obtain ⟨rfl, rfl⟩ := ran_get.1 hget
  dsimp only at hover hd
  rw [if_neg (by simp [hover])] at hd
  cases hd

/-- A function begins with an outline. -/
theorem shows_start (slotZero : String) :
    FunctionState.Shows { FunctionState.start slotZero with depth := 1 } (.entry slotZero) where
  locals := rfl
  depth := rfl
  loops := .nil
  size := rfl
  begun := nofun
  pool := ⟨List.nodup_nil, List.nil_subset _, rfl⟩
  lines _ := ⟨rfl, trails_empty⟩

/-- Code of a function of its own, and what follows in the function around. What the function captures
and is no local of the function around, that one captures, too. -/
theorem Checks.enclosed {slotZero : String} {m : Gen Unit} {f : FunctionState → Gen α}
    {o₁ : Outline} (hm : Checks S (o :: around) (.entry slotZero) o' P m) (hloops : o'.loops = [])
    (hfits : o.extent.fits = true → o'.extent.within = true)
    (hf : ∀ built, Checks S around (o.capture o'.extent.captured) o₁ Q (f built)) :
    Checks S around o o₁ (P ∧ Q) (do
      beginFunction slotZero
      Compile.beginScope
      m
      let built ← endFunction
      f built) := by
  have hbegin : ∀ s : CompilerState, s.Outlined around o →
      CompilerState.Outlined (o :: around) (.entry slotZero)
        ⟨{ FunctionState.start slotZero with depth := 1 }, s.current :: s.enclosing⟩ := by
    intro s hs
    refine ⟨shows_start slotZero, ⟨List.nodup_nil, Nat.zero_le _, nofun⟩, _, _, rfl, ?_⟩
    rw [show (Outline.entry slotZero).extent.captured = [] from rfl, Outline.capture_nil]
    exact hs
  have hend : ∀ t : CompilerState, t.Outlined (o :: around) o' →
      ∃ g gs, t.enclosing = g :: gs ∧ ∀ captures,
        CompilerState.Outlined around (o.capture o'.extent.captured) ⟨g.capture captures, gs⟩ := by
    rintro t ⟨-, -, g, gs, heq, hout⟩
    exact ⟨g, gs, heq, fun captures =>
      hout.change (hout.shows.alike (alike_capture g captures)) rfl rfl⟩
  -- where the function around keeps the limits, this one does
  have hwithin : Within around o₁ → Within (o :: around) o' := by
    intro h
    have hcapture := (hf (.start "")).grows h
    have hx := hfits (Extent.within_iff.1 hcapture.before.fits.1).1
    exact ⟨⟨hx, by simp [hloops]⟩, hcapture⟩
  constructor
  · exact fun h => ((hf (.start "")).grows h).before
  · intro s a s' hs hr
    simp only [ran_bind, ran_beginFunction, ran_beginScope] at hr
    obtain ⟨_, _, rfl, _, _, rfl, _, t, hrm, built, t', hre, hrf⟩ := hr
    obtain ⟨ht, hp⟩ := hm.keeps (hbegin s hs) hrm
    obtain ⟨g, gs, heq, hback⟩ := hend t ht
    obtain ⟨-, rfl, rfl⟩ := (ran_endFunction heq).1 hre
    obtain ⟨hs', hq⟩ := (hf _).keeps (hback _) hrf
    exact ⟨hs', hp, hq⟩
  · intro s d hs hd hS hpq h
    rw [stops_bind] at hd
    rcases hd with hd | ⟨_, _, hrb, hd⟩
    · cases hd
    rw [ran_beginFunction] at hrb
    subst hrb
    rw [stops_bind] at hd
    rcases hd with hd | ⟨_, _, hrs, hd⟩
    · exact absurd hd not_stops_updateFunction
    rw [ran_beginScope] at hrs
    subst hrs
    rw [stops_bind] at hd
    rcases hd with hd | ⟨_, t, hrm, hd⟩
    · exact hm.stops (hbegin s hs) hd hS hpq.1 (hwithin h)
    have ht := (hm.keeps (hbegin s hs) hrm).1
    obtain ⟨g, gs, heq, hback⟩ := hend t ht
    rw [stops_bind] at hd
    rcases hd with hd | ⟨built, t', hre, hd⟩
    · have hlines := (Extent.within_iff.1 (hwithin h).fits.1).2.2.2
      exact absurd hd (not_stops_endFunction (ht.shows.lines hlines).1 heq)
    obtain ⟨-, -, rfl⟩ := (ran_endFunction heq).1 hre
    exact (hf built).stops (hback _) hd hS hpq.2 h

/-- A function asks for valid defaults, for different parameters, and for what its body asks for. A
constructor does not yield. -/
theorem Takes.emitFunction {sig : Signature} {body : Context → Gen Unit}
    (hsig : ordinarySignature sig.params sig.vararg = true) (hloops : o'.loops = [])
    (hb : ∀ e, (sig.isGenerator && sig.kind == .constructor) = false →
      Takes S (o.withExtent e :: around) (.body sig.kind.slotZero sig.params sig.vararg) o' y Q
        (body (ctx.inner sig))) :
    Takes S around o o
      (.closure o.names sig.params
        (.code ((Outline.body sig.kind.slotZero sig.params sig.vararg).room 0) sig.isGenerator
          sig.params y sig.pos.line sig.endLine) sig.pos.line)
      (defaultsTrail sig.params = true ∧ ¬ (sig.isGenerator && sig.kind == .constructor) = true ∧
        unused [] (parameterNames sig.params sig.vararg) = true ∧ Q)
      (Compile.emitFunction ctx sig body) := by
  intro e
  obtain ⟨code, hcode⟩ : ∃ code, code = Extent.code
      ((Outline.body sig.kind.slotZero sig.params sig.vararg).room 0) sig.isGenerator sig.params y
      sig.pos.line sig.endLine := ⟨_, rfl⟩
  rw [emitFunction_eq, ← hcode, Extent.closure, append_assoc, append_assoc, append_assoc,
    Outline.plus_append]
  refine (Takes.parameterDefaults sig.params sig.pos _).bind fun defaults => .require fun h =>
    .limit (b := code.within) ?_
  let e' := e ++ .limit (sig.params.length ≤ maxArguments) ++ .limit code.within
  have hfunction := checks_function hsig (hb e' (by simpa using h))
  rw [← hcode] at hfunction
  have hclose : ∀ built : FunctionState, Checks S around
      ((o.withExtent e').capture code.captured)
      ((((o.withExtent e').capture code.captured).plus .function).plus (.ops sig.pos.line 1)) True
      (do
        let index ← Compile.addConstant (.function (sig.proto defaults built)) sig.pos
        Compile.emit (.closure index built.upvalues.toList) sig.pos.line) := fun built =>
    (Checks.addConstant (.function (sig.proto defaults built)) sig.pos).after fun index => .emit _ _
  have hboth := hfunction.enclosed hloops (fun hfits => (Bool.and_eq_true_iff.1 hfits).2) hclose
  simp only [bind_assoc] at hboth ⊢
  refine (hboth.as ?_ (by rfl)).congr (by rw [and_true])
  simp [e', Outline.capture, Outline.names, Outline.withExtent, append_assoc]
  rfl

end Emitters

end ScriptEngine.Compile
