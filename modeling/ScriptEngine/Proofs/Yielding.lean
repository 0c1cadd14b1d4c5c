import ScriptEngine.Proofs.Acceptance

/-!
# What tells generators from other functions

Which functions are generators is found out twice: from the tree, before a function is compiled, and
by the code that its body turns into. `Marks` says of a generator of code that it keeps the code
under construction to the form of its kind of function, and what it is sure to leave there: a
`yield`, and prototypes of some declarations. It is closed under sequencing. The code of a pending
`ensure` part may be emitted at any jump out of its `try` statement, so that nothing is said of what
a jump leaves.
-/

namespace ScriptEngine.Source

mutual

/-- The functions declared in an expression, at any depth. -/
def Expr.functions : Expr → List FunctionDecl
  | .number _ _ | .string _ _ | .bool _ _ | .null _ | .ident _ _ | .receiver _
  | .superMember _ _ => []
  | .unary _ _ e | .spread _ e | .member _ e _ => e.functions
  | .binary _ _ l r | .conj _ l r | .disj _ l r | .assign _ l r | .compound _ _ l r
  | .index _ l r => l.functions ++ r.functions
  | .conditional _ c a b => c.functions ++ (a.functions ++ b.functions)
  | .call _ callee args => callee.functions ++ Expr.functionsAll args
  | .superCall _ _ args => Expr.functionsAll args
  | .list _ items | .tuple _ items => Expr.functionsAll items
  | .table _ entries => Expr.functionsEntries entries
  | .function _ ⟨name, params, vararg, body, pos⟩ =>
    ⟨name, params, vararg, body, pos⟩ :: Stmt.functionsAll body
  | .yield _ value =>
    match value with
    | some e => e.functions
    | none => []

/-- The functions declared in expressions. -/
def Expr.functionsAll : List Expr → List FunctionDecl
  | [] => []
  | e :: rest => e.functions ++ Expr.functionsAll rest

/-- The functions declared in keys and values. -/
def Expr.functionsEntries : List (Expr × Expr) → List FunctionDecl
  | [] => []
  | (k, v) :: rest => k.functions ++ (v.functions ++ Expr.functionsEntries rest)

/-- The functions and methods declared in a statement, at any depth. -/
def Stmt.functions : Stmt → List FunctionDecl
  | .expression _ e | .raise _ e => e.functions
  | .declare _ _ value | .returnValue _ value =>
    match value with
    | some e => e.functions
    | none => []
  | .block _ body => Stmt.functionsAll body
  | .branch _ c t e =>
    c.functions ++ (t.functions ++
      match e with
      | some e => e.functions
      | none => [])
  | .whileLoop _ c body => c.functions ++ body.functions
  | .forLoop _ initial condition step body =>
    (match initial with
      | some s => s.functions
      | none => []) ++
    ((match condition with
      | some e => e.functions
      | none => []) ++
    ((match step with
      | some e => e.functions
      | none => []) ++ body.functions))
  | .forEach _ _ iterable body => iterable.functions ++ body.functions
  | .breakLoop _ | .continueLoop _ | .native _ _ | .importModule _ _ => []
  | .guarded _ body clauses ensure =>
    body.functions ++ (clausesFunctions clauses ++
      match ensure with
      | some s => s.functions
      | none => [])
  | .withResource _ _ value body => value.functions ++ body.functions
  | .function _ ⟨name, params, vararg, body, pos⟩ =>
    ⟨name, params, vararg, body, pos⟩ :: Stmt.functionsAll body
  | .classDef _ _ superclass methods =>
    (match superclass with
      | some e => e.functions
      | none => []) ++ methodsFunctions methods

/-- The functions declared in statements. -/
def Stmt.functionsAll : List Stmt → List FunctionDecl
  | [] => []
  | s :: rest => s.functions ++ Stmt.functionsAll rest

/-- The functions declared in except clauses. -/
def clausesFunctions : List ExceptClause → List FunctionDecl
  | [] => []
  | ⟨_, c, _, body⟩ :: rest => c.functions ++ (body.functions ++ clausesFunctions rest)

/-- The methods of a class and the functions declared in them. -/
def methodsFunctions : List Method → List FunctionDecl
  | [] => []
  | .function ⟨name, params, vararg, body, pos⟩ :: rest =>
    ⟨name, params, vararg, body, pos⟩ :: (Stmt.functionsAll body ++ methodsFunctions rest)
  | .native _ :: rest => methodsFunctions rest

end

/-- The functions in a `for` loop are those in its parts, in the order in which they are
compiled. -/
theorem Stmt.functions_forLoop (pos : Position) (initial : Option Stmt)
    (condition step : Option Expr) (body : Stmt) :
    (Stmt.forLoop pos initial condition step body).functions =
      (match initial with
        | some s => s.functions
        | none => []) ++
      ((match condition with
        | some e => e.functions
        | none => []) ++
      ((match step with
        | some e => e.functions
        | none => []) ++ body.functions)) := by
  cases initial <;> cases condition <;> cases step <;> simp [Stmt.functions]

/-- The functions and methods declared anywhere in a program. -/
def Program.functions (program : Program) : List FunctionDecl := Stmt.functionsAll program.body

end ScriptEngine.Source

/-! ## Chunks -/

namespace ScriptEngine.Bytecode

/-- Whether an instruction is one that tells a generator from another function. -/
def Op.isMark : Op → Bool
  | .generator | .yield | .generatorClose | .return => Bool.true
  | _ => Bool.false

/-- Code in the form of its kind of function, whether or not there is a `yield` in it yet. -/
structure Chunk.Marked (isGenerator : Bool) (c : Chunk) : Prop where
  /-- Only a generator yields. -/
  yields : .yield ∈ c.code → isGenerator = true
  /-- Only a generator is closed. -/
  closes : .generatorClose ∈ c.code → isGenerator = true
  /-- A generator, and nothing else, begins with its mark, which does not come again. -/
  begins : ∀ i : Nat, c.code[i]? = some .generator ↔ isGenerator = true ∧ i = 0
  /-- A generator is closed right before each return. -/
  returns : isGenerator = true → ∀ i : Nat, c.code[i]? = some .return →
    ∃ j, i = j + 1 ∧ c.code[j]? = some .generatorClose

section Marked

variable {g : Bool} {c c' : Chunk} {op : Op}

/-- Code that is still empty has the form of a function that is no generator. -/
theorem Chunk.marked_plain (h : c.code = #[]) : c.Marked false where
  yields hy := by simp [h] at hy
  closes hc := by simp [h] at hc
  begins i := by simp [h]
  returns hg := by cases hg

/-- Code that only begins a generator has the form of a generator. -/
theorem Chunk.marked_generator (h : c.code = #[]) (line : Nat) :
    (c.emit .generator line).Marked true where
  yields _ := rfl
  closes _ := rfl
  begins i := by
    rw [emit_code, h]
    cases i <;> simp
  returns _ i hi := by
    rw [emit_code, h] at hi
    cases i <;> simp at hi

/-- An instruction keeps the form if it yields only in a generator, does not begin one again, and
returns from one only after closing it. -/
theorem Chunk.Marked.emit (h : c.Marked g)
    (hkind : op = .yield ∨ op = .generatorClose → g = true) (hfirst : op ≠ .generator)
    (hreturn : op = .return → g = true → c.code.back? = some .generatorClose) (line : Nat) :
    (c.emit op line).Marked g where
  yields hy := by
    rw [emit_code, Array.mem_push] at hy
    cases hy with
    | inl hold => exact h.yields hold
    | inr hnew => exact hkind (.inl hnew.symm)
  closes hc := by
    rw [emit_code, Array.mem_push] at hc
    cases hc with
    | inl hold => exact h.closes hold
    | inr hnew => exact hkind (.inr hnew.symm)
  begins i := by
    rw [emit_code, Array.getElem?_push]
    split
    case isTrue hi =>
      constructor
      · intro hop
        exact absurd (Option.some.inj hop) hfirst
      · intro ⟨hg, hzero⟩
        have hmark := (h.begins 0).2 ⟨hg, rfl⟩
        have hlt : 0 < c.code.size := (Array.getElem?_eq_some_iff.1 hmark).1
        omega
    case isFalse => exact h.begins i
  returns hg i hi := by
    rw [emit_code] at hi ⊢
    rw [Array.getElem?_push] at hi
    split at hi
    case isTrue hsize =>
      have hback := hreturn (Option.some.inj hi) hg
      rw [Array.back?_eq_getElem?] at hback
      have hlt : c.code.size - 1 < c.code.size := (Array.getElem?_eq_some_iff.1 hback).1
      refine ⟨c.code.size - 1, by omega, ?_⟩
      rw [Array.getElem?_push, if_neg (by omega), hback]
    case isFalse =>
      obtain ⟨j, hj, hclose⟩ := h.returns hg i hi
      have hlt : j < c.code.size := (Array.getElem?_eq_some_iff.1 hclose).1
      refine ⟨j, hj, ?_⟩
      rw [Array.getElem?_push, if_neg (by omega), hclose]

/-- What has been emitted stays. -/
theorem Chunk.mem_emit {o : Op} (h : o ∈ c.code) (line : Nat) : o ∈ (c.emit op line).code := by
  rw [emit_code]
  exact Array.mem_push_of_mem _ h

/-- Patching leaves instructions where they are, jumps apart. -/
theorem Chunk.get?_of_patchJump? {j : Nat} (h : c.patchJump? j = some c')
    (hop : op.forwardDistance? = none) (i : Nat) : c'.code[i]? = some op ↔ c.code[i]? = some op := by
  obtain ⟨-, -, -, hcode⟩ := patchJump?_code h
  rw [hcode, Array.getElem?_modify]
  split
  case isFalse => rfl
  case isTrue =>
    cases hi : c.code[i]? with
    | none => simp
    | some o =>
      rw [Option.map_some, Option.some_inj, Option.some_inj]
      obtain ⟨heq, -⟩ | ⟨hd, -, hsome⟩ := o.retarget?_cases (UInt16.ofNat (c.code.size - j - 1))
      · rw [heq]
      · constructor
        · intro heq
          rw [heq, hop] at hd
          cases hd
        · intro heq
          rw [heq, hop] at hsome
          cases hsome

/-- A patched jump keeps the form. -/
theorem Chunk.Marked.patch {j : Nat} (h : c.Marked g) (hp : c.patchJump? j = some c') :
    c'.Marked g where
  yields hy := h.yields ((mem_of_patchJump? hp rfl).1 hy)
  closes hc := h.closes ((mem_of_patchJump? hp rfl).1 hc)
  begins i := (get?_of_patchJump? hp rfl i).trans (h.begins i)
  returns hg i hi := by
    obtain ⟨k, hk, hclose⟩ := h.returns hg i ((get?_of_patchJump? hp rfl i).1 hi)
    exact ⟨k, hk, (get?_of_patchJump? hp rfl k).2 hclose⟩

/-- Functions are never shared, so that each is entered anew. -/
theorem Chunk.mem_addConstant? {q : Proto} {i : UInt16}
    (h : c.addConstant? (.function q) = some (i, c')) : .function q ∈ c'.constants := by
  obtain ⟨code, constants, lines⟩ := c
  by_cases hroom : constants.size < maxConstants
  · simp only [addConstant?, isShared, Bool.false_eq_true, if_false, if_pos hroom] at h
    cases h
    exact Array.mem_push_self
  · simp only [addConstant?, isShared, Bool.false_eq_true, if_false, if_neg hroom] at h
    cases h

end Marked

end ScriptEngine.Bytecode

/-! ## Functions under construction -/

namespace ScriptEngine.Compile

open Bytecode Source

/-- Compiles a function up to the constant it becomes. -/
def emitPrototype (ctx : Context) (sig : Signature) (body : Context → Gen Unit) :
    Gen FunctionState := do
  beginFunction sig.kind.slotZero
  beginScope
  emitParameters sig
  emitBody sig (ctx.inner sig) body
  emit .return sig.endLine
  endFunction

/-- A function is compiled to its prototype, which becomes a constant of a closure instruction. -/
theorem emitFunction_prototype (ctx : Context) (sig : Signature) (body : Context → Gen Unit) :
    emitFunction ctx sig body = (do
      let defaults ← parameterDefaults sig.params sig.pos
      if sig.isGenerator && sig.kind == .constructor then fail .yieldInConstructor sig.pos
      let built ← emitPrototype ctx sig body
      let index ← addConstant (.function (sig.proto defaults built)) sig.pos
      emit (.closure index built.upvalues.toList) sig.pos.line) := by
  rw [emitFunction_eq]
  simp only [emitPrototype, bind_assoc]

/-- A prototype is what compiling a declaration somewhere makes of it. -/
def CompilesTo (d : FunctionDecl) (p : Proto) : Prop :=
  ∃ (ctx : Context) (kind : FunctionKind) (name : String) (s s' : CompilerState)
    (built : FunctionState) (defaults : Array Constant),
    Ran (emitPrototype ctx (signatureOf kind name d.params d.vararg d.body d.pos)
      fun ctx => compileStmts ctx d.body) s built s' ∧
    p = (signatureOf kind name d.params d.vararg d.body d.pos).proto defaults built

/-- Every function among the constants, at any depth, is made of a declaration. -/
def Declared (c : Chunk) : Prop :=
  ∀ q, .function q ∈ c.constants → ∀ r, q.Nested r → ∃ d, CompilesTo d r

/-- A declaration has a prototype among the constants, at some depth. -/
def Has (c : Chunk) (d : FunctionDecl) : Prop :=
  ∃ q, .function q ∈ c.constants ∧ ∃ p, q.Nested p ∧ CompilesTo d p

/-- Code goes on in the form of its kind of function. -/
structure Continues (g : Bool) (c c' : Chunk) : Prop where
  /-- The form is kept. -/
  marked : c.Marked g → c'.Marked g
  /-- A `yield` stays. -/
  yields : .yield ∈ c.code → .yield ∈ c'.code
  /-- Functions stay. -/
  pool : ∀ q, .function q ∈ c.constants → .function q ∈ c'.constants
  /-- Functions are made of declarations. -/
  declared : Declared c → Declared c'

section Continues

variable {g : Bool} {c c' c'' : Chunk} {op : Op} {d : FunctionDecl}

/-- Nothing is kept from going on. -/
theorem Continues.refl (g : Bool) (c : Chunk) : Continues g c c := ⟨id, id, fun _ => id, id⟩

/-- One stretch of code after another. -/
theorem Continues.trans (h : Continues g c c') (h' : Continues g c' c'') : Continues g c c'' where
  marked hm := h'.marked (h.marked hm)
  yields hy := h'.yields (h.yields hy)
  pool q hq := h'.pool q (h.pool q hq)
  declared hd := h'.declared (h.declared hd)

/-- A prototype that a chunk has is there after whatever continues the chunk. -/
theorem Has.later (h : Has c d) (hc : Continues g c c') : Has c' d := by
  obtain ⟨q, hq, hp⟩ := h
  exact ⟨q, hc.pool q hq, hp⟩

/-- Code in which the constants stay what they are. -/
theorem Continues.of_constants (hm : c.Marked g → c'.Marked g)
    (hy : .yield ∈ c.code → .yield ∈ c'.code) (hc : c'.constants = c.constants) :
    Continues g c c' where
  marked := hm
  yields := hy
  pool q hq := by rwa [hc]
  declared hd q hq := hd q (by rwa [← hc])

/-- An instruction that is no mark of a generator continues any code. -/
theorem continues_emit (hop : op.isMark = false) (line : Nat) :
    Continues g c (c.emit op line) := by
  refine .of_constants (fun hm => hm.emit ?_ ?_ ?_ line) (fun hy => ?_) (Chunk.emit_constants ..)
  · intro h
    cases h with
    | inl h => rw [h] at hop; cases hop
    | inr h => rw [h] at hop; cases hop
  · intro h
    rw [h] at hop
    cases hop
  · intro h
    rw [h] at hop
    cases hop
  · exact Chunk.mem_emit hy line

/-- So does a patched jump. -/
theorem continues_patch {j : Nat} (hp : c.patchJump? j = some c') : Continues g c c' := by
  obtain ⟨-, hconst, -, -⟩ := Chunk.patchJump?_code hp
  exact .of_constants (fun hm => hm.patch hp) (Chunk.mem_of_patchJump? hp rfl).2 hconst

/-- So does a constant, whose prototypes have to come from declarations. -/
theorem continues_addConstant {k : Constant} {i : UInt16}
    (hk : c.addConstant? k = some (i, c'))
    (hnew : ∀ q, k = .function q → ∀ r, q.Nested r → ∃ d, CompilesTo d r) :
    Continues g c c' := by
  obtain ⟨hcode, -, hpool⟩ := Chunk.addConstant?_spec hk
  refine ⟨fun hm => ⟨?_, ?_, ?_, ?_⟩, fun hy => hcode ▸ hy, fun q hq => ?_, fun hd q hq => ?_⟩
  · rw [hcode]; exact hm.yields
  · rw [hcode]; exact hm.closes
  · rw [hcode]; exact hm.begins
  · rw [hcode]; exact hm.returns
  · obtain ⟨j, hj⟩ := Array.mem_iff_getElem?.1 hq
    exact Array.mem_iff_getElem?.2 ⟨j, Chunk.kept_addConstant hk j _ hj⟩
  · cases Chunk.mem_of_addConstant? hk hq with
    | inl hold => exact hd q hold
    | inr heq => exact hnew q heq

end Continues

/-- What a run does to the function under construction and what it leaves there: a `yield` if `y`,
and prototypes of the declarations `ds`. The code of the functions around stays what it is. -/
structure Advances (g y : Bool) (ds : List FunctionDecl) (s s' : CompilerState) : Prop where
  /-- The code goes on. -/
  code : Continues g s.chunk s'.chunk
  /-- There is a `yield`. -/
  yields : y = true → .yield ∈ s'.chunk.code
  /-- There are prototypes. -/
  has : ∀ d ∈ ds, Has s'.chunk d
  /-- The functions around keep their code. -/
  enclosing : s'.enclosing.map (·.chunk) = s.enclosing.map (·.chunk)

/-- Every run of a generator advances. -/
def Marks {α : Type} (g y : Bool) (ds : List FunctionDecl) (m : Gen α) : Prop :=
  ∀ ⦃s a s'⦄, Ran m s a s' → Advances g y ds s s'

section Rules

variable {α β : Type} {g y y' : Bool} {ds ds' : List FunctionDecl} {s s' t : CompilerState}
  {pos : Position} {ctx : Context}

/-- A run that does nothing advances nothing. -/
theorem Advances.refl (g : Bool) (s : CompilerState) : Advances g false [] s s :=
  ⟨.refl g _, nofun, nofun, rfl⟩

/-- One run after another. -/
theorem Advances.trans (h : Advances g y ds s t) (h' : Advances g y' ds' t s') :
    Advances g (y || y') (ds ++ ds') s s' where
  code := h.code.trans h'.code
  yields hy := by
    cases (Bool.or_eq_true _ _).mp hy with
    | inl hl => exact h'.code.yields (h.yields hl)
    | inr hr => exact h'.yields hr
  has d hd := by
    cases List.mem_append.1 hd with
    | inl hl => exact (h.has d hl).later h'.code
    | inr hr => exact h'.has d hr
  enclosing := h'.enclosing.trans h.enclosing

/-- A change of the current function. -/
theorem Advances.current {f : FunctionState} (h : Continues g s.chunk f.chunk) :
    Advances g false [] s (s.withCurrent f) := ⟨h, nofun, nofun, rfl⟩

/-- A change of anything but the code advances nothing. -/
theorem Advances.same {f : FunctionState} (h : f.chunk = s.chunk) :
    Advances g false [] s (s.withCurrent f) := .current (h ▸ .refl g _)

/-- What is left is at least what is asked for. -/
theorem Marks.mono {m : Gen α} (h : Marks g y ds m) (hy : y' = true → y = true)
    (hds : ds' ⊆ ds) : Marks g y' ds' m := fun _ _ _ hr =>
  let hrun := h hr
  ⟨hrun.code, fun h => hrun.yields (hy h), fun d hd => hrun.has d (hds hd), hrun.enclosing⟩

/-- Nothing is asked for. -/
theorem Marks.plain {m : Gen α} (h : Marks g y ds m) : Marks g false [] m :=
  h.mono nofun (List.nil_subset _)

/-- A value is given without any code. -/
theorem Marks.pure (a : α) : Marks g false [] (pure a : Gen α) := by
  intro s b s' hr
  obtain ⟨-, rfl⟩ := ran_pure.1 hr
  exact .refl g _

/-- What is refused marks nothing, whatever is claimed of it. -/
theorem Marks.fail (cause : Cause) (pos : Position) :
    Marks g y ds (Compile.fail cause pos : Gen α) :=
  fun _ _ _ hr => absurd hr ran_fail

/-- A check emits no code. -/
theorem Marks.lift (x : Except Diagnostic α) : Marks g false [] (liftM x : Gen α) := by
  intro s a s' hr
  obtain ⟨-, rfl⟩ := ran_lift.1 hr
  exact .refl g _

/-- Reading the state emits no code. -/
theorem Marks.get : Marks g false [] (get : Gen CompilerState) := by
  intro s a s' hr
  obtain ⟨-, rfl⟩ := ran_get.1 hr
  exact .refl g _

/-- One generator after another, which may depend on the value of the first. -/
theorem Marks.bind {m : Gen α} {f : α → Gen β} (hm : Marks g y ds m)
    (hf : ∀ a, Marks g y' ds' (f a)) : Marks g (y || y') (ds ++ ds') (m >>= f) := by
  intro s b s' hr
  obtain ⟨a, t, hra, hrf⟩ := ran_bind.1 hr
  exact (hm hra).trans (hf a hrf)

/-- Something that leaves nothing comes first. -/
theorem Marks.next {m : Gen α} {f : α → Gen β} (hm : Marks g false [] m)
    (hf : ∀ a, Marks g y ds (f a)) : Marks g y ds (m >>= f) :=
  (hm.bind hf).mono (by simp) (by simp)

/-- Something that leaves nothing comes last. -/
theorem Marks.last {m : Gen α} {f : α → Gen β} (hm : Marks g y ds m)
    (hf : ∀ a, Marks g false [] (f a)) : Marks g y ds (m >>= f) :=
  (hm.bind hf).mono (by simp) (by simp)

/-- A value may be changed on the way. -/
theorem Marks.map {m : Gen α} {f : α → β} (hm : Marks g y ds m) : Marks g y ds (f <$> m) := by
  intro s b s' hr
  obtain ⟨a, hra, -⟩ := ran_map.1 hr
  exact hm hra

/-- A choice of two that do the same. -/
theorem Marks.ite {p : Prop} [Decidable p] {m n : Gen α} (hm : Marks g y ds m)
    (hn : Marks g y ds n) : Marks g y ds (if p then m else n) := by
  split
  · exact hm
  · exact hn

/-- What follows a refusal does not matter. -/
theorem Marks.failed {cause : Cause} {f : β → Gen α} :
    Marks g y ds ((Compile.fail cause pos : Gen β) >>= f) := by
  intro s a s' hr
  obtain ⟨_, _, hfail, -⟩ := ran_bind.1 hr
  exact absurd hfail ran_fail

/-- What is refused in some cases. -/
theorem Marks.unless {p : Prop} [Decidable p] {cause : Cause} {f : β → Gen α} {m : Gen α}
    (hm : Marks g y ds m) :
    Marks g y ds (if p then (Compile.fail cause pos : Gen β) >>= f else m) := .ite .failed hm

/-- One after another for each element of a list, none of which is marked. -/
theorem Marks.forM {f : α → Gen PUnit} (hf : ∀ a, Marks g false [] (f a)) (as : List α) :
    Marks g false [] (as.forM f) := by
  induction as with
  | nil => exact .pure _
  | cons a as ih => exact (hf a).next fun _ => ih

/-- The same for an option. -/
theorem Marks.optional {f : α → Gen PUnit} {o : Option α}
    (hf : ∀ a, o = some a → Marks g false [] (f a)) : Marks g false [] (o.forM f) := by
  cases o with
  | none => exact .pure _
  | some a => exact hf a rfl

/-! ### Primitive generators -/

/-- A change of the function under construction that continues its code. -/
theorem Marks.update {f : FunctionState → FunctionState}
    (hf : ∀ x, Continues g x.chunk (f x).chunk) : Marks g false [] (updateFunction f) := by
  intro s u s' hr
  obtain rfl := ran_updateFunction.1 hr
  exact .current (hf _)

/-- A change that does not concern the code. -/
theorem Marks.aside {f : FunctionState → FunctionState} (hf : ∀ x, (f x).chunk = x.chunk) :
    Marks g false [] (updateFunction f) := .update fun x => hf x ▸ .refl g _

/-- A change that may be refused and leaves the code alone. -/
theorem Marks.updateM {f : FunctionState → Except Diagnostic FunctionState}
    (hf : ∀ x x', f x = .ok x' → x'.chunk = x.chunk) : Marks g false [] (updateFunctionM f) := by
  intro s u s' hr
  obtain ⟨x, hx, rfl⟩ := ran_updateFunctionM.1 hr
  exact .same (hf _ _ hx)

/-- An instruction that is no mark. -/
theorem Marks.emit {op : Op} (hop : op.isMark = false) (line : Nat) :
    Marks g false [] (emit op line) := .update fun _ => continues_emit hop line

/-- A `yield` in a generator. -/
theorem Marks.emitYield (line : Nat) (hg : g = true) : Marks g true [] (Compile.emit .yield line) := by
  intro s u s' hr
  obtain rfl := ran_emit.1 hr
  refine ⟨.of_constants (fun hm => ?_) (fun hy => Chunk.mem_emit hy line)
    (Chunk.emit_constants ..), fun _ => ?_, nofun, rfl⟩
  · exact hm.emit (fun _ => hg) (by simp) (by simp) line
  · rw [CompilerState.chunk, withCurrent_current, FunctionState.emit_chunk, Chunk.emit_code]
    exact Array.mem_push_self

/-- A jump that is patched later. -/
theorem Marks.emitJump {op : Op} (hop : op.isMark = false) (line : Nat) :
    Marks g false [] (emitJump op line) := by
  intro s n s' hr
  obtain ⟨-, rfl⟩ := ran_emitJump.1 hr
  exact .current (continues_emit hop line)

/-- Reading the offset of the next instruction. -/
theorem Marks.offset : Marks g false [] offset := .next .get fun _ => .pure _

/-- Reading the number of locals. -/
theorem Marks.localCount : Marks g false [] localCount := .next .get fun _ => .pure _

/-- Asking whether declarations make globals. -/
theorem Marks.atTopLevel : Marks g false [] atTopLevel := .next .get fun _ => .pure _

/-- A jump is patched. -/
theorem Marks.patchJump (jump : Nat) (pos : Position) :
    Marks g false [] (patchJump jump pos) := by
  intro s u s' hr
  obtain ⟨c, hc, rfl⟩ := ran_patchJump.1 hr
  exact .current (continues_patch hc)

/-- Jumps are patched. -/
theorem Marks.patchJumps (jumps : List Nat) (pos : Position) :
    Marks g false [] (patchJumps jumps pos) := .forM (.patchJump · pos) jumps

/-- The jump back of a loop. -/
theorem Marks.emitLoop (start : Nat) (pos : Position) :
    Marks g false [] (emitLoop start pos) := by
  intro s u s' hr
  obtain ⟨-, rfl⟩ := ran_emitLoop.1 hr
  exact .current (continues_emit rfl pos.line)

/-- A constant that is no function. -/
theorem Marks.addConstant {k : Constant} (hk : ∀ q, k ≠ .function q) (pos : Position) :
    Marks g false [] (addConstant k pos) := by
  intro s i s' hr
  obtain ⟨c, hc, rfl⟩ := ran_addConstant.1 hr
  exact .current (continues_addConstant hc fun q hq => absurd hq (hk q))

/-- A name in the constant pool. -/
theorem Marks.addName (name : String) (pos : Position) : Marks g false [] (addName name pos) :=
  .addConstant (fun _ h => by cases h) pos

/-- A constant that is no function, and the instruction that pushes it. -/
theorem Marks.emitConstant {k : Constant} (hk : ∀ q, k ≠ .function q) (pos : Position) :
    Marks g false [] (emitConstant k pos) :=
  .next (.addConstant hk pos) fun _ => .emit rfl pos.line

/-- A scope begins. -/
theorem Marks.beginScope : Marks g false [] beginScope := .aside fun _ => rfl

/-- Dropping a local is no mark. -/
theorem isMark_dropOp (l : Local) : (FunctionState.dropOp l).isMark = false := by
  unfold FunctionState.dropOp
  split <;> rfl

/-- Dropping the locals of a scope continues the code. -/
theorem continues_dropScope (line : Nat) (ls : List Local) (f : FunctionState) :
    Continues g f.chunk (f.dropScope line ls).chunk := by
  induction ls generalizing f with
  | nil => exact .refl g _
  | cons l outer ih =>
    rw [FunctionState.dropScope]
    split
    · exact (continues_emit (isMark_dropOp l) line).trans (ih (f.emit _ line))
    · exact .refl g _

/-- A scope ends. -/
theorem Marks.endScope (line : Nat) : Marks g false [] (endScope line) :=
  .update fun f => continues_dropScope line f.locals { f with depth := f.depth - 1 }

/-- Something in a scope of its own. -/
theorem Marks.inScope {body : Gen Unit} (line : Nat) (h : Marks g y ds body) :
    Marks g y ds (inScope line body) :=
  .next .beginScope fun _ => h.last fun _ => .endScope line

/-- Locals are dropped, but not forgotten. -/
theorem Marks.discardLocals (count line : Nat) :
    Marks g false [] (updateFunction (·.discardLocals count line)) := by
  refine .update fun f => ?_
  unfold FunctionState.discardLocals
  induction f.locals.take (f.locals.length - count) generalizing f with
  | nil => exact .refl g _
  | cons l ls ih => exact (continues_emit (isMark_dropOp l) line).trans (ih (f.emit _ line))

/-- A declaration leaves the code alone. -/
theorem chunk_declare {f f' : FunctionState} {name : String}
    (h : f.declare name pos = .ok f') : f'.chunk = f.chunk := by
  rw [FunctionState.declare_eq] at h
  split at h
  · cases h
  · split at h
    · cases h
      rfl
    · cases h

/-- A local is declared. -/
theorem Marks.declare (name : String) (pos : Position) :
    Marks g false [] (updateFunctionM (·.declare name pos)) := .updateM fun _ _ => chunk_declare

/-- A local is declared and has its value. -/
theorem Marks.defineLocal (name : String) (pos : Position) :
    Marks g false [] (defineLocal name pos) := by
  refine .updateM fun f f' h => ?_
  cases hd : f.declare name pos with
  | error e =>
    simp only [FunctionState.define, hd] at h
    cases h
  | ok f₁ =>
    simp only [FunctionState.define, hd] at h
    cases h
    exact (chunk_declare hd : f₁.chunk = f.chunk)

/-- Locals have their values now. -/
theorem Marks.markInitialized (count : Nat) :
    Marks g false [] (updateFunction (·.markInitialized count)) := .aside fun _ => rfl

/-- A value is bound to a variable. -/
theorem Marks.defineVariable (name : String) (pos : Position) :
    Marks g false [] (defineVariable name pos) :=
  .next .atTopLevel fun _ => .ite (.next (.addName name pos) fun _ => .emit rfl pos.line)
    (.defineLocal name pos)

/-- A name is resolved. Captures are added to functions, but no code. -/
theorem Marks.resolve (name : String) (pos : Position) : Marks g false [] (resolve name pos) := by
  intro s a s' hr
  obtain ⟨hcur, henc, -⟩ := ran_resolve hr
  have hmap : s'.enclosing.map (·.chunk) = s.enclosing.map (·.chunk) := by
    revert henc
    generalize s.enclosing = fs
    generalize s'.enclosing = fs'
    intro henc
    induction henc with
    | nil => rfl
    | cons h _ ih => rw [List.map_cons, List.map_cons, h.chunk, ih]
  refine ⟨?_, nofun, nofun, hmap⟩
  show Continues g s.current.chunk s'.current.chunk
  rw [hcur.chunk]
  exact .refl g _

/-- A variable is read. -/
theorem Marks.getVariable (name : String) (pos : Position) :
    Marks g false [] (getVariable name pos) := by
  refine .next (.resolve name pos) fun a => ?_
  cases a with
  | slot i => exact .emit rfl pos.line
  | upvalue i => exact .emit rfl pos.line
  | global => exact .next (.addName name pos) fun _ => .emit rfl pos.line

/-- A variable is written. -/
theorem Marks.setVariable (name : String) (pos : Position) :
    Marks g false [] (setVariable name pos) := by
  refine .next (.resolve name pos) fun a => ?_
  cases a with
  | slot i => exact .emit rfl pos.line
  | upvalue i => exact .emit rfl pos.line
  | global => exact .next (.addName name pos) fun _ => .emit rfl pos.line

/-- A binary operator. -/
theorem Marks.emitBinary (op : BinaryOp) (line : Nat) : Marks g false [] (emitBinary op line) := by
  have hops : ∀ o ∈ binaryOps op, o.isMark = false := by cases op <;> decide
  unfold Compile.emitBinary
  revert hops
  induction binaryOps op with
  | nil => exact fun _ => .pure _
  | cons o os ih =>
    intro hops
    obtain ⟨ho, hos⟩ := List.forall_mem_cons.1 hops
    exact .next (.emit ho line) fun _ => ih hos

/-- A method call is no mark, whichever instruction is chosen for it. -/
theorem isMark_invoke (argc : UInt8) (name : UInt16) : (Op.invoke argc name).isMark = false := by
  unfold Op.invoke
  split <;> rfl

/-- Neither is a call. -/
theorem isMark_call (argc : UInt8) : (Op.call argc).isMark = false := by
  unfold Op.call
  split <;> rfl

/-- A unary operator. -/
theorem Marks.emitUnary (op : UnaryOp) (pos : Position) : Marks g false [] (emitUnary op pos) := by
  cases op with
  | negate | not | bitNot => exact .emit rfl pos.line
  | length | stringify =>
    exact .next (.addName _ pos) fun i => .emit (isMark_invoke 0 i) pos.line

/-! ### Loops and jumps out of them -/

/-- A change of the innermost loop. -/
theorem Marks.updateLoop (f : LoopRecord → LoopRecord) : Marks g false [] (updateLoop f) := by
  refine .aside fun x => ?_
  split <;> rfl

/-- A loop begins. -/
theorem Marks.beginLoop (ctx : Context) (target : Option Nat) :
    Marks g false [] (beginLoop ctx target) := .aside fun _ => rfl

/-- The jumps to the next round are patched. -/
theorem Marks.patchContinues (pos : Position) : Marks g false [] (patchContinues pos) := by
  refine .next .get fun s => ?_
  split
  · exact .pure _
  · exact .next (.patchJumps _ pos) fun _ => .updateLoop _

/-- A loop ends. -/
theorem Marks.endLoop (pos : Position) : Marks g false [] (endLoop pos) := by
  refine .next .get fun s => ?_
  split
  · exact .pure _
  · exact .next (.aside fun _ => rfl) fun _ => .patchJumps _ pos

/-- The pending `ensure` parts keep the form of the function. -/
def Context.Marks (ctx : Context) : Prop :=
  ∀ b ∈ ctx.tries, ∀ e, b.ensure = some e → Compile.Marks ctx.isGenerator false [] e

/-- Leaving `try` statements whose pending parts mark nothing. -/
theorem Marks.leaveTries (line : Nat) {tries : List TryBlock}
    (h : ∀ b ∈ tries, ∀ e, b.ensure = some e → Marks g false [] e) :
    Marks g false [] (leaveTries line tries) := by
  induction tries with
  | nil => exact .pure _
  | cons b rest ih =>
    obtain ⟨hb, hrest⟩ := List.forall_mem_cons.1 h
    rw [Compile.leaveTries]
    exact .next (.discardLocals _ line) fun _ => .next (.aside fun _ => rfl) fun _ =>
      .next (.forM (fun _ => .emit rfl line) _) fun _ => .next (.optional hb) fun _ => ih hrest

/-- Leaving the `try` statements of a context. -/
theorem Marks.exitTries (hctx : ctx.Marks) (tryDepth line : Nat) :
    Marks ctx.isGenerator false [] (exitTries ctx tryDepth line) := by
  unfold Compile.exitTries
  split
  · exact .pure _
  · exact .next .get fun s => .next
      (.leaveTries line fun b hb e he => hctx b (List.mem_of_mem_take hb) e he)
      fun _ => .aside fun _ => rfl

/-- A jump out of a loop. -/
theorem Marks.emitBreak (hctx : ctx.Marks) (pos : Position) :
    Marks ctx.isGenerator false [] (emitBreak ctx pos) := by
  refine .next .get fun s => ?_
  split
  · exact .fail _ _
  · exact .next (.exitTries hctx _ _) fun _ => .next (.discardLocals _ _) fun _ =>
      .next (.emitJump rfl pos.line) fun _ => .updateLoop _

/-- A jump to the next round of a loop. -/
theorem Marks.emitContinue (hctx : ctx.Marks) (pos : Position) :
    Marks ctx.isGenerator false [] (emitContinue ctx pos) := by
  refine .next .get fun s => ?_
  split
  · exact .fail _ _
  · refine .next (.exitTries hctx _ _) fun _ => .next (.discardLocals _ _) fun _ => ?_
    split
    · exact .emitLoop _ pos
    · exact .next (.emitJump rfl pos.line) fun _ => .updateLoop _

/-- A return of a generator comes right behind the instruction that closes it. -/
theorem Marks.emitReturn (ctx : Context) (line : Nat) :
    Marks ctx.isGenerator false [] (emitReturn ctx line) := by
  intro s u s' hr
  unfold Compile.emitReturn at hr
  have hreturn : ∀ c : Chunk, (ctx.isGenerator = true → c.code.back? = some .generatorClose) →
      Continues ctx.isGenerator c (c.emit .return line) := fun c hback =>
    .of_constants (fun hm => hm.emit (by simp) (by simp) (fun _ => hback) line)
      (fun hy => Chunk.mem_emit hy line) (Chunk.emit_constants ..)
  split at hr
  case isTrue hg =>
    obtain ⟨_, t, hrc, hrr⟩ := ran_bind.1 hr
    obtain rfl := ran_emit.1 hrc
    obtain rfl := ran_emit.1 hrr
    have hclose : Continues ctx.isGenerator s.chunk (s.chunk.emit .generatorClose line) :=
      .of_constants (fun hm => hm.emit (fun _ => hg) (by simp) (by simp) line)
        (fun hy => Chunk.mem_emit hy line) (Chunk.emit_constants ..)
    have hback : (s.chunk.emit .generatorClose line).code.back? = some .generatorClose := by
      rw [Chunk.emit_code, Array.back?_push]
    exact .current (hclose.trans (hreturn _ fun _ => hback))
  case isFalse hg =>
    obtain rfl := ran_emit.1 hr
    exact .current (hreturn _ fun h => absurd h hg)

/-! ### Statements -/

/-- Optional code, which leaves nothing if it is missing. -/
def MarksOption (g y : Bool) (ds : List FunctionDecl) : Option (Gen Unit) → Prop
  | none => y = false ∧ ds = []
  | some m => Marks g y ds m

/-- An optional part that is marked as a whole. -/
theorem Marks.ofOption {o : Option (Gen Unit)} (h : MarksOption g y ds o) :
    Marks g y ds (o.forM id) := by
  cases o with
  | none =>
    obtain ⟨rfl, rfl⟩ := h
    exact .pure _
  | some m => exact h

/-- Generators with the same marks wherever they stand in a function of the same kind. -/
def MarksWithin (ctx : Context) (y : Bool) (ds : List FunctionDecl) (m : Context → Gen Unit) : Prop :=
  ∀ ctx' : Context, ctx'.isGenerator = ctx.isGenerator → ctx'.Marks →
    Marks ctx.isGenerator y ds (m ctx')

/-- A context keeps its marks in a `try` statement whose pending part has none. -/
theorem Context.Marks.within {pending : Option (Gen Unit)} (hctx : ctx.Marks)
    (count handlers : Nat)
    (h : ∀ e, pending = some e → Compile.Marks ctx.isGenerator false [] e) :
    (ctx.within count handlers pending).Marks := by
  intro b hb e he
  cases List.mem_cons.1 hb with
  | inl hfirst =>
    subst hfirst
    exact h e he
  | inr hrest => exact hctx b hrest e he

/-- The hidden locals of a `try` statement. -/
theorem Marks.emitHidden (pos : Position) : Marks g false [] (emitHidden pos) :=
  .next .beginScope fun _ => .next .localCount fun _ => .next (.defineLocal _ pos) fun _ =>
    .next (.defineLocal _ pos) fun _ => .pure _

/-- The instructions around a window. -/
theorem Marks.emitWindow (line : Nat) : Marks g false [] (emitWindow line) :=
  .next (.emit rfl line) fun _ => .emit rfl line

/-- The `ensure` part of a `try` statement. -/
theorem Marks.emitEnsurePart {ensure : Context → Gen Unit} (hctx : ctx.Marks)
    (hensure : MarksWithin ctx y ds ensure) (pos : Position) (count setup : Nat) :
    Marks ctx.isGenerator y ds (emitEnsurePart ctx pos count setup ensure) :=
  .next (.patchJump setup pos) fun _ => .last (hensure _ rfl (hctx.within count 0 nofun)) fun _ =>
    .next (.emit rfl pos.line) fun _ => .endScope pos.line

section Try

variable {body ensure : Context → Gen Unit} {clauses : Context → UInt16 → UInt16 → Gen Unit}
  {yb yc ye : Bool} {db dc de : List FunctionDecl}

/-- A `try` statement with neither clauses nor `ensure` part. -/
theorem Marks.tryBare (hctx : ctx.Marks) (hbody : MarksWithin ctx yb db body) :
    Marks ctx.isGenerator yb db (emitTry ctx pos body none none) := by
  rw [emitTry_bare]
  exact .next .localCount fun count => .last (hbody _ rfl (hctx.within count 0 nofun)) fun _ =>
    .next (.emitHidden pos) fun _ => .pure _

/-- A `try` statement with clauses alone. -/
theorem Marks.tryClauses (hctx : ctx.Marks) (hbody : MarksWithin ctx yb db body)
    (hclauses : ∀ x y, MarksWithin ctx yc dc (clauses · x y)) :
    Marks ctx.isGenerator (yb || yc) (db ++ dc) (emitTry ctx pos body (some clauses) none) := by
  rw [emitTry_clauses]
  exact .next (.emitJump rfl pos.line) fun _ => .next .localCount fun count =>
    .bind (hbody _ rfl (hctx.within count 1 nofun)) fun _ => .next (.emit rfl pos.line) fun _ =>
    .next (.emitHidden pos) fun _ => .next (.emitJump rfl pos.line) fun _ =>
    .next (.patchJump _ pos) fun _ =>
    .last (hclauses _ _ _ rfl (hctx.within count 0 nofun)) fun _ =>
    .next (.emit rfl pos.line) fun _ => .next (.endScope pos.line) fun _ => .patchJump _ pos

/-- The `ensure` part may be emitted at any jump out of the parts before it. -/
theorem Context.Marks.pending (hctx : ctx.Marks) (hensure : MarksWithin ctx ye de ensure)
    (count handlers : Nat) : (ctx.within count handlers (some (ensure ctx))).Marks := by
  refine hctx.within count handlers fun e he => ?_
  cases he
  exact (hensure ctx rfl hctx).plain

/-- A `try` statement with an `ensure` part alone. The copies for jumps out of it are marked as the
part is. -/
theorem Marks.tryEnsure (hctx : ctx.Marks) (hbody : MarksWithin ctx yb db body)
    (hensure : MarksWithin ctx ye de ensure) :
    Marks ctx.isGenerator (yb || ye) (db ++ de) (emitTry ctx pos body none (some ensure)) := by
  rw [emitTry_ensure]
  exact .next (.emitJump rfl pos.line) fun _ => .next .localCount fun count =>
    .bind (hbody _ rfl (hctx.pending hensure count 1)) fun _ => .next (.emit rfl pos.line) fun _ =>
    .next (.emitWindow pos.line) fun _ => .next (.emitHidden pos) fun _ =>
    .emitEnsurePart hctx hensure pos _ _

/-- A `try` statement with both. -/
theorem Marks.tryBoth (hctx : ctx.Marks) (hbody : MarksWithin ctx yb db body)
    (hclauses : ∀ x y, MarksWithin ctx yc dc (clauses · x y))
    (hensure : MarksWithin ctx ye de ensure) :
    Marks ctx.isGenerator (yb || (yc || ye)) (db ++ (dc ++ de))
      (emitTry ctx pos body (some clauses) (some ensure)) := by
  rw [emitTry_both]
  exact .next (.emitJump rfl pos.line) fun _ => .next (.emitJump rfl pos.line) fun _ =>
    .next .localCount fun count => .bind (hbody _ rfl (hctx.pending hensure count 2)) fun _ =>
    .next (.emit rfl pos.line) fun _ => .next (.emit rfl pos.line) fun _ =>
    .next (.emitWindow pos.line) fun _ => .next (.emitHidden pos) fun _ =>
    .next (.emitJump rfl pos.line) fun _ => .next (.patchJump _ pos) fun _ =>
    .bind (hclauses _ _ _ rfl (hctx.pending hensure count 1)) fun _ =>
    .next (.emit rfl pos.line) fun _ => .next (.patchJump _ pos) fun _ =>
    .emitEnsurePart hctx hensure pos _ _

end Try

section Statements

variable {yc yt ye yb ys : Bool} {dc dt de db dm : List FunctionDecl}
  {condition thenBranch elseBranch body value iterable : Gen Unit} {names : List String}

/-- Names are bound to values on the stack. -/
theorem Marks.bindNames (global : Bool) : Marks g false [] (if global then
    names.reverse.forM fun name => do Compile.emit (.defineGlobal (← Compile.addName name pos)) pos.line
    else updateFunction (·.markInitialized names.length)) :=
  .ite (.forM (fun name => .next (.addName name pos) fun _ => .emit rfl pos.line) _)
    (.markInitialized _)

/-- A declaration without a value. -/
theorem Marks.declareNothing : Marks g false [] (emitDeclare pos names none) := by
  unfold Compile.emitDeclare
  refine .next .atTopLevel fun global => ?_
  have hnulls : Marks g false [] (do
      names.forM fun _ => Compile.emit .null pos.line
      if global then
        names.reverse.forM fun name => do Compile.emit (.defineGlobal (← Compile.addName name pos)) pos.line
      else updateFunction (·.markInitialized names.length)) :=
    .next (.forM (fun _ => .emit rfl pos.line) _) fun _ => .bindNames global
  exact .ite (.next (.forM (.declare · pos) names) fun _ => hnulls) hnulls

/-- A declaration with a value. -/
theorem Marks.declareValue (h : Marks g y ds value) :
    Marks g y ds (emitDeclare pos names (some value)) := by
  unfold Compile.emitDeclare
  refine .next .atTopLevel fun global => ?_
  refine .ite (.next (.forM (.declare · pos) names) fun _ => ?_) ?_ <;>
    exact h.last fun _ => .ite (.unless (.next (.emit rfl pos.line) fun _ => .bindNames global))
      (.bindNames global)

/-- A branch without an alternative. -/
theorem Marks.branch (hc : Marks g yc dc condition) (ht : Marks g yt dt thenBranch) :
    Marks g (yc || yt) (dc ++ dt) (emitBranch pos condition thenBranch none) :=
  hc.bind fun _ => .next (.emitJump rfl pos.line) fun _ => ht.last fun _ => .patchJump _ pos

/-- A branch with an alternative. -/
theorem Marks.branchElse (hc : Marks g yc dc condition) (ht : Marks g yt dt thenBranch)
    (he : Marks g ye de elseBranch) :
    Marks g (yc || (yt || ye)) (dc ++ (dt ++ de))
      (emitBranch pos condition thenBranch (some elseBranch)) :=
  hc.bind fun _ => .next (.emitJump rfl pos.line) fun _ => ht.bind fun _ =>
    .next (.emitJump rfl pos.line) fun _ => .next (.patchJump _ pos) fun _ =>
    he.last fun _ => .patchJump _ pos

/-- A `while` loop. -/
theorem Marks.emitWhile (ctx : Context) (hc : Marks g yc dc condition) (hb : Marks g yb db body) :
    Marks g (yc || yb) (dc ++ db) (emitWhile ctx pos condition body) :=
  .next .offset fun _ => .next (.beginLoop ctx _) fun _ => hc.bind fun _ =>
    .next (.emitJump rfl pos.line) fun _ => hb.last fun _ => .next (.emitLoop _ pos) fun _ =>
    .next (.patchJump _ pos) fun _ => .endLoop pos

/-- A `for` loop. -/
theorem Marks.emitFor {initial condition step : Option (Gen Unit)} {yi : Bool}
    {di : List FunctionDecl} (ctx : Context) (hi : MarksOption g yi di initial)
    (hc : MarksOption g yc dc condition) (hs : MarksOption g ys ds step) (hb : Marks g yb db body) :
    Marks g (yi || (yc || (yb || ys))) (di ++ (dc ++ (db ++ ds)))
      (emitFor ctx pos initial condition step body) := by
  have hcondition : Marks g yc dc (condition.mapM fun condition => do
      condition
      Compile.emitJump (.jumpIfFalse 0) pos.line) := by
    cases condition with
    | none =>
      obtain ⟨rfl, rfl⟩ := hc
      exact .pure _
    | some m => exact Marks.map (Marks.last hc fun _ => .emitJump rfl pos.line)
  have hstep : Marks g ys ds (step.forM fun step => do
      step
      Compile.emit .pop pos.line) := by
    cases step with
    | none =>
      obtain ⟨rfl, rfl⟩ := hs
      exact .pure _
    | some m => exact Marks.last hs fun _ => .emit rfl pos.line
  exact .next .beginScope fun _ => (Marks.ofOption hi).bind fun _ => .next .offset fun _ =>
    hcondition.bind fun _ => .next (.beginLoop ctx _) fun _ => hb.bind fun _ =>
    .next (.patchContinues pos) fun _ => hstep.last fun _ => .next (.emitLoop _ pos) fun _ =>
    .next (.optional fun _ _ => .patchJump _ pos) fun _ => .next (.endLoop pos) fun _ =>
    .endScope pos.line

/-- An iteration. -/
theorem Marks.emitForEach (ctx : Context) (hi : Marks g yt dt iterable) (hb : Marks g yb db body) :
    Marks g (yt || yb) (dt ++ db) (emitForEach ctx pos names iterable body) := by
  have hround : ∀ start exit, Marks g yb db (do
      names.forM fun name => updateFunctionM (·.declare name pos)
      updateFunction (·.markInitialized names.length)
      body
      Compile.endScope pos.line
      Compile.emitLoop start pos
      Compile.patchJump exit pos
      Compile.endLoop pos
      Compile.endScope pos.line) := fun start exit =>
    .next (.forM (.declare · pos) names) fun _ => .next (.markInitialized _) fun _ =>
      hb.last fun _ => .next (.endScope pos.line) fun _ => .next (.emitLoop start pos) fun _ =>
      .next (.patchJump exit pos) fun _ => .next (.endLoop pos) fun _ => .endScope pos.line
  unfold Compile.emitForEach
  exact .next .beginScope fun _ => hi.bind fun _ => .next (.defineLocal _ pos) fun _ =>
    .next (.emit rfl pos.line) fun _ => .next (.defineLocal _ pos) fun _ =>
    .next (.emit rfl pos.line) fun _ => .next (.defineLocal _ pos) fun _ =>
    .next (.defineLocal _ pos) fun _ => .next .offset fun _ => .next (.beginLoop ctx _) fun _ =>
    .next (.emit rfl pos.line) fun _ => .next (.emitJump rfl pos.line) fun _ =>
    .next .beginScope fun _ => .ite
      (.unless (.next (.emit rfl pos.line) fun _ => hround _ _)) (hround _ _)

/-- An `except` clause. -/
theorem Marks.emitClause {x y : UInt16} {binder : String} (hc : Marks g yc dc condition)
    (hb : Marks g yb db body) (hasNext : Bool) :
    Marks g (yc || yb) (dc ++ db) (emitClause pos x y binder condition body hasNext) := by
  unfold Compile.emitClause
  exact .next (.emit rfl pos.line) fun _ => hc.bind fun _ => .next (.emit rfl pos.line) fun _ =>
    .next (.emitJump rfl pos.line) fun _ => .next .beginScope fun _ =>
    .next (.emit rfl pos.line) fun _ => .next (.defineLocal _ pos) fun _ => hb.last fun _ =>
    .next (.emit rfl pos.line) fun _ => .next (.emit rfl pos.line) fun _ =>
    .next (.emit rfl pos.line) fun _ => .next (.endScope pos.line) fun _ => .ite
      (.next (.map (.emitJump rfl pos.line)) fun _ => .next (.patchJump _ pos) fun _ => .pure _)
      (.next (.pure _) fun _ => .next (.patchJump _ pos) fun _ => .pure _)

/-- Closing the resource of a variable. -/
theorem Marks.emitClose (name : String) (pos : Position) : Marks g false [] (emitClose pos name) :=
  .branch (.getVariable name pos) (.next (.getVariable name pos) fun _ =>
    .next (.addName _ pos) fun i => .next (.emit (isMark_invoke 0 i) pos.line) fun _ =>
    .emit rfl pos.line)

/-- A `with` statement. -/
theorem Marks.emitWith {name : String} {value body : Context → Gen Unit} (hctx : ctx.Marks)
    (hv : MarksWithin ctx yt dt value) (hb : MarksWithin ctx yb db body) :
    Marks ctx.isGenerator (yt || yb) (dt ++ db) (emitWith ctx pos name value body) := by
  have hbody : MarksWithin ctx (yt || yb) (dt ++ db) (fun ctx => Compile.inScope pos.line (do
      value ctx
      Compile.setVariable name pos
      Compile.emit .pop pos.line
      body ctx)) := by
    intro ctx' hg hctx'
    exact .inScope pos.line ((hv ctx' hg hctx').bind fun _ => .next (.setVariable name pos) fun _ =>
      .next (.emit rfl pos.line) fun _ => hb ctx' hg hctx')
  have hclose : MarksWithin ctx false [] fun _ => Compile.emitClose pos name :=
    fun _ _ _ => .emitClose name pos
  exact .inScope pos.line (.next .declareNothing fun _ =>
    (Marks.tryEnsure hctx hbody hclose).mono (by simp) (by simp))

/-- A class declaration. -/
theorem Marks.emitClass {name : String} {superclass methods : Gen Unit}
    (hs : Marks g ys ds superclass) (hm : Marks g yb dm methods) :
    Marks g (ys || yb) (ds ++ dm) (emitClass pos name superclass methods) :=
  .next (.addName _ pos) fun _ => .next (.emit rfl pos.line) fun _ =>
    .next (.defineVariable name pos) fun _ => .next .beginScope fun _ => hs.bind fun _ =>
    .next (.defineLocal _ pos) fun _ => .next (.getVariable name pos) fun _ =>
    .next (.emit rfl pos.line) fun _ => hm.last fun _ => .next (.emit rfl pos.line) fun _ =>
    .endScope pos.line

/-- An import. -/
theorem Marks.emitImport (d : Import) : Marks g false [] (emitImport pos d) := by
  unfold Compile.emitImport
  refine .next (.addName _ pos) fun m => ?_
  split
  · exact .next (.emit rfl pos.line) fun _ => .next (.emit rfl pos.line) fun _ =>
      .defineVariable _ pos
  · exact .next (.emit rfl pos.line) fun _ => .next (.emit rfl pos.line) fun _ =>
      .forM (fun name => .next (.addName name pos) fun _ => .next (.emit rfl pos.line) fun _ =>
      .defineVariable name pos) _
  · exact .next (.emit rfl pos.line) fun _ => .next (.emit rfl pos.line) fun _ =>
      .emit rfl pos.line

/-- A return without a value. -/
theorem Marks.returnNothing : Marks ctx.isGenerator false [] (emitReturnStmt ctx pos none) := by
  unfold Compile.emitReturnStmt
  cases ctx.kind with
  | script => exact .failed
  | constructor | function | method =>
    exact .next (.emit rfl pos.line) fun _ => .emitReturn ctx pos.line

/-- A return with a value. -/
theorem Marks.returnValue (h : Marks ctx.isGenerator y ds value) :
    Marks ctx.isGenerator y ds (emitReturnStmt ctx pos (some value)) := by
  unfold Compile.emitReturnStmt
  cases ctx.kind with
  | script => exact .failed
  | constructor => exact .failed
  | function | method => exact h.last fun _ => .emitReturn ctx pos.line

/-- The empty list that items are added to. -/
theorem Marks.emitListStart (items : List Expr) : Marks g false [] (emitListStart items) := by
  cases items with
  | nil => exact .pure _
  | cons e _ => exact .emit rfl e.pos.line

/-- The name of the superclass method. -/
theorem Marks.superName (ctx : Context) (method : Option String) (pos : Position) :
    Marks g false [] (superName ctx method pos) := by
  unfold Compile.superName
  split
  · exact .fail _ _
  · exact .pure _

/-- The declaration of a host function. -/
theorem Marks.nativeConstant (d : NativeDecl) : Marks g false [] (nativeConstant d) := by
  unfold Compile.nativeConstant
  split
  · exact .fail _ _
  · exact .next (.lift _) fun _ => .addConstant (fun _ h => by cases h) _

end Statements

/-! ### Functions -/

/-- What is nested in a prototype is the prototype itself, or nested in one of its constants. -/
theorem nested_split {p r : Proto} (h : p.Nested r) :
    r = p ∨ ∃ q, .function q ∈ p.chunk.constants ∧ q.Nested r := by
  induction h with
  | self => exact .inl rfl
  | inner hq hr ih =>
    cases ih with
    | inl heq => exact .inr ⟨_, heq ▸ hr, .self⟩
    | inr hin =>
      obtain ⟨q, hq, hn⟩ := hin
      exact .inr ⟨q, hq, hn.inner hr⟩

/-- Parameters are unpacked. -/
theorem Marks.unpackParameters (i : Nat) (params : List Parameter) :
    Marks g false [] (unpackParameters pos i params) := by
  induction params generalizing i with
  | nil => exact .pure _
  | cons p params ih =>
    rw [Compile.unpackParameters]
    exact .ite (.unless (.next (.emit rfl pos.line) fun _ => .next (.emit rfl pos.line) fun _ =>
      .next (.forM (.defineLocal · pos) _) fun _ => ih (i + 1))) (ih (i + 1))

/-- The parameters of a function are made without code. -/
theorem chunk_emitParameters {sig : Signature} {u : Unit} (hr : Ran (emitParameters sig) s u s') :
    s'.current.chunk = s.current.chunk ∧ s'.enclosing = s.enclosing := by
  obtain ⟨_, t, hrp, hrv⟩ := ran_bind.1 hr
  obtain ⟨ls, rfl, -, -⟩ := (defines_parameters hrp).trans (defines_vararg hrv)
  exact ⟨rfl, rfl⟩

/-- What is left in the code of a function, which has the form of its kind, when it is complete. -/
structure Complete (g y : Bool) (ds : List FunctionDecl) (c : Chunk) : Prop where
  /-- The form is kept. -/
  marked : c.Marked g
  /-- There is a `yield`. -/
  yields : y = true → .yield ∈ c.code
  /-- There are prototypes. -/
  has : ∀ d ∈ ds, Has c d
  /-- All functions are made of declarations. -/
  declared : Declared c

/-- A function is compiled apart from those around it, and its code is complete in the end. -/
theorem complete_prototype {sig : Signature} {body : Context → Gen Unit} {built : FunctionState}
    (hbody : Marks sig.isGenerator y ds (body (ctx.inner sig)))
    (hr : Ran (emitPrototype ctx sig body) s built s') :
    Complete sig.isGenerator y ds built.chunk ∧ s'.chunk = s.chunk ∧
      s'.enclosing.map (·.chunk) = s.enclosing.map (·.chunk) := by
  simp only [emitPrototype, emitBody, ran_bind, ran_beginFunction, ran_beginScope, ran_emit] at hr
  obtain ⟨_, _, rfl, _, _, rfl, _, t₁, hrp, _, t₅, ⟨_, t₂, hrm, _, t₃, hru, _, t₄, hrb, _, _, rfl,
    hrc⟩, _, _, rfl, hre⟩ := hr
  obtain ⟨hchunk, henc⟩ := chunk_emitParameters hrp
  have hempty : t₁.current.chunk.code = #[] ∧ t₁.current.chunk.constants = #[] := by
    rw [hchunk]
    exact ⟨rfl, rfl⟩
  have hnone : Declared t₁.chunk := by
    intro q hq
    rw [CompilerState.chunk, hempty.2] at hq
    exact absurd hq (Array.not_mem_empty _)
  -- the mark of a generator comes first
  have hmark : t₂.chunk.Marked sig.isGenerator ∧ Declared t₂.chunk ∧ t₂.enclosing = t₁.enclosing := by
    unfold emitIf at hrm
    split at hrm
    case isTrue hg =>
      obtain rfl := ran_emit.1 hrm
      rw [hg]
      refine ⟨Chunk.marked_generator hempty.1 _, fun q hq => hnone q ?_, rfl⟩
      rwa [CompilerState.chunk, withCurrent_current, FunctionState.emit_chunk,
        Chunk.emit_constants] at hq
    case isFalse hg =>
      obtain ⟨-, rfl⟩ := ran_pure.1 hrm
      rw [Bool.eq_false_iff.2 hg]
      exact ⟨Chunk.marked_plain hempty.1, hnone, rfl⟩
  have hunpack : Advances sig.isGenerator false [] t₂ t₃ := Marks.unpackParameters 0 _ hru
  have hinside := hunpack.trans (hbody hrb)
  -- the code ends like any return
  have hend : Ran (do
      emit (if sig.kind == .constructor then .getLocal 0 else .null) sig.endLine
      emitReturn (ctx.inner sig) sig.endLine) t₄ ()
      (t₅.withCurrent (t₅.current.emit .return sig.endLine)) := by
    refine ran_bind.2 ⟨(), _, ran_emit.2 rfl, ?_⟩
    unfold emitReturn
    unfold emitIf at hrc
    show Ran (if sig.isGenerator = true then _ else _) _ _ _
    split at hrc
    case isTrue hg =>
      rw [if_pos hg]
      exact ran_bind.2 ⟨_, _, hrc, ran_emit.2 rfl⟩
    case isFalse hg =>
      obtain ⟨-, rfl⟩ := ran_pure.1 hrc
      rw [if_neg hg]
      exact ran_emit.2 rfl
  have hreturn : Advances sig.isGenerator false [] t₄
      (t₅.withCurrent (t₅.current.emit .return sig.endLine)) := by
    have hfallback : (if sig.kind == .constructor then Op.getLocal 0 else .null).isMark = false := by
      split <;> rfl
    have hmarks : Marks (ctx.inner sig).isGenerator false [] (do
        emit (if sig.kind == .constructor then .getLocal 0 else .null) sig.endLine
        emitReturn (ctx.inner sig) sig.endLine) :=
      .next (.emit hfallback _) fun _ => .emitReturn _ _
    exact hmarks hend
  have hall := hinside.trans hreturn
  have houter : (t₅.withCurrent (t₅.current.emit .return sig.endLine)).enclosing.map (·.chunk) =
      (s.current :: s.enclosing).map (·.chunk) := by
    rw [hall.enclosing, hmark.2.2, henc]
    rfl
  cases hencl : t₅.enclosing with
  | nil =>
    rw [withCurrent_enclosing, hencl] at houter
    cases houter
  | cons outer rest =>
    rw [withCurrent_enclosing, hencl, List.map_cons, List.map_cons, List.cons.injEq] at houter
    obtain ⟨-, rfl, rfl⟩ :=
      (ran_endFunction (s := t₅.withCurrent (t₅.current.emit .return sig.endLine)) hencl).1 hre
    refine ⟨⟨hall.code.marked hmark.1, ?_, ?_, hall.code.declared hmark.2.1⟩, houter.1, houter.2⟩
    · exact fun hy => hall.yields (by simp [hy])
    · exact fun d hd => hall.has d (by simpa using hd)

/-- Compiling a declaration leaves its prototype, and with it those of the declarations inside. -/
theorem Marks.emitFunction {kind : FunctionKind} {name : String} {d : FunctionDecl}
    (hbody : ∀ ctx' : Context, ctx'.Marks →
      Marks ctx'.isGenerator d.isGenerator ds (compileStmts ctx' d.body)) :
    Marks g false (d :: ds) (emitFunction ctx
      (signatureOf kind name d.params d.vararg d.body d.pos) fun ctx => compileStmts ctx d.body) := by
  intro s u s' hr
  rw [emitFunction_prototype, ran_bind] at hr
  obtain ⟨defaults, s, hlift, hr⟩ := hr
  obtain ⟨-, rfl⟩ := ran_lift.1 hlift
  split at hr
  · obtain ⟨_, _, hfail, -⟩ := ran_bind.1 hr
    exact absurd hfail ran_fail
  simp only [ran_bind, ran_emit] at hr
  obtain ⟨built, t, hrb, index, _, hra, rfl⟩ := hr
  obtain ⟨c, hc, rfl⟩ := ran_addConstant.1 hra
  obtain ⟨hcomplete, hchunk, henc⟩ := complete_prototype (hbody _ fun _ hb => by cases hb) hrb
  obtain ⟨p, hp⟩ : ∃ p, p = (signatureOf kind name d.params d.vararg d.body d.pos).proto defaults
    built := ⟨_, rfl⟩
  have hmade : CompilesTo d p := ⟨ctx, kind, name, s, t, built, defaults, hrb, hp⟩
  have hpc : p.chunk = built.chunk := by rw [hp]; rfl
  rw [← hp] at hc
  have hcode : Continues g s.chunk (c.emit (.closure index built.upvalues.toList) d.pos.line) := by
    rw [← hchunk]
    refine (continues_addConstant hc fun q hq r hr => ?_).trans (continues_emit rfl _)
    cases hq
    cases nested_split hr with
    | inl heq => exact ⟨d, heq ▸ hmade⟩
    | inr hin =>
      obtain ⟨q, hq, hn⟩ := hin
      exact hcomplete.declared q (hpc ▸ hq) r hn
  refine ⟨hcode, nofun, fun d' hd' => ?_, henc⟩
  refine ⟨p, ?_, ?_⟩
  · show .function p ∈ (c.emit _ _).constants
    rw [Chunk.emit_constants]
    exact Chunk.mem_addConstant? hc
  · cases List.mem_cons.1 hd' with
    | inl heq => exact ⟨p, .self, heq ▸ hmade⟩
    | inr hin =>
      obtain ⟨q, hq, r, hn, hmade'⟩ := hcomplete.has d' hin
      exact ⟨r, .of_inner (hpc ▸ hq) hn, hmade'⟩

end Rules

end ScriptEngine.Compile
