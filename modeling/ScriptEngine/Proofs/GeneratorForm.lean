import ScriptEngine.Proofs.Yielding

/-!
# Generators of compiled programs

Every generator of the compiler leaves the marks that the tree asks for, by induction on the program
tree. So the code of a function yields exactly if its body is found to yield, however its `yield`
expressions are nested, whatever `with` and `for` statements turn into, and however often an `ensure`
part is emitted. A generator begins with its mark and is closed right before every return.
-/

namespace ScriptEngine.Compile

open Bytecode Source

/-! ## Induction on the program tree -/

section Induction

variable {ctx : Context} {pos : Position}

/-- Items collected in a list, or pushed one after another. -/
theorem Marks.items {items : List Expr} {cause : Cause} {limit : Nat} {collected counted : Gen Unit}
    {y : Bool} {ds : List FunctionDecl}
    (hspread : Marks ctx.isGenerator y ds (compileSpread ctx items))
    (hitems : Marks ctx.isGenerator y ds (compileExprs ctx items))
    (hcollected : Marks ctx.isGenerator false [] collected)
    (hcounted : Marks ctx.isGenerator false [] counted) :
    Marks ctx.isGenerator y ds (if hasSpread items = true then do
        Compile.emitListStart items
        compileSpread ctx items
        collected
      else do
        if items.length > limit then Compile.fail cause pos
        compileExprs ctx items
        counted) :=
  .ite (.next (.emitListStart items) fun _ => hspread.last fun _ => hcollected)
    (.unless (hitems.last fun _ => hcounted))

/-- A call of something that is no method. -/
theorem marks_call {callee : Expr} {arguments : List Expr}
    (hcallee : Marks ctx.isGenerator callee.yields callee.functions (compileExpr ctx callee))
    (hspread : Marks ctx.isGenerator (yieldsAny arguments) (Expr.functionsAll arguments)
      (compileSpread ctx arguments))
    (hitems : Marks ctx.isGenerator (yieldsAny arguments) (Expr.functionsAll arguments)
      (compileExprs ctx arguments))
    (hmethod : ∀ pos object name, callee = .member pos object name → False) :
    Marks ctx.isGenerator (Expr.call pos callee arguments).yields
      (Expr.call pos callee arguments).functions (compileExpr ctx (.call pos callee arguments)) := by
  rw [compileExpr]
  · exact hcallee.bind fun _ =>
      .items hspread hitems (.emit rfl pos.line) (.emit (isMark_call _) pos.line)
  · exact hmethod

/-- A `try` statement with any of its parts. -/
theorem marks_guarded {body : Stmt} {clauses : List ExceptClause} {ensure : Option Stmt}
    (hctx : ctx.Marks) (hbody : MarksWithin ctx body.yields body.functions (compileStmt · body))
    (hclauses : ∀ x y, MarksWithin ctx (clausesYield clauses) (clausesFunctions clauses) fun ctx' =>
      compileClauses ctx' x y clauses >>= fun exits => patchJumps exits ⟨0, 0⟩)
    (hensure : ∀ s, ensure = some s →
      MarksWithin ctx s.yields s.functions (compileStmt · s)) :
    Marks ctx.isGenerator (Stmt.guarded pos body clauses ensure).yields
      (Stmt.guarded pos body clauses ensure).functions
      (compileStmt ctx (.guarded pos body clauses ensure)) := by
  cases ensure with
  | none =>
    cases clauses with
    | nil =>
      refine (Marks.tryBare hctx hbody).mono ?_ ?_
      · simp [Stmt.yields, clausesYield, Stmt.yieldsOption]
      · simp [Stmt.functions, clausesFunctions]
    | cons clause clauses =>
      refine (Marks.tryClauses hctx hbody hclauses).mono ?_ ?_
      · simp [Stmt.yields, Stmt.yieldsOption]
      · simp [Stmt.functions]
  | some s =>
    have hs := hensure s rfl
    cases clauses with
    | nil =>
      refine (Marks.tryEnsure hctx hbody hs).mono ?_ ?_
      · simp [Stmt.yields, clausesYield, Stmt.yieldsOption]
      · simp [Stmt.functions, clausesFunctions]
    | cons clause clauses =>
      refine (Marks.tryBoth hctx hbody hclauses hs).mono ?_ ?_
      · simp [Stmt.yields, Stmt.yieldsOption, or_assoc]
      · simp [Stmt.functions]

mutual

/-- An expression leaves what it is found to have. -/
theorem marks_compileExpr (ctx : Context) (e : Expr) (hctx : ctx.Marks) :
    Marks ctx.isGenerator e.yields e.functions (compileExpr ctx e) := by
  match e with
  | .number pos n =>
    rw [compileExpr]
    exact .emitConstant (fun _ h => by cases h) pos
  | .string pos s =>
    rw [compileExpr]
    exact .emitConstant (fun _ h => by cases h) pos
  | .bool pos b =>
    rw [compileExpr]
    cases b <;> exact .emit rfl pos.line
  | .null pos =>
    rw [compileExpr]
    exact .emit rfl pos.line
  | .ident pos name =>
    rw [compileExpr]
    exact .getVariable name pos
  | .receiver pos =>
    rw [compileExpr]
    exact .ite (.fail _ _) (.getVariable _ pos)
  | .binary pos op left right =>
    rw [compileExpr]
    have hl := marks_compileExpr ctx left hctx
    have hr := marks_compileExpr ctx right hctx
    exact hl.bind fun _ => hr.last fun _ => .emitBinary op pos.line
  | .unary pos op operand =>
    rw [compileExpr]
    have ho := marks_compileExpr ctx operand hctx
    exact ho.last fun _ => .emitUnary op pos
  | .conj pos left right =>
    rw [compileExpr]
    have hl := marks_compileExpr ctx left hctx
    have hr := marks_compileExpr ctx right hctx
    exact hl.bind fun _ => .next (.emit rfl pos.line) fun _ =>
      .next (.emitJump rfl pos.line) fun _ => .next (.emit rfl pos.line) fun _ =>
      hr.last fun _ => .patchJump _ pos
  | .disj pos left right =>
    rw [compileExpr]
    have hl := marks_compileExpr ctx left hctx
    have hr := marks_compileExpr ctx right hctx
    exact hl.bind fun _ => .next (.emit rfl pos.line) fun _ =>
      .next (.emitJump rfl pos.line) fun _ => .next (.emit rfl pos.line) fun _ =>
      hr.last fun _ => .patchJump _ pos
  | .conditional pos condition thenExpr elseExpr =>
    rw [compileExpr]
    have hc := marks_compileExpr ctx condition hctx
    have ht := marks_compileExpr ctx thenExpr hctx
    have he := marks_compileExpr ctx elseExpr hctx
    exact (Marks.branchElse hc ht he).mono (by simp [Expr.yields, or_assoc]) (by simp [Expr.functions])
  | .assign pos target value =>
    have hvalue := marks_compileExpr ctx value hctx
    cases target with
    | ident pos name =>
      rw [compileExpr]
      exact hvalue.last fun _ => .setVariable name pos
    | member pos object name =>
      rw [compileExpr]
      have hobject := marks_compileExpr ctx object hctx
      exact hobject.bind fun _ => hvalue.last fun _ => .next (.addName _ pos) fun _ =>
        .emit rfl pos.line
    | index pos object index =>
      rw [compileExpr]
      have hobject := marks_compileExpr ctx object hctx
      have hindex := marks_compileExpr ctx index hctx
      refine Marks.mono (hobject.bind fun _ => hindex.bind fun _ => hvalue.last fun _ =>
        .emit rfl pos.line) ?_ ?_
      · simp [Expr.yields, or_assoc]
      · simp [Expr.functions]
    | _ =>
      simp only [compileExpr]
      exact .fail _ _
  | .compound pos op target value =>
    have hvalue := marks_compileExpr ctx value hctx
    cases target with
    | ident pos name =>
      rw [compileExpr]
      exact .next (.getVariable name pos) fun _ => hvalue.last fun _ =>
        .next (.emitBinary op pos.line) fun _ => .setVariable name pos
    | member pos object name =>
      rw [compileExpr]
      have hobject := marks_compileExpr ctx object hctx
      exact .next (.addName name pos) fun _ => hobject.bind fun _ =>
        .next (.emit rfl pos.line) fun _ => .next (.emit rfl pos.line) fun _ =>
        hvalue.last fun _ => .next (.emitBinary op pos.line) fun _ => .emit rfl pos.line
    | index pos object index =>
      rw [compileExpr]
      have hobject := marks_compileExpr ctx object hctx
      have hindex := marks_compileExpr ctx index hctx
      refine Marks.mono (hobject.bind fun _ => hindex.bind fun _ =>
        .next (.emit rfl pos.line) fun _ => .next (.emit rfl pos.line) fun _ =>
        hvalue.last fun _ => .next (.emitBinary op pos.line) fun _ => .emit rfl pos.line) ?_ ?_
      · simp [Expr.yields, or_assoc]
      · simp [Expr.functions]
    | _ =>
      simp only [compileExpr]
      exact .fail _ _
  | .call pos callee arguments =>
    have hspread := marks_compileSpread ctx arguments hctx
    have hitems := marks_compileExprs ctx arguments hctx
    have hcallee := marks_compileExpr ctx callee hctx
    cases callee with
    | member mpos object name =>
      rw [compileExpr]
      have hobject := marks_compileExpr ctx object hctx
      exact hobject.bind fun _ => .items hspread hitems
        (.next (.addName name pos) fun _ => .emit rfl pos.line)
        (.next (.addName name pos) fun i => .emit (isMark_invoke _ i) pos.line)
    | _ => exact marks_call hcallee hspread hitems nofun
  | .member pos object name =>
    rw [compileExpr]
    have hobject := marks_compileExpr ctx object hctx
    exact hobject.last fun _ => .next (.addName name pos) fun _ => .emit rfl pos.line
  | .index pos object index =>
    rw [compileExpr]
    have hobject := marks_compileExpr ctx object hctx
    have hindex := marks_compileExpr ctx index hctx
    exact hobject.bind fun _ => hindex.last fun _ => .emit rfl pos.line
  | .superCall pos method arguments =>
    rw [compileExpr]
    have hspread := marks_compileSpread ctx arguments hctx
    have hitems := marks_compileExprs ctx arguments hctx
    exact .next (.superName ctx method pos) fun name => .next (.getVariable _ pos) fun _ =>
      .items hspread hitems
        (.next (.getVariable _ pos) fun _ => .next (.addName name pos) fun _ => .emit rfl pos.line)
        (.next (.getVariable _ pos) fun _ => .next (.addName name pos) fun _ => .emit rfl pos.line)
  | .superMember pos method =>
    rw [compileExpr]
    exact .next (.superName ctx method pos) fun name => .next (.getVariable _ pos) fun _ =>
      .unless (.next (.getVariable _ pos) fun _ => .next (.addName name pos) fun _ =>
      .emit rfl pos.line)
  | .list pos items =>
    rw [compileExpr]
    have hspread := marks_compileSpread ctx items hctx
    have hitems := marks_compileExprs ctx items hctx
    exact .ite (.next (.emitListStart items) fun _ => hspread)
      (.unless (hitems.last fun _ => .emit rfl pos.line))
  | .tuple pos items =>
    rw [compileExpr]
    have hspread := marks_compileSpread ctx items hctx
    have hitems := marks_compileExprs ctx items hctx
    exact .items hspread hitems (.emit rfl pos.line) (.emit rfl pos.line)
  | .table pos entries =>
    rw [compileExpr]
    have hentries := marks_compileEntries ctx entries hctx
    exact .unless (hentries.last fun _ => .emit rfl pos.line)
  | .function pos ⟨name, params, vararg, body, declPos⟩ =>
    rw [compileExpr]
    exact Marks.emitFunction (d := ⟨name, params, vararg, body, declPos⟩)
      fun ctx' hctx' => marks_compileStmts ctx' body hctx'
  | .spread pos inner =>
    rw [compileExpr]
    exact .fail _ _
  | .yield pos value =>
    rw [compileExpr]
    split
    · exact .failed
    · next hg =>
      have hyield : Marks ctx.isGenerator true [] (emit .yield pos.line) :=
        .emitYield pos.line (by simpa using hg)
      cases value with
      | none => exact .next (.emit rfl pos.line) fun _ => hyield
      | some value =>
        have hvalue := marks_compileExpr ctx value hctx
        exact (hvalue.bind fun _ => hyield).mono (by simp) (by simp [Expr.functions])

/-- So do expressions one after another. -/
theorem marks_compileExprs (ctx : Context) (es : List Expr) (hctx : ctx.Marks) :
    Marks ctx.isGenerator (yieldsAny es) (Expr.functionsAll es) (compileExprs ctx es) := by
  match es with
  | [] =>
    rw [compileExprs]
    exact .pure _
  | e :: rest =>
    rw [compileExprs]
    have he := marks_compileExpr ctx e hctx
    have hrest := marks_compileExprs ctx rest hctx
    exact he.bind fun _ => hrest

/-- So do items added to a list. -/
theorem marks_compileSpread (ctx : Context) (es : List Expr) (hctx : ctx.Marks) :
    Marks ctx.isGenerator (yieldsAny es) (Expr.functionsAll es) (compileSpread ctx es) := by
  match es with
  | [] =>
    rw [compileSpread]
    exact .pure _
  | e :: rest =>
    have hrest := marks_compileSpread ctx rest hctx
    have he := marks_compileExpr ctx e hctx
    cases e with
    | spread pos inner =>
      rw [compileSpread]
      have hinner := marks_compileExpr ctx inner hctx
      exact hinner.bind fun _ => .next (.emit rfl pos.line) fun _ => hrest
    | _ =>
      rw [compileSpread]
      · exact he.bind fun _ => .next (.emit rfl _) fun _ => hrest
      · nofun

/-- So do the entries of a table. -/
theorem marks_compileEntries (ctx : Context) (entries : List (Expr × Expr)) (hctx : ctx.Marks) :
    Marks ctx.isGenerator (yieldsAnyEntry entries) (Expr.functionsEntries entries)
      (compileEntries ctx entries) := by
  match entries with
  | [] =>
    rw [compileEntries]
    exact .pure _
  | (k, v) :: rest =>
    rw [compileEntries]
    have hkey := marks_compileExpr ctx k hctx
    have hvalue := marks_compileExpr ctx v hctx
    have hrest := marks_compileEntries ctx rest hctx
    exact Marks.mono (hkey.bind fun _ => hvalue.bind fun _ => hrest)
      (by simp [yieldsAnyEntry, or_assoc]) (by simp [Expr.functionsEntries])

/-- A statement leaves what it is found to have. -/
theorem marks_compileStmt (ctx : Context) (s : Stmt) (hctx : ctx.Marks) :
    Marks ctx.isGenerator s.yields s.functions (compileStmt ctx s) := by
  match s with
  | .expression pos e =>
    have he := marks_compileExpr ctx e hctx
    exact he.last fun _ => .emit rfl pos.line
  | .declare pos names (some e) =>
    have he := marks_compileExpr ctx e hctx
    exact .declareValue he
  | .declare pos names none => exact .declareNothing
  | .block pos body => exact .inScope pos.line (marks_compileStmts ctx body hctx)
  | .branch pos c t (some e) =>
    have hc := marks_compileExpr ctx c hctx
    have ht := marks_compileStmt ctx t hctx
    have he := marks_compileStmt ctx e hctx
    exact (Marks.branchElse hc ht he).mono (by simp [Stmt.yields, Stmt.yieldsOption, or_assoc])
      (by simp [Stmt.functions])
  | .branch pos c t none =>
    have hc := marks_compileExpr ctx c hctx
    have ht := marks_compileStmt ctx t hctx
    exact (Marks.branch hc ht).mono (by simp [Stmt.yields, Stmt.yieldsOption])
      (by simp [Stmt.functions])
  | .whileLoop pos c body =>
    have hc := marks_compileExpr ctx c hctx
    have hb := marks_compileStmt ctx body hctx
    exact .emitWhile ctx hc hb
  | .forLoop pos initial condition step body =>
    have hb := marks_compileStmt ctx body hctx
    have hi : MarksOption ctx.isGenerator (Stmt.yieldsOption initial)
        (match initial with
          | some s => s.functions
          | none => []) (initial.map (compileStmt ctx)) := by
      cases initial with
      | none => exact ⟨rfl, rfl⟩
      | some s => exact marks_compileStmt ctx s hctx
    have hc : MarksOption ctx.isGenerator (Source.yieldsOption condition)
        (match condition with
          | some e => e.functions
          | none => []) (condition.map (compileExpr ctx)) := by
      cases condition with
      | none => exact ⟨rfl, rfl⟩
      | some e => exact marks_compileExpr ctx e hctx
    have hs : MarksOption ctx.isGenerator (Source.yieldsOption step)
        (match step with
          | some e => e.functions
          | none => []) (step.map (compileExpr ctx)) := by
      cases step with
      | none => exact ⟨rfl, rfl⟩
      | some e => exact marks_compileExpr ctx e hctx
    rw [compileStmt_forLoop]
    refine (Marks.emitFor ctx hi hc hs hb).mono ?_ ?_
    · rw [Stmt.yields]
      simp only [Bool.or_eq_true]
      tauto
    · intro d hd
      rw [Stmt.functions_forLoop] at hd
      simp only [List.mem_append] at hd ⊢
      tauto
  | .forEach pos names iterable body =>
    have hi := marks_compileExpr ctx iterable hctx
    have hb := marks_compileStmt ctx body hctx
    exact .emitForEach ctx hi hb
  | .breakLoop pos => exact .emitBreak hctx pos
  | .continueLoop pos => exact .emitContinue hctx pos
  | .returnValue pos (some e) =>
    have he := marks_compileExpr ctx e hctx
    exact .returnValue he
  | .returnValue pos none => exact .returnNothing
  | .raise pos e =>
    have he := marks_compileExpr ctx e hctx
    exact he.last fun _ => .emit rfl pos.line
  | .guarded pos body clauses ensure =>
    have hbody : MarksWithin ctx body.yields body.functions (compileStmt · body) :=
      fun ctx' hg hctx' => hg ▸ marks_compileStmt ctx' body hctx'
    have hclauses : ∀ x y, MarksWithin ctx (clausesYield clauses) (clausesFunctions clauses)
        fun ctx' => compileClauses ctx' x y clauses >>= fun exits => patchJumps exits ⟨0, 0⟩ := by
      intro x y ctx' hg hctx'
      have hc := marks_compileClauses ctx' x y clauses hctx'
      rw [hg] at hc
      exact hc.last fun exits => .patchJumps exits ⟨0, 0⟩
    refine marks_guarded hctx hbody hclauses ?_
    cases ensure with
    | none => nofun
    | some s =>
      have hs : MarksWithin ctx s.yields s.functions (compileStmt · s) :=
        fun ctx' hg hctx' => hg ▸ marks_compileStmt ctx' s hctx'
      intro s' hs'
      cases hs'
      exact hs
  | .withResource pos name value body =>
    have hvalue : MarksWithin ctx value.yields value.functions (compileExpr · value) :=
      fun ctx' hg hctx' => hg ▸ marks_compileExpr ctx' value hctx'
    have hbody : MarksWithin ctx body.yields body.functions (compileStmt · body) :=
      fun ctx' hg hctx' => hg ▸ marks_compileStmt ctx' body hctx'
    exact .emitWith hctx hvalue hbody
  | .function pos ⟨name, params, vararg, body, declPos⟩ =>
    have hfun : Marks ctx.isGenerator false
        (⟨name, params, vararg, body, declPos⟩ :: Stmt.functionsAll body)
        (emitFunction ctx (signatureOf .function name params vararg body declPos)
          fun ctx => compileStmts ctx body) :=
      Marks.emitFunction (d := ⟨name, params, vararg, body, declPos⟩)
        fun ctx' hctx' => marks_compileStmts ctx' body hctx'
    exact .next .atTopLevel fun _ => .ite (hfun.last fun _ => .defineVariable name declPos)
      (.next (.defineLocal name declPos) fun _ => hfun)
  | .native pos decl =>
    exact .next (.nativeConstant decl) fun _ => .next (.emit rfl pos.line) fun _ =>
      .defineVariable _ _
  | .classDef pos name superclass methods =>
    have hmethods := marks_compileMethods ctx name methods hctx
    rw [compileStmt_classDef]
    cases superclass with
    | none =>
      have hroot : Marks ctx.isGenerator false [] (emit .getObject pos.line) := .emit rfl pos.line
      exact (Marks.emitClass hroot hmethods).mono nofun (by simp [Stmt.functions])
    | some e =>
      have he := marks_compileExpr ctx e hctx
      exact (Marks.emitClass he hmethods).mono nofun (by simp [Stmt.functions])
  | .importModule pos decl => exact .emitImport decl

/-- So do statements one after another. -/
theorem marks_compileStmts (ctx : Context) (body : List Stmt) (hctx : ctx.Marks) :
    Marks ctx.isGenerator (Stmt.yieldsAny body) (Stmt.functionsAll body) (compileStmts ctx body) := by
  match body with
  | [] =>
    rw [compileStmts]
    exact .pure _
  | s :: rest =>
    rw [compileStmts]
    have hs := marks_compileStmt ctx s hctx
    have hrest := marks_compileStmts ctx rest hctx
    exact hs.bind fun _ => hrest

/-- So do the clauses of a `try` statement. -/
theorem marks_compileClauses (ctx : Context) (x y : UInt16) (clauses : List ExceptClause)
    (hctx : ctx.Marks) :
    Marks ctx.isGenerator (clausesYield clauses) (clausesFunctions clauses)
      (compileClauses ctx x y clauses) := by
  match clauses with
  | [] => exact .pure _
  | ⟨pos, exceptionClass, binder, body⟩ :: rest =>
    rw [compileClauses]
    have hc := marks_compileExpr ctx exceptionClass hctx
    have hb := marks_compileStmt ctx body hctx
    have hrest := marks_compileClauses ctx x y rest hctx
    exact Marks.mono ((Marks.emitClause hc hb _).bind fun _ => hrest.last fun _ => .pure _)
      (by simp [clausesYield]) (by simp [clausesFunctions])

/-- So do the methods of a class. -/
theorem marks_compileMethods (ctx : Context) (className : String) (methods : List Method)
    (hctx : ctx.Marks) :
    Marks ctx.isGenerator false (methodsFunctions methods)
      (compileMethods ctx className methods) := by
  match methods with
  | [] => exact .pure _
  | .function ⟨name, params, vararg, body, pos⟩ :: rest =>
    rw [compileMethods]
    have hrest := marks_compileMethods ctx className rest hctx
    have hfun : Marks ctx.isGenerator false
        (⟨name, params, vararg, body, pos⟩ :: Stmt.functionsAll body)
        (emitFunction { ctx with method := some name }
          (signatureOf (if name == "construct" then .constructor else .method)
            (className ++ "." ++ name) params vararg body pos) fun ctx => compileStmts ctx body) :=
      Marks.emitFunction (d := ⟨name, params, vararg, body, pos⟩)
        fun ctx' hctx' => marks_compileStmts ctx' body hctx'
    exact hfun.bind fun _ => .next (.addName name pos) fun _ => .next (.emit rfl pos.line) fun _ =>
      hrest
  | .native decl :: rest =>
    rw [compileMethods]
    have hrest := marks_compileMethods ctx className rest hctx
    exact .next (.nativeConstant decl) fun _ => .next (.emit rfl decl.pos.line) fun _ => hrest

end

end Induction

/-! ## Compiled functions -/

/-- The code of a generator. -/
structure GeneratorForm (c : Chunk) : Prop where
  /-- It yields. -/
  yields : .yield ∈ c.code
  /-- It begins with its mark, which does not come again. -/
  begins : ∀ i : Nat, c.code[i]? = some .generator ↔ i = 0
  /-- It is closed right before each return. -/
  returns : ∀ i : Nat, c.code[i]? = some .return → ∃ j, i = j + 1 ∧ c.code[j]? = some .generatorClose

/-- The code of anything but a generator. -/
structure PlainForm (c : Chunk) : Prop where
  /-- It is not marked as a generator. -/
  unmarked : .generator ∉ c.code
  /-- It does not yield. -/
  silent : .yield ∉ c.code
  /-- There is no generator to close. -/
  unclosed : .generatorClose ∉ c.code

/-- Code with the marks of a generator that yields has the form of a generator. -/
theorem generatorForm_of_marked {c : Chunk} (h : c.Marked true) (hy : .yield ∈ c.code) :
    GeneratorForm c where
  yields := hy
  begins i := by simpa using h.begins i
  returns := h.returns rfl

/-- Code with the marks of a plain function has the form of one. -/
theorem plainForm_of_marked {c : Chunk} (h : c.Marked false) : PlainForm c where
  unmarked hg := by
    obtain ⟨i, hi⟩ := Array.mem_iff_getElem?.1 hg
    cases ((h.begins i).1 hi).1
  silent hy := by cases h.yields hy
  unclosed hc := by cases h.closes hc

/-- Whatever a declaration is compiled to is complete. -/
theorem complete_of_compilesTo {d : FunctionDecl} {p : Proto} (h : CompilesTo d p) :
    Complete d.isGenerator d.isGenerator (Stmt.functionsAll d.body) p.chunk := by
  obtain ⟨ctx, kind, name, s, s', built, defaults, hr, rfl⟩ := h
  have hbody := marks_compileStmts
    (ctx.inner (signatureOf kind name d.params d.vararg d.body d.pos)) d.body fun _ hb => by cases hb
  exact (complete_prototype hbody hr).1

/-- The code of a program outside of functions is in the form of a plain function, and leaves a
prototype of each declaration. -/
theorem complete_main {program : Program} {m : Module} (h : compile program = .ok m) :
    Complete false false program.functions m.main.chunk := by
  obtain ⟨s, hrun, -, -, hchunk⟩ := ran_compile h
  have hbody := marks_compileStmts topLevel program.body (fun _ hb => by cases hb) hrun
  have hcode : Continues false (CompilerState.chunk ⟨.start "", []⟩) m.main.chunk := by
    have hnull : Continues false s.chunk (s.chunk.emit .null (lastLine program.body 1)) :=
      continues_emit rfl _
    rw [hchunk]
    refine (hbody.code.trans hnull).trans
      (.of_constants (fun hm => hm.emit ?_ ?_ ?_ _) (Chunk.mem_emit · _) (Chunk.emit_constants ..))
    · simp
    · simp
    · exact fun _ => nofun
  refine ⟨hcode.marked (Chunk.marked_plain rfl), nofun, fun d hd => ?_, hcode.declared ?_⟩
  · obtain ⟨q, hq, hp⟩ := hbody.has d hd
    refine ⟨q, ?_, hp⟩
    rwa [hchunk, Chunk.emit_constants, Chunk.emit_constants]
  · exact fun q hq => absurd hq (Array.not_mem_empty _)

/-- Generators are told from other functions by the code that their bodies turn into, just as by the
tree. Every declaration of a compiled program has its prototype, every prototype is one of a
declaration or that of the program, and the code of each prototype, those inside it apart, has a
`yield` if and only if the declaration is found to be a generator, and the form that goes with it. -/
theorem generators_compile {program : Program} {m : Module} (h : compile program = .ok m) :
    PlainForm m.main.chunk ∧
    (∀ d ∈ program.functions, ∃ p, m.main.Nested p ∧ CompilesTo d p) ∧
    (∀ p, m.main.Nested p → p = m.main ∨ ∃ d, CompilesTo d p) ∧
    ∀ d p, CompilesTo d p →
      (.yield ∈ p.chunk.code ↔ d.isGenerator = true) ∧
      (d.isGenerator = true → GeneratorForm p.chunk) ∧
      (d.isGenerator = false → PlainForm p.chunk) := by
  have hmain := complete_main h
  refine ⟨plainForm_of_marked hmain.marked, fun d hd => ?_, fun p hp => ?_, fun d p hdp => ?_⟩
  · obtain ⟨q, hq, p, hp, hdp⟩ := hmain.has d hd
    exact ⟨p, .of_inner hq hp, hdp⟩
  · cases nested_split hp with
    | inl heq => exact .inl heq
    | inr hin =>
      obtain ⟨q, hq, hn⟩ := hin
      exact .inr (hmain.declared q hq p hn)
  · have hcomplete := complete_of_compilesTo hdp
    refine ⟨⟨hcomplete.marked.yields, hcomplete.yields⟩, fun hg => ?_, fun hg => ?_⟩
    · exact generatorForm_of_marked (hg ▸ hcomplete.marked) (hcomplete.yields hg)
    · exact plainForm_of_marked (hg ▸ hcomplete.marked)

theorem generators_countingProgram : ∃ m, compile countingProgram = .ok m ∧
    ∃ d ∈ countingProgram.functions, ∃ p, m.main.Nested p ∧ CompilesTo d p ∧
      GeneratorForm p.chunk := by
  obtain ⟨m, hm, -⟩ := compiles_countingProgram
  obtain ⟨-, hhas, -, hforms⟩ := generators_compile hm
  have hgenerator : ∃ d ∈ countingProgram.functions, d.isGenerator = true :=
    List.any_eq_true.1 (by decide)
  obtain ⟨d, hd, hg⟩ := hgenerator
  obtain ⟨p, hp, hdp⟩ := hhas d hd
  exact ⟨m, hm, d, hd, p, hp, hdp, (hforms d p hdp).2.1 hg⟩

end ScriptEngine.Compile
