import ScriptEngine.Proofs.Functions
import ScriptEngine.Proofs.Structure

/-!
# Discipline of compiled programs

Every expression pushes one value and every statement leaves the stack as it was, apart from the
locals it declares: by induction on the program tree, each case by the lemma about its code. The
typing of the top level then gives every prototype of the compiled module depths that its
instructions respect.
-/

namespace ScriptEngine.Compile

open Bytecode Source

/-! ## Arguments and elements -/

section Arguments

variable {exact : Bool} {ctx : Context} {p q : Nat}

/-- The list that spread items are appended to. -/
theorem turns_emitListStart {items : List Expr} (h : hasSpread items = true) :
    Turns exact 0 1 (emitListStart items) := by
  cases items with
  | nil => cases h
  | cons e items => exact turns_emit e.pos.line rfl rfl

/-- Items are collected in a list, or they are pushed one after another and counted. -/
theorem turns_items {items : List Expr} {cause : Cause} {pos : Position} {limit : Nat}
    {collected counted : Gen Unit} (hspread : Turns exact 1 1 (compileSpread ctx items))
    (hitems : Turns exact 0 items.length (compileExprs ctx items))
    (hcollected : Turns exact (p + 1) q collected)
    (hcounted : ¬ items.length > limit → Turns exact (p + items.length) q counted) :
    Turns exact p q (if hasSpread items = true then do
        emitListStart items
        compileSpread ctx items
        collected
      else do
        if items.length > limit then fail cause pos
        compileExprs ctx items
        counted) := by
  split
  · next h =>
    exact ((turns_emitListStart h).above p).bind fun _ => (hspread.above p).bind fun _ => hcollected
  · exact .unless fun hlimit => (hitems.above p).bind fun _ => hcounted hlimit

/-- A method of the superclass is named by the constant for it or for the method it stands in. -/
theorem turns_superName (ctx : Context) (method : Option String) (pos : Position) :
    Turns exact p p (superName ctx method pos) := by
  unfold superName
  split
  · exact .fail _ _
  · exact .pure _

/-- A call of something that is no method. -/
theorem turns_call {pos : Position} {callee : Expr} {arguments : List Expr}
    (hcallee : Turns exact 0 1 (compileExpr ctx callee))
    (hspread : Turns exact 1 1 (compileSpread ctx arguments))
    (hitems : Turns exact 0 arguments.length (compileExprs ctx arguments))
    (hmethod : ∀ pos object name, callee = .member pos object name → False) :
    Turns exact 0 1 (compileExpr ctx (.call pos callee arguments)) := by
  rw [compileExpr]
  · refine hcallee.bind fun _ =>
      turns_items hspread hitems (turns_emit pos.line rfl rfl) fun hlimit => ?_
    refine turns_emit pos.line (Op.isPlain_call _) ?_
    rw [Op.effect_call, toNat_arguments hlimit, Nat.add_comm]
  · exact hmethod

end Arguments

/-! ## Statements with optional parts -/

section Parts

variable {exact : Bool} {scope : Scope} (ctx : Context) (pos : Position)

/-- What compiling a counting loop comes to. -/
theorem compileStmt_forLoop (initial : Option Stmt) (condition step : Option Expr) (body : Stmt) :
    compileStmt ctx (.forLoop pos initial condition step body) =
      emitFor ctx pos (initial.map (compileStmt ctx)) (condition.map (compileExpr ctx))
        (step.map (compileExpr ctx)) (compileStmt ctx body) := by
  cases initial <;> cases condition <;> cases step <;> rfl

/-- What compiling a class comes to: without a superclass it inherits from the root class. -/
theorem compileStmt_classDef (name : String) (superclass : Option Expr) (methods : List Method) :
    compileStmt ctx (.classDef pos name superclass methods) =
      emitClass pos name ((superclass.map (compileExpr ctx)).getD (emit .getObject pos.line))
        (compileMethods ctx name methods) := by
  cases superclass <;> rfl

/-- A `try` statement has except clauses, an `ensure` part, or both. -/
theorem builds_guarded {body : Stmt} {clauses : List ExceptClause} {ensure : Option Stmt}
    (hany : (!clauses.isEmpty || ensure.isSome) = true)
    (hbody : ∀ ctx' : Context, Builds exact scope.guarded ctx'.tries false (compileStmt ctx' body))
    (hclauses : ∀ (ctx' : Context) (x y : UInt16), OwesExits exact ctx'.tries x y
      (compileClauses ctx' x y clauses))
    (hensure : ∀ s, ensure = some s → ∀ ctx' : Context,
      Builds exact .bound ctx'.tries false (compileStmt ctx' s)) :
    Builds exact scope ctx.tries false (compileStmt ctx (.guarded pos body clauses ensure)) := by
  have hhandles := fun (ctx' : Context) x y => (hclauses ctx' x y).handles ⟨0, 0⟩
  cases ensure with
  | none =>
    cases clauses with
    | nil => cases hany
    | cons clause clauses => exact builds_tryClauses hbody hhandles
  | some s =>
    cases clauses with
    | nil => exact builds_tryEnsure hbody (hensure s rfl)
    | cons clause clauses => exact builds_tryBoth hbody hhandles (hensure s rfl)

end Parts

/-! ## Induction on the program tree -/

/-- Where no bound scope is allowed, an allowed scope is another one. -/
theorem allowed_ne_bound {allowed : Scope → Bool} {scope : Scope} (hb : allowed .bound = false)
    (hs : allowed scope = true) : scope ≠ .bound := by
  rintro rfl
  rw [hb] at hs
  cases hs

section Induction

variable {exact : Bool} {allowed : Scope → Bool} (hallowed : exact = true → allowed .bound = false)

include hallowed

set_option linter.unusedSectionVars false in
mutual

/-- An expression pushes one value. -/
theorem turns_compileExpr (ctx : Context) (e : Expr) (h : e.structured allowed = true) :
    Turns exact 0 1 (compileExpr ctx e) := by
  match e with
  | .number pos n =>
    rw [compileExpr]
    exact turns_emitConstant (by nofun) pos
  | .string pos s =>
    rw [compileExpr]
    exact turns_emitConstant (by nofun) pos
  | .bool pos b =>
    rw [compileExpr]
    cases b <;> exact turns_emit pos.line rfl rfl
  | .null pos =>
    rw [compileExpr]
    exact turns_emit pos.line rfl rfl
  | .ident pos name =>
    rw [compileExpr]
    exact turns_getVariable name pos
  | .receiver pos =>
    rw [compileExpr]
    split
    · exact .fail _ _
    · exact turns_getVariable _ pos
  | .binary pos op left right =>
    simp only [Expr.structured, Bool.and_eq_true] at h
    rw [compileExpr]
    have hl := turns_compileExpr ctx left h.1
    have hr := (turns_compileExpr ctx right h.2).above 1
    exact hl.bind fun _ => hr.bind fun _ => turns_emitBinary op pos.line
  | .unary pos op operand =>
    rw [compileExpr]
    have ho := turns_compileExpr ctx operand (by simpa only [Expr.structured] using h)
    exact ho.bind fun _ => turns_emitUnary op pos
  | .conj pos left right =>
    simp only [Expr.structured, Bool.and_eq_true] at h
    rw [compileExpr]
    exact turns_shortCircuit (.inl rfl) (turns_compileExpr ctx left h.1)
      (turns_compileExpr ctx right h.2)
  | .disj pos left right =>
    simp only [Expr.structured, Bool.and_eq_true] at h
    rw [compileExpr]
    exact turns_shortCircuit (.inr rfl) (turns_compileExpr ctx left h.1)
      (turns_compileExpr ctx right h.2)
  | .conditional pos condition thenExpr elseExpr =>
    simp only [Expr.structured, Bool.and_eq_true] at h
    rw [compileExpr]
    have helse := turns_compileExpr ctx elseExpr h.2
    refine turns_branch (turns_compileExpr ctx condition h.1.1)
      (turns_compileExpr ctx thenExpr h.1.2) ?_ nofun
    rintro _ ⟨⟩
    exact helse
  | .assign pos target value =>
    simp only [Expr.structured, Bool.and_eq_true] at h
    have hvalue := turns_compileExpr ctx value h.2
    cases target with
    | ident pos name =>
      rw [compileExpr]
      exact hvalue.bind fun _ => turns_setVariable name pos
    | member pos object name =>
      rw [compileExpr]
      have hobject := turns_compileExpr ctx object (by simpa only [Expr.structured] using h.1)
      exact hobject.bind fun _ => (hvalue.above 1).bind fun _ =>
        .bind (turns_addName name pos) fun _ => turns_emit pos.line rfl rfl
    | index pos object index =>
      simp only [Expr.structured, Bool.and_eq_true] at h
      rw [compileExpr]
      have hobject := turns_compileExpr ctx object h.1.1
      have hindex := (turns_compileExpr ctx index h.1.2).above 1
      exact hobject.bind fun _ => hindex.bind fun _ => (hvalue.above 2).bind fun _ =>
        turns_emit pos.line rfl rfl
    | _ =>
      simp only [compileExpr]
      exact .fail _ _
  | .compound pos op target value =>
    simp only [Expr.structured, Bool.and_eq_true] at h
    have hvalue := turns_compileExpr ctx value h.2
    cases target with
    | ident pos name =>
      rw [compileExpr]
      exact (turns_getVariable name pos).bind fun _ => (hvalue.above 1).bind fun _ =>
        .bind (turns_emitBinary op pos.line) fun _ => turns_setVariable name pos
    | member pos object name =>
      rw [compileExpr]
      have hobject := turns_compileExpr ctx object (by simpa only [Expr.structured] using h.1)
      have hfield : ∀ i, Turns exact 2 2 (emit (.getField i) pos.line) := fun i =>
        (turns_emit pos.line rfl rfl : Turns exact 1 1 _).above 1
      exact .bind (turns_addName name pos) fun i => hobject.bind fun _ =>
        .bind (turns_emit pos.line rfl rfl) fun _ => (hfield i).bind fun _ =>
        (hvalue.above 2).bind fun _ =>
        ((turns_emitBinary op pos.line).above 1).bind fun _ => turns_emit pos.line rfl rfl
    | index pos object index =>
      simp only [Expr.structured, Bool.and_eq_true] at h
      rw [compileExpr]
      have hobject := turns_compileExpr ctx object h.1.1
      have hindex := (turns_compileExpr ctx index h.1.2).above 1
      have helement : Turns exact 4 3 (emit .getSubscript pos.line) :=
        (turns_emit pos.line rfl rfl : Turns exact 2 1 _).above 2
      exact hobject.bind fun _ => hindex.bind fun _ => .bind (turns_emit pos.line rfl rfl) fun _ =>
        helement.bind fun _ => (hvalue.above 3).bind fun _ =>
        ((turns_emitBinary op pos.line).above 2).bind fun _ => turns_emit pos.line rfl rfl
    | _ =>
      simp only [compileExpr]
      exact .fail _ _
  | .call pos callee arguments =>
    simp only [Expr.structured, Bool.and_eq_true] at h
    have hspread := turns_compileSpread ctx arguments h.2
    have hitems := turns_compileExprs ctx arguments h.2
    have hcallee := turns_compileExpr ctx callee h.1
    cases callee with
    | member mpos object name =>
      rw [compileExpr]
      have hobject := turns_compileExpr ctx object (by simpa only [Expr.structured] using h.1)
      refine hobject.bind fun _ => turns_items hspread hitems ?_ ?_
      · exact .bind (turns_addName name pos) fun _ => turns_emit pos.line rfl rfl
      · refine fun hlimit => .bind (turns_addName name pos) fun i =>
          turns_emit pos.line (Op.isPlain_invoke _ i) ?_
        rw [Op.effect_invoke, toNat_arguments hlimit, Nat.add_comm]
    | _ => exact turns_call hcallee hspread hitems nofun
  | .member pos object name =>
    rw [compileExpr]
    have hobject := turns_compileExpr ctx object (by simpa only [Expr.structured] using h)
    exact hobject.bind fun _ => .bind (turns_addName name pos) fun _ => turns_emit pos.line rfl rfl
  | .index pos object index =>
    simp only [Expr.structured, Bool.and_eq_true] at h
    rw [compileExpr]
    have hobject := turns_compileExpr ctx object h.1
    have hindex := (turns_compileExpr ctx index h.2).above 1
    exact hobject.bind fun _ => hindex.bind fun _ => turns_emit pos.line rfl rfl
  | .superCall pos method arguments =>
    simp only [Expr.structured] at h
    rw [compileExpr]
    have hspread := turns_compileSpread ctx arguments h
    have hitems := turns_compileExprs ctx arguments h
    refine (turns_superName ctx method pos).bind fun name => (turns_getVariable _ pos).bind fun _ =>
      turns_items hspread hitems ?_ fun hlimit => ?_
    · exact ((turns_getVariable _ pos).above 2).bind fun _ => .bind (turns_addName name pos)
        fun _ => turns_emit pos.line rfl rfl
    · refine ((turns_getVariable _ pos).above (1 + arguments.length)).bind fun _ =>
        .bind (turns_addName name pos) fun _ => turns_emit pos.line rfl ?_
      rw [Op.effect, toNat_arguments hlimit]
      congr 1
      omega
  | .superMember pos method =>
    rw [compileExpr]
    exact (turns_superName ctx method pos).bind fun name => (turns_getVariable _ pos).bind fun _ =>
      .unless fun _ => ((turns_getVariable _ pos).above 1).bind fun _ =>
        .bind (turns_addName name pos) fun _ => turns_emit pos.line rfl rfl
  | .list pos items =>
    simp only [Expr.structured] at h
    rw [compileExpr]
    have hspread := turns_compileSpread ctx items h
    have hitems := turns_compileExprs ctx items h
    have hlist : Turns exact 0 1 (if hasSpread items = true then do
          emitListStart items
          compileSpread ctx items
          pure ()
        else do
          if items.length > maxElements then fail .tooManyElements pos
          compileExprs ctx items
          emit (.newList (UInt16.ofNat items.length)) pos.line) := by
      refine turns_items hspread hitems (.pure ()) fun hlimit => turns_emit pos.line rfl ?_
      rw [Op.effect, toNat_elements hlimit, Nat.zero_add]
    simpa only [bind_pure_unit] using hlist
  | .tuple pos items =>
    simp only [Expr.structured] at h
    rw [compileExpr]
    have hspread := turns_compileSpread ctx items h
    have hitems := turns_compileExprs ctx items h
    refine turns_items hspread hitems (turns_emit pos.line rfl rfl) fun hlimit =>
        turns_emit pos.line rfl ?_
    rw [Op.effect, toNat_elements hlimit, Nat.zero_add]
  | .table pos entries =>
    simp only [Expr.structured] at h
    rw [compileExpr]
    have hentries := turns_compileEntries ctx entries h
    refine .unless fun hlimit => hentries.bind fun _ => turns_emit pos.line rfl ?_
    rw [Op.effect, toNat_elements hlimit]
  | .function pos ⟨name, params, vararg, body, declPos⟩ =>
    simp only [Expr.structured] at h
    rw [compileExpr]
    exact turns_function fun ctx' => builds_compileStmts ctx' .free body h
  | .spread pos inner =>
    rw [compileExpr]
    exact .fail _ _
  | .yield pos value =>
    rw [compileExpr]
    refine .unless fun _ => ?_
    cases value with
    | none => exact .bind (turns_emit pos.line rfl rfl) fun _ => turns_emit pos.line rfl rfl
    | some value =>
      have hvalue := turns_compileExpr ctx value (by simpa only [Expr.structured] using h)
      exact hvalue.bind fun _ => turns_emit pos.line rfl rfl

/-- Several expressions push as many values. -/
theorem turns_compileExprs (ctx : Context) (es : List Expr)
    (h : Expr.structuredAll allowed es = true) :
    Turns exact 0 es.length (compileExprs ctx es) := by
  match es with
  | [] =>
    rw [compileExprs]
    exact .pure ()
  | e :: rest =>
    simp only [Expr.structuredAll, Bool.and_eq_true] at h
    rw [compileExprs, List.length_cons, Nat.add_comm]
    have hrest := (turns_compileExprs ctx rest h.2).above 1
    exact (turns_compileExpr ctx e h.1).bind fun _ => hrest

/-- Items are added to the list on top of the stack. -/
theorem turns_compileSpread (ctx : Context) (es : List Expr)
    (h : Expr.structuredAll allowed es = true) :
    Turns exact 1 1 (compileSpread ctx es) := by
  match es with
  | [] =>
    rw [compileSpread]
    exact .pure ()
  | e :: rest =>
    simp only [Expr.structuredAll, Bool.and_eq_true] at h
    have hrest := turns_compileSpread ctx rest h.2
    have he := (turns_compileExpr ctx e h.1).above 1
    cases e with
    | spread pos inner =>
      simp only [Expr.structured] at h
      rw [compileSpread]
      have hinner := (turns_compileExpr ctx inner h.1).above 1
      exact hinner.bind fun _ => .bind (turns_emit pos.line rfl rfl) fun _ => hrest
    | _ =>
      rw [compileSpread]
      · exact he.bind fun _ => .bind (turns_emit _ rfl rfl) fun _ => hrest
      · nofun

/-- The entries of a table push a key and a value each. -/
theorem turns_compileEntries (ctx : Context) (entries : List (Expr × Expr))
    (h : Expr.structuredEntries allowed entries = true) :
    Turns exact 0 (entries.length * 2) (compileEntries ctx entries) := by
  match entries with
  | [] =>
    rw [compileEntries]
    exact .pure ()
  | (k, v) :: rest =>
    simp only [Expr.structuredEntries, Bool.and_eq_true] at h
    rw [compileEntries, List.length_cons, Nat.add_mul, Nat.add_comm]
    have hkey := turns_compileExpr ctx k h.1.1
    have hvalue := (turns_compileExpr ctx v h.1.2).above 1
    have hrest := (turns_compileEntries ctx rest h.2).above 2
    exact hkey.bind fun _ => hvalue.bind fun _ => hrest

/-- A statement builds code. -/
theorem builds_compileStmt (ctx : Context) (scope : Scope) (s : Stmt)
    (h : s.structured allowed scope = true) :
    Builds exact scope ctx.tries s.declares (compileStmt ctx s) := by
  match s with
  | .expression pos e =>
    have he := turns_compileExpr ctx e h
    have hpop : Turns exact 1 0 (emit .pop pos.line) := turns_emit pos.line rfl rfl
    exact (he.bind fun _ => hpop).builds false
  | .declare pos names (some e) =>
    obtain ⟨hnames, he⟩ := Bool.and_eq_true_iff.1 h
    have he := turns_compileExpr ctx e he
    refine builds_declare (by simpa using hnames) ?_
    rintro _ ⟨⟩
    exact he
  | .declare pos names none =>
    obtain ⟨hnames, -⟩ := Bool.and_eq_true_iff.1 h
    exact builds_declare (by simpa using hnames) nofun
  | .block pos body =>
    exact (builds_compileStmts ctx scope body h).inScope pos.line
  | .branch pos c t (some e) =>
    simp only [Stmt.structured, Bool.and_eq_true, Bool.not_eq_true'] at h
    obtain ⟨⟨⟨hc, htd⟩, ht⟩, hed, he⟩ := h
    have hthen := builds_compileStmt ctx scope t ht
    have helse := builds_compileStmt ctx scope e he
    rw [htd] at hthen
    rw [hed] at helse
    refine builds_branch (turns_compileExpr ctx c hc) hthen ?_
    rintro _ ⟨⟩
    exact helse
  | .branch pos c t none =>
    simp only [Stmt.structured, Bool.and_eq_true, Bool.not_eq_true'] at h
    obtain ⟨⟨⟨hc, htd⟩, ht⟩, -⟩ := h
    have hthen := builds_compileStmt ctx scope t ht
    rw [htd] at hthen
    exact builds_branch (turns_compileExpr ctx c hc) hthen nofun
  | .whileLoop pos c body =>
    simp only [Stmt.structured, Bool.and_eq_true, Bool.not_eq_true'] at h
    obtain ⟨⟨hc, hbd⟩, hb⟩ := h
    have hbody := builds_compileStmt ctx .free body hb
    rw [hbd] at hbody
    exact builds_while (turns_compileExpr ctx c hc) hbody
  | .forLoop pos initial condition step body =>
    simp only [Stmt.structured_forLoop, Bool.and_eq_true, Bool.not_eq_true'] at h
    obtain ⟨⟨⟨⟨hi, hc⟩, hs⟩, hbd⟩, hb⟩ := h
    have hbody := builds_compileStmt ctx .free body hb
    rw [hbd] at hbody
    rw [compileStmt_forLoop]
    refine builds_for (d := initial.any Stmt.declares) ?_ ?_ ?_ hbody
    · cases initial with
      | none => nofun
      | some s =>
        have hs := builds_compileStmt ctx scope s hi
        rintro _ ⟨⟩
        exact hs
    · cases condition with
      | none => nofun
      | some e =>
        have he := turns_compileExpr ctx e hc
        rintro _ ⟨⟩
        exact he
    · cases step with
      | none => nofun
      | some e =>
        have he := turns_compileExpr ctx e hs
        rintro _ ⟨⟩
        exact he
  | .forEach pos names iterable body =>
    simp only [Stmt.structured, Bool.and_eq_true, Bool.not_eq_true'] at h
    obtain ⟨⟨⟨hnames, hi⟩, hbd⟩, hb⟩ := h
    have hbody := builds_compileStmt ctx .free body hb
    rw [hbd] at hbody
    exact builds_forEach (by simpa using hnames) (turns_compileExpr ctx iterable hi) hbody
  | .breakLoop pos => exact builds_break fun he => allowed_ne_bound (hallowed he) h
  | .continueLoop pos => exact builds_continue fun he => allowed_ne_bound (hallowed he) h
  | .returnValue pos (some e) =>
    have he := turns_compileExpr ctx e h
    have hreturn : Turns exact 0 0 (emitReturnStmt ctx pos (some (compileExpr ctx e))) :=
      turns_emitReturnStmt (by
        rintro _ ⟨⟩
        exact he)
    exact hreturn.builds false
  | .returnValue pos none =>
    have hreturn : Turns exact 0 0 (emitReturnStmt ctx pos none) := turns_emitReturnStmt nofun
    exact hreturn.builds false
  | .raise pos e =>
    have he := turns_compileExpr ctx e h
    have hraise : Turns exact 1 0 (emit .raise pos.line) := turns_end (.inr rfl) pos.line
    exact (he.bind fun _ => hraise).builds false
  | .guarded pos body clauses ensure =>
    simp only [Stmt.structured_guarded, Bool.and_eq_true, Bool.not_eq_true'] at h
    obtain ⟨⟨⟨⟨hany, hbd⟩, hb⟩, hc⟩, he⟩ := h
    have hbody : ∀ ctx' : Context, Builds exact scope.guarded ctx'.tries false
        (compileStmt ctx' body) := fun ctx' => hbd ▸ builds_compileStmt ctx' scope.guarded body hb
    refine builds_guarded ctx pos hany hbody
      (fun ctx' x y => owesExits_compileClauses ctx' x y clauses hc) ?_
    cases ensure with
    | none => nofun
    | some s =>
      simp only [Option.all_some, Bool.and_eq_true, Bool.not_eq_true'] at he
      have hs := fun ctx' => builds_compileStmt ctx' .bound s he.2
      rw [he.1] at hs
      rintro _ ⟨⟩
      exact hs
  | .withResource pos name value body =>
    simp only [Stmt.structured, Bool.and_eq_true, Bool.not_eq_true'] at h
    obtain ⟨⟨hv, hbd⟩, hb⟩ := h
    have hvalue := fun ctx' => turns_compileExpr ctx' value hv
    have hbody : ∀ ctx' : Context, Builds exact scope.resource ctx'.tries false
        (compileStmt ctx' body) := fun ctx' => hbd ▸ builds_compileStmt ctx' scope.resource body hb
    exact builds_with hvalue hbody
  | .function pos ⟨name, params, vararg, body, declPos⟩ =>
    exact builds_function fun ctx' => builds_compileStmts ctx' .free body h
  | .native pos decl =>
    exact (turns_nativeConstant decl).thenBuilds fun _ =>
        builds_define (turns_emit pos.line rfl rfl)
  | .classDef pos name superclass methods =>
    simp only [Stmt.structured_classDef, Bool.and_eq_true] at h
    have hmethods := turns_compileMethods ctx name methods h.2
    rw [compileStmt_classDef]
    refine builds_class ?_ hmethods
    cases superclass with
    | none => exact turns_emit pos.line rfl rfl
    | some e => exact turns_compileExpr ctx e h.1
  | .importModule pos decl => exact builds_import decl

/-- Statements one after another build code. -/
theorem builds_compileStmts (ctx : Context) (scope : Scope) (body : List Stmt)
    (h : Stmt.structuredAll allowed scope body = true) :
    Builds exact scope ctx.tries (body.any Stmt.declares) (compileStmts ctx body) := by
  match body with
  | [] =>
    rw [compileStmts]
    exact .nothing
  | s :: rest =>
    simp only [Stmt.structuredAll, Bool.and_eq_true] at h
    rw [compileStmts]
    have hs := builds_compileStmt ctx scope s h.1
    have hrest := builds_compileStmts ctx _ rest h.2
    exact hs.seq hrest

/-- Except clauses build code and owe the jumps to their end. -/
theorem owesExits_compileClauses (ctx : Context) (x y : UInt16) (clauses : List ExceptClause)
    (h : ExceptClause.structuredAll allowed clauses = true) :
    OwesExits exact ctx.tries x y (compileClauses ctx x y clauses) := by
  match clauses with
  | [] => exact .nil
  | ⟨pos, exceptionClass, binder, body⟩ :: rest =>
    simp only [ExceptClause.structuredAll, Bool.and_eq_true, Bool.not_eq_true'] at h
    obtain ⟨⟨⟨hc, hbd⟩, hb⟩, hr⟩ := h
    have hbody := builds_compileStmt ctx .bound body hb
    rw [hbd] at hbody
    exact .cons (turns_compileExpr ctx exceptionClass hc) hbody
      (owesExits_compileClauses ctx x y rest hr)

/-- Methods are defined on the class on top of the stack. -/
theorem turns_compileMethods (ctx : Context) (className : String) (methods : List Method)
    (h : Method.structuredAll allowed methods = true) :
    Turns exact 1 1 (compileMethods ctx className methods) := by
  match methods with
  | [] => exact .pure ()
  | .function ⟨name, params, vararg, body, pos⟩ :: rest =>
    simp only [Method.structuredAll, Bool.and_eq_true] at h
    rw [compileMethods]
    have hrest := turns_compileMethods ctx className rest h.2
    have hbody := fun ctx' => builds_compileStmts ctx' .free body h.1
    exact ((turns_function hbody).above 1).bind fun _ => .bind (turns_addName name pos) fun _ =>
      .bind (turns_emit pos.line rfl rfl) fun _ => hrest
  | .native decl :: rest =>
    simp only [Method.structuredAll] at h
    rw [compileMethods]
    have hrest := turns_compileMethods ctx className rest h
    exact .bind (turns_nativeConstant decl) fun _ =>
        .bind (turns_emit decl.pos.line rfl rfl) fun _ => hrest

end

end Induction

/-! ## Programs -/

/-- A compiled program comes from a run on its statements that ends with a `return`, and the
instructions from each line could be counted. -/
theorem ran_compile {program : Program} {m : Module} (h : compile program = .ok m) :
    ∃ s, Ran (compileStmts topLevel program.body) ⟨.start "", []⟩ () s ∧
      ((s.current.emit .null (lastLine program.body 1)).emit .return
        (lastLine program.body 1)).overflowed = false ∧
      m.main.entryDepth = ⟨1, 0⟩ ∧
      m.main.chunk = (s.chunk.emit .null (lastLine program.body 1)).emit .return
        (lastLine program.body 1) := by
  simp only [compile] at h
  split at h
  · cases h
  · next u s hrun =>
    have hrun : Ran (do
        compileStmts topLevel program.body
        emit .null (lastLine program.body 1)
        emit .return (lastLine program.body 1)) ⟨.start "", []⟩ u s := hrun
    simp only [ran_bind, ran_emit] at hrun
    obtain ⟨_, t, hbody, _, _, rfl, rfl⟩ := hrun
    split at h
    · cases h
    · next hcounted =>
      cases h
      exact ⟨t, hbody, by simpa using hcounted, rfl, rfl⟩

/-- Compiled programs are typed, with exact heights where no jump starts in a bound scope. -/
theorem allTyped_compile {exact : Bool} {allowed : Scope → Bool}
    (hallowed : exact = true → allowed .bound = false) {program : Program} {m : Module}
    (hs : program.structured allowed = true) (h : compile program = .ok m) :
    m.main.AllTyped exact := by
  obtain ⟨s, hrun, -, hentry, hchunk⟩ := ran_compile h
  have hin : Inside exact .free topLevel.tries none ⟨.start "", []⟩
      ⟨fun _ => .ofHeight 1, fun _ => none⟩ (.ofHeight 1) := by
    refine inside_start rfl rfl (Nat.le_refl 1) ?_
    intro x hx
    obtain rfl := List.mem_singleton.1 hx
    exact ⟨0, Nat.le_refl 0, rfl⟩
  obtain ⟨υ, fresh, hat, hg, -, -⟩ := builds_compileStmts hallowed topLevel .free program.body hs
    hin hrun
  have hready : (Level.push (.ofHeight 1) fresh.length).Ready := hin.ready.push _
  obtain ⟨υ', hat', hk⟩ := typed_plain (p := 0) (q := 1) .null hat hready
    (lastLine program.body 1) rfl rfl
  refine hat'.finished hready ?_ hchunk ?_
  · intro pc
    rw [hk.owed, hg.owed_eq.1]
  · rw [hk.level 0 (Nat.zero_le _), hg.level 0 (Nat.zero_le _), hentry]

/-- Stack and handler discipline: a block-structured program in which no `break` or `continue` leaves
a `try` or `with` statement is compiled to prototypes that all have a sound assignment of heights and
handler counts. -/
theorem disciplined_compile {program : Program} {m : Module}
    (hs : program.structured (· == .free) = true) (h : compile program = .ok m) {p : Proto}
    (hp : m.main.Nested p) : ∃ depth, Disciplined p depth :=
  (allTyped_compile (fun _ => rfl) hs h p hp).disciplined

/-- A loop around a `try` statement with both parts. Some statements stand in the body of the `try`
and some behind it. -/
def guardedLoop (guarded behind : List Stmt) : Program where
  file := ""
  body := [.whileLoop ⟨1, 1⟩ (.bool ⟨1, 1⟩ true) (.block ⟨1, 1⟩
    (.declare ⟨1, 1⟩ ["x"] none ::
      .guarded ⟨2, 1⟩ (.block ⟨2, 1⟩ guarded)
        [⟨⟨3, 1⟩, .ident ⟨3, 1⟩ "Exception", "e", .block ⟨3, 1⟩ []⟩] (some (.block ⟨4, 1⟩ [])) ::
      behind))]

/-- A local of the body. -/
def localOfBody : Stmt := .declare ⟨2, 1⟩ ["y"] (some (.ident ⟨2, 1⟩ "x"))

/-- A result that is not an error is there. -/
theorem exists_of_toBool {ε α : Type} {x : Except ε α} (h : x.toBool = true) : ∃ a, x = .ok a := by
  cases x with
  | error e => cases h
  | ok a => exact ⟨a, rfl⟩

/-- Such loops compile, with a jump behind the statement or in its body. -/
theorem compiles_guardedLoop :
    (compile (guardedLoop [localOfBody] [.breakLoop ⟨5, 1⟩])).toBool = true ∧
      (compile (guardedLoop [.breakLoop ⟨2, 1⟩, localOfBody] [])).toBool = true := by
  decide +kernel

theorem disciplined_guardedLoop : ∃ m,
    compile (guardedLoop [localOfBody] [.breakLoop ⟨5, 1⟩]) = .ok m ∧
      ∃ depth, Disciplined m.main depth := by
  obtain ⟨m, hm⟩ := exists_of_toBool compiles_guardedLoop.1
  exact ⟨m, hm, disciplined_compile (by decide) hm .self⟩

/-! ## Jumps that leave `try` statements -/

/-- What a jump out of a loop does where it leaves `try` statements. Its code always removes the
handlers of the statements that are left. It ends at the height of the loop just in case no local was
declared since the outermost of them was entered: other locals are dropped twice. -/
theorem arrives_iff {scope : Scope} {ctx : Context} {exit : Option Level} {s t : CompilerState}
    {τ : Typing} {L : Level} {l : LoopRecord} {ls : List LoopRecord} {pos : Position}
    (hin : Inside true scope ctx.tries exit s τ L) (hl : s.current.loops = l :: ls)
    (hcount : l.localCount ≤ L.height)
    (hroom : L.height - l.localCount < heightLeaving (leftBy ctx l) L.height)
    (hr : Ran (do
      exitTries ctx l.tryDepth pos.line
      updateFunction (·.discardLocals l.localCount pos.line)) s () t) :
    ∃ X υ M, exit = some X ∧ X.height = l.localCount ∧ At true t.chunk υ M ∧ M.guards = X.guards ∧
      (M.height = X.height ↔ ∀ b ∈ leftBy ctx l, L.height ≤ b.localCount) := by
  obtain ⟨X, υ, M, hX, hland, hat, -, hheight, hguards, -, -⟩ :=
    typed_toLoop hin hl (fun _ => hroom) hr
  refine ⟨X, υ, M, hX, hland.height, hat, hguards, ?_⟩
  rw [← heightLeaving_eq_iff, hheight, hland.height]
  have hle := heightLeaving_le (leftBy ctx l) L.height
  omega

/-- Jumps out of loops that leave `try` statements. Where none of them stands behind a local declared
since the outermost statement it leaves was entered, all prototypes have a sound assignment of
heights and handler counts. At a single jump that condition is exact. -/
theorem jumps_leave_tries (program : Program) :
    (∀ (m : Module) (p : Proto), program.structured (· != .bound) = true →
      compile program = .ok m → m.main.Nested p → ∃ depth, Disciplined p depth) ∧
    ∀ (scope : Scope) (ctx : Context) (exit : Option Level) (s t : CompilerState) (τ : Typing)
      (L : Level) (l : LoopRecord) (ls : List LoopRecord) (pos : Position),
      Inside true scope ctx.tries exit s τ L → s.current.loops = l :: ls →
      l.localCount ≤ L.height →
      L.height - l.localCount < heightLeaving (leftBy ctx l) L.height →
      Ran (do
        exitTries ctx l.tryDepth pos.line
        updateFunction (·.discardLocals l.localCount pos.line)) s () t →
      ∃ X υ M, exit = some X ∧ X.height = l.localCount ∧ At true t.chunk υ M ∧
        M.guards = X.guards ∧
        (M.height = X.height ↔ ∀ b ∈ leftBy ctx l, L.height ≤ b.localCount) :=
  ⟨fun _ p hs h hp => (allTyped_compile (fun _ => rfl) hs h p hp).disciplined,
    fun _ _ _ _ _ _ _ _ _ _ hin hl hcount hroom hr => arrives_iff hin hl hcount hroom hr⟩

/-- A place in the body of a `try` statement, behind a local declared in it, in a loop that begins
behind another local. -/
def boundPlace : CompilerState :=
  ⟨{ FunctionState.start "" with
      scope := .ofList [⟨"x", some 2, false⟩, ⟨"a", some 1, false⟩, ⟨"", some 0, false⟩]
      depth := 2
      loops := [⟨none, [], [], 2, 0⟩] }, []⟩

theorem inside_boundPlace : Inside true .bound [⟨2, 1, none⟩] (some ⟨2, [], []⟩) boundPlace
    ⟨fun _ => ⟨3, [⟨.except, 0⟩], []⟩, fun _ => none⟩ ⟨3, [⟨.except, 0⟩], []⟩ where
  typed := at_empty _
  ready := ⟨by decide, rfl⟩
  height := rfl
  settled x hx := by
    rcases List.mem_cons.1 hx with rfl | hx
    · exact ⟨2, by decide, rfl⟩
    rcases List.mem_cons.1 hx with rfl | hx
    · exact ⟨1, by decide, rfl⟩
    obtain rfl := List.mem_singleton.1 hx
    exact ⟨0, by decide, rfl⟩
  loop l ls hl := by
    obtain ⟨rfl, -⟩ := List.cons.inj hl
    refine ⟨_, rfl, ⟨⟨by decide, rfl⟩, rfl, nofun⟩, Nat.zero_le _, ?_, fun _ => trivial⟩
    exact ⟨by decide, [⟨.except, 0⟩], [], rfl, allExcept_one 0, rfl, rfl, .refl _⟩

theorem jumps_leave_guardedLoop :
    (∃ m, compile (guardedLoop [.breakLoop ⟨2, 1⟩, localOfBody] []) = .ok m ∧
      ∃ depth, Disciplined m.main depth) ∧
    ∃ (t : CompilerState) (X : Level) (υ : Typing) (M : Level),
      Ran (do
        exitTries { topLevel with tries := [⟨2, 1, none⟩] } 0 1
        updateFunction (·.discardLocals 2 1)) boundPlace () t ∧
      X.height = 2 ∧ At true t.chunk υ M ∧ M.guards = X.guards ∧ M.height ≠ X.height := by
  constructor
  · obtain ⟨m, hm⟩ := exists_of_toBool compiles_guardedLoop.2
    exact ⟨m, hm, (jumps_leave_tries _).1 m _ (by decide) hm .self⟩
  · obtain ⟨X, υ, M, ⟨⟩, hheight, hat, hguards, hiff⟩ := (jumps_leave_tries ⟨"", []⟩).2 .bound
      { topLevel with tries := [⟨2, 1, none⟩] } _ boundPlace _ _ _ _ _ ⟨1, 1⟩ inside_boundPlace rfl
      (by decide) (by decide) rfl
    refine ⟨_, _, υ, M, rfl, hheight, hat, hguards, mt hiff.1 ?_⟩
    intro h
    have := h ⟨2, 1, none⟩ (List.mem_singleton.2 rfl)
    exact absurd this (by decide)

end ScriptEngine.Compile
