import ScriptEngine.Proofs.Acceptance
import ScriptEngine.Proofs.Rendering

/-!
# Code touches the variables that names mean

The code of a lexical program does to variables what the program tree says, in the same order and in
every function: an instruction reaches the innermost declaration of its name that is in sight. The
proof goes by induction on the program tree. An `ensure` part that a `break` or `continue` emits
inline is traced at the frame of its `try` statement, so its names mean what they mean there.
-/

namespace ScriptEngine.Compile

open Bytecode Source

/-! ## Induction on the program tree -/

section Induction

variable {outer : List (List Binder)} {σ : Site} {ctx : Context} {c : Setting} {pos : Position}
variable {ts ts' us vs : List Touch}

/-- A statement that declares nothing binds nothing. -/
theorem binders_of_not_declares {st : Stmt} {top : Bool} (h : st.declares = false) :
    st.binders top = [] := by
  cases top with
  | true => rfl
  | false =>
    cases st with
    | importModule pos d =>
      have hbinds : d.items.binds = false := h
      unfold Stmt.binders Import.binders
      cases hitems : d.items with
      | module _ => simp [hitems, ImportItems.binds] at hbinds
      | names names =>
        have hnil : names = [] := by simpa [hitems, ImportItems.binds] using hbinds
        simp [hnil, hitems, bindersOf]
      | all => simp [hitems]
    | declare | function | native | classDef => cases h
    | _ => rfl

/-- A statement that declares nothing leaves the scope as it is. -/
theorem Traces.settled {st : Stmt} {top : Bool} {m : Gen Unit} (h : Traces outer σ σ ts m)
    (hst : st.binders false = []) : Traces outer σ (σ.bind (st.binders top)) ts m := by
  have hnone : st.binders top = [] := by
    cases top with
    | true => rfl
    | false => exact hst
  rw [hnone]
  exact h

/-- A statement does not declare something and declare nothing. -/
theorem undeclared {st : Stmt} (h : (!st.declares) = true) {P : Prop} (hd : st.declares = true) :
    P := by
  simp [hd] at h

/-- A statement that declares nothing leaves the scope as it was. -/
theorem Traces.unbind {st : Stmt} {top : Bool} {m : Gen Unit}
    (h : Traces outer σ (σ.bind (st.binders top)) ts m) (hst : (!st.declares) = true) :
    Traces outer σ σ ts m := by
  rwa [binders_of_not_declares (by simpa using hst)] at h

/-- A declaration. -/
theorem Traces.declared {st : Stmt} {top : Bool} {m : Gen Unit} {bs : List Binder}
    (h : Traces outer σ (σ.declare bs) ts m) (htop : top = σ.top)
    (hst : st.binders false = bs) : Traces outer σ (σ.bind (st.binders top)) ts m := by
  obtain rfl := htop
  have hbs : st.binders σ.top = if σ.top then [] else bs := by
    rw [← hst]
    cases σ.top <;> rfl
  rw [hbs]
  exact h

/-- Items collected in a list, or pushed one after another. -/
theorem Traces.items {items : List Expr} {cause : Cause} {limit : Nat}
    {collected counted : Gen Unit} (hspread : Traces outer σ σ ts (compileSpread ctx items))
    (hitems : Traces outer σ σ ts (compileExprs ctx items))
    (hcollected : Traces outer σ σ [] collected) (hcounted : Traces outer σ σ [] counted) :
    Traces outer σ σ ts (if hasSpread items = true then do
        Compile.emitListStart items
        compileSpread ctx items
        collected
      else do
        if items.length > limit then Compile.fail cause pos
        compileExprs ctx items
        counted) :=
  .ite (fun _ => .after (.emitListStart items) fun _ => hspread.before fun _ => hcollected)
    fun _ => .unless (hitems.before fun _ => hcounted)

/-- A call of something that is no method. -/
theorem traces_call {callee : Expr} {arguments : List Expr}
    (hcallee : Traces outer σ σ ts (compileExpr ctx callee))
    (hspread : Traces outer σ σ us (compileSpread ctx arguments))
    (hitems : Traces outer σ σ us (compileExprs ctx arguments))
    (hmethod : ∀ pos object name, callee = .member pos object name → False) :
    Traces outer σ σ (ts ++ us) (compileExpr ctx (.call pos callee arguments)) := by
  rw [compileExpr]
  · exact hcallee.bind fun _ =>
      .items hspread hitems (.emit pos.line rfl) (.emit pos.line (touches_call _))
  · exact hmethod

/-- A `try` statement has except clauses, an `ensure` part, or both. -/
theorem traces_guarded {body : Stmt} {clauses : List ExceptClause} {ensure : Option Stmt}
    (ha : Agrees outer σ ctx c) (hany : (!clauses.isEmpty || ensure.isSome) = true)
    (hb : ∀ ctx', Agrees outer σ ctx' (c.guarded us) → Traces outer σ σ ts (compileStmt ctx' body))
    (hc : ∀ ctx' x y, Agrees outer σ.handling ctx' ((c.bind handlerBinders).guarded us) →
      x.toNat = σ.frame.length → y.toNat = σ.frame.length + 1 →
      Traces outer σ.handling σ.handling ts' (compileClauses ctx' x y clauses))
    (hnil : clauses = [] → ts' = [])
    (hi : Optionally (Inlines outer σ.loops σ.frame) us (ensure.map (compileStmt ctx)))
    (he : ∀ ctx', Agrees outer σ.handling ctx' ((c.bind handlerBinders).guarded []) →
      Optionally (Traces outer σ.handling σ.handling) vs (ensure.map (compileStmt ctx'))) :
    Traces outer σ σ (ts ++ (ts' ++ vs)) (compileStmt ctx (.guarded pos body clauses ensure)) := by
  have hpatched : ∀ ctx' x y, Agrees outer σ.handling ctx' ((c.bind handlerBinders).guarded us) →
      x.toNat = σ.frame.length → y.toNat = σ.frame.length + 1 →
      Traces outer σ.handling σ.handling ts' (do
        let exits ← compileClauses ctx' x y clauses
        patchJumps exits ⟨0, 0⟩) := fun ctx' x y ha' hx hy =>
    (hc ctx' x y ha' hx hy).before fun exits => .patchJumps exits ⟨0, 0⟩
  cases ensure with
  | none =>
    obtain rfl : us = [] := hi
    obtain rfl : vs = [] := he _ ((ha.guarded 0 none rfl).inner.bind handlerBinders)
    rw [List.append_nil]
    cases clauses with
    | nil => cases hany
    | cons clause rest => exact .tryClauses ha hb hpatched
  | some s =>
    cases clauses with
    | nil =>
      obtain rfl := hnil rfl
      exact .tryEnsure ha hb hi he
    | cons clause rest => exact .tryBoth ha hb hi hpatched he

/-- A local function is in sight of its own body. -/
theorem traces_functionStmt {name : String} {params : List Parameter} {vararg : Option String}
    {body : List Stmt} {pos' : Position} (hp : σ.pending = []) (hname : isOrdinary name = true)
    (hsight : c.sight = ⟨σ.frame, outer⟩)
    (hfun : ∀ σ' : Site, Traces outer σ' σ' [functionTouches false params (Stmt.touchesAll
        (.function ((σ'.sight outer).body .hidden params vararg) false) false body)]
      (emitFunction ctx (signatureOf .function name params vararg body pos)
        fun ctx => compileStmts ctx body)) :
    Traces outer σ (σ.declare [.named name])
      ((Stmt.function pos' ⟨name, params, vararg, body, pos⟩).touches c σ.top)
      (compileStmt ctx (.function pos' ⟨name, params, vararg, body, pos⟩)) := by
  have hbody : (Stmt.function pos' ⟨name, params, vararg, body, pos⟩).touches c σ.top =
      [functionTouches false params (Stmt.touchesAll (.function
        (((σ.declare [.named name]).sight outer).body .hidden params vararg) false) false body)] := by
    rw [Site.sight_declare, show σ.sight outer = c.sight from hsight.symm]
    rfl
  rw [hbody]
  refine .withTop ?_
  cases htop : σ.top with
  | true =>
    have hdefine : Traces outer σ (σ.declare [.named name]) [] (Compile.defineVariable name pos) :=
      .defineVariable hname hp pos
    have hdeclare : σ.declare [.named name] = σ := by
      rw [Site.declare, htop]
      rfl
    rw [hdeclare] at hdefine ⊢
    exact (hfun σ).before fun _ => hdefine
  | false =>
    have hdeclare : σ.declare [.named name] = σ.bind [.named name] := by
      rw [Site.declare, htop]
      rfl
    rw [hdeclare]
    exact .after (.defineNamed hname hp) fun _ => hfun _

mutual

/-- Expressions touch the variables that the names in them mean. -/
theorem traces_compileExpr (ctx : Context) (e : Expr) (h : e.lexical = true)
    (outer : List (List Binder)) (frame : List Binder) :
    Evaluates outer frame (e.touches ⟨frame, outer⟩) (compileExpr ctx e) := by
  rintro σ rfl
  match e with
  | .number pos n =>
    rw [compileExpr, Expr.touches]
    exact .emitConstant _ pos
  | .string pos s =>
    rw [compileExpr, Expr.touches]
    exact .emitConstant _ pos
  | .bool pos b =>
    rw [compileExpr, Expr.touches]
    cases b <;> exact .emit pos.line rfl
  | .null pos =>
    rw [compileExpr, Expr.touches]
    exact .emit pos.line rfl
  | .ident pos name =>
    rw [Expr.lexical] at h
    rw [compileExpr, Expr.touches]
    exact .getNamed h pos
  | .receiver pos =>
    rw [compileExpr, Expr.touches]
    exact .ite (fun _ => .fail _ _) fun _ => .getReceiver pos
  | .binary pos op left right =>
    rw [Expr.lexical, Bool.and_eq_true] at h
    rw [compileExpr, Expr.touches]
    have hl := (traces_compileExpr ctx left h.1 outer σ.frame).here
    have hr := (traces_compileExpr ctx right h.2 outer σ.frame).here
    exact hl.bind fun _ => hr.before fun _ => .emitBinary op pos.line
  | .unary pos op operand =>
    rw [Expr.lexical] at h
    rw [compileExpr, Expr.touches]
    have ho := (traces_compileExpr ctx operand h outer σ.frame).here
    exact ho.before fun _ => .emitUnary op pos
  | .conj pos left right =>
    rw [Expr.lexical, Bool.and_eq_true] at h
    rw [compileExpr, Expr.touches]
    have hl := (traces_compileExpr ctx left h.1 outer σ.frame).here
    have hr := (traces_compileExpr ctx right h.2 outer σ.frame).here
    exact hl.bind fun _ => .after (.emit pos.line rfl) fun _ =>
        .after (.emitJump pos.line rfl) fun _ =>
      .after (.emit pos.line rfl) fun _ => hr.before fun _ => .patchJump _ pos
  | .disj pos left right =>
    rw [Expr.lexical, Bool.and_eq_true] at h
    rw [compileExpr, Expr.touches]
    have hl := (traces_compileExpr ctx left h.1 outer σ.frame).here
    have hr := (traces_compileExpr ctx right h.2 outer σ.frame).here
    exact hl.bind fun _ => .after (.emit pos.line rfl) fun _ =>
        .after (.emitJump pos.line rfl) fun _ =>
      .after (.emit pos.line rfl) fun _ => hr.before fun _ => .patchJump _ pos
  | .conditional pos condition thenExpr elseExpr =>
    rw [Expr.lexical, Bool.and_eq_true, Bool.and_eq_true] at h
    rw [compileExpr, Expr.touches]
    have hc := (traces_compileExpr ctx condition h.1.1 outer σ.frame).here
    have ht := (traces_compileExpr ctx thenExpr h.1.2 outer σ.frame).here
    have he := (traces_compileExpr ctx elseExpr h.2 outer σ.frame).here
    exact .emitBranch hc ht he
  | .assign pos target value =>
    rw [Expr.lexical, Bool.and_eq_true] at h
    have hvalue := (traces_compileExpr ctx value h.2 outer σ.frame).here
    cases target with
    | ident pos name =>
      have hname : isOrdinary name = true := by
        have htarget := h.1
        rwa [Expr.lexical] at htarget
      rw [compileExpr, Expr.touches]
      exact hvalue.bind fun _ => .setNamed hname pos
    | member pos object name =>
      have hobject := h.1
      rw [Expr.lexical] at hobject
      have hobject := (traces_compileExpr ctx object hobject outer σ.frame).here
      rw [compileExpr, Expr.touches, Expr.touches]
      · exact hobject.bind fun _ => hvalue.before fun _ => .after (.addName _ pos) fun _ =>
          .emit pos.line rfl
      · nofun
    | index pos object index =>
      have hparts := h.1
      rw [Expr.lexical, Bool.and_eq_true] at hparts
      have hobject := (traces_compileExpr ctx object hparts.1 outer σ.frame).here
      have hindex := (traces_compileExpr ctx index hparts.2 outer σ.frame).here
      rw [compileExpr, Expr.touches, Expr.touches, List.append_assoc]
      · exact hobject.bind fun _ => hindex.bind fun _ => hvalue.before fun _ => .emit pos.line rfl
      · nofun
    | _ =>
      simp only [compileExpr]
      exact .fail _ _
  | .compound pos op target value =>
    rw [Expr.lexical, Bool.and_eq_true] at h
    have hvalue := (traces_compileExpr ctx value h.2 outer σ.frame).here
    cases target with
    | ident pos name =>
      have hname : isOrdinary name = true := by
        have htarget := h.1
        rwa [Expr.lexical] at htarget
      rw [compileExpr, Expr.touches]
      exact .bind (.getNamed hname pos) fun _ => hvalue.bind fun _ =>
        .after (.emitBinary op pos.line) fun _ => .setNamed hname pos
    | member pos object name =>
      have hobject := h.1
      rw [Expr.lexical] at hobject
      have hobject := (traces_compileExpr ctx object hobject outer σ.frame).here
      rw [compileExpr, Expr.touches, Expr.touches]
      · exact .after (.addName _ pos) fun _ => hobject.bind fun _ =>
          .after (.emit pos.line rfl) fun _ =>
          .after (.emit pos.line rfl) fun _ => hvalue.before fun _ =>
          .after (.emitBinary op pos.line) fun _ => .emit pos.line rfl
      · nofun
    | index pos object index =>
      have hparts := h.1
      rw [Expr.lexical, Bool.and_eq_true] at hparts
      have hobject := (traces_compileExpr ctx object hparts.1 outer σ.frame).here
      have hindex := (traces_compileExpr ctx index hparts.2 outer σ.frame).here
      rw [compileExpr, Expr.touches, Expr.touches, List.append_assoc]
      · exact hobject.bind fun _ => hindex.bind fun _ => .after (.emit pos.line rfl) fun _ =>
          .after (.emit pos.line rfl) fun _ => hvalue.before fun _ =>
          .after (.emitBinary op pos.line) fun _ => .emit pos.line rfl
      · nofun
    | _ =>
      simp only [compileExpr]
      exact .fail _ _
  | .call pos callee arguments =>
    rw [Expr.lexical, Bool.and_eq_true] at h
    have hspread := (traces_compileSpread ctx arguments h.2 outer σ.frame).here
    have hitems := (traces_compileExprs ctx arguments h.2 outer σ.frame).here
    have hcallee := (traces_compileExpr ctx callee h.1 outer σ.frame).here
    rw [Expr.touches]
    cases callee with
    | member mpos object name =>
      have hobject := h.1
      rw [Expr.lexical] at hobject
      have hobject := (traces_compileExpr ctx object hobject outer σ.frame).here
      rw [compileExpr, Expr.touches]
      exact hobject.bind fun _ => .items hspread hitems
        (.after (.addName _ pos) fun _ => .emit pos.line rfl)
        (.after (.addName _ pos) fun i => .emit pos.line (touches_invoke _ i))
    | _ => exact traces_call hcallee hspread hitems nofun
  | .member pos object name =>
    rw [Expr.lexical] at h
    rw [compileExpr, Expr.touches]
    have hobject := (traces_compileExpr ctx object h outer σ.frame).here
    exact hobject.before fun _ => .after (.addName _ pos) fun _ => .emit pos.line rfl
  | .index pos object index =>
    rw [Expr.lexical, Bool.and_eq_true] at h
    rw [compileExpr, Expr.touches]
    have hobject := (traces_compileExpr ctx object h.1 outer σ.frame).here
    have hindex := (traces_compileExpr ctx index h.2 outer σ.frame).here
    exact hobject.bind fun _ => hindex.before fun _ => .emit pos.line rfl
  | .superCall pos method arguments =>
    rw [Expr.lexical] at h
    rw [compileExpr, Expr.touches]
    have hspread := (traces_compileSpread ctx arguments h outer σ.frame).here
    have hitems := (traces_compileExprs ctx arguments h outer σ.frame).here
    refine .after (.superName ctx method pos) fun name => .bind (.getReceiver pos) fun _ => .ite
      (fun _ => .after (.emitListStart arguments) fun _ => hspread.bind fun _ => ?_)
      fun _ => .unless (hitems.bind fun _ => ?_)
    · exact .before (.getSuperclass pos) fun _ => .after (.addName _ pos) fun _ =>
        .emit pos.line rfl
    · exact .before (.getSuperclass pos) fun _ => .after (.addName _ pos) fun _ =>
        .emit pos.line rfl
  | .superMember pos method =>
    rw [compileExpr, Expr.touches]
    exact .after (.superName ctx method pos) fun name => .bind (.getReceiver pos) fun _ =>
      .unless (.before (.getSuperclass pos) fun _ => .after (.addName _ pos) fun _ =>
      .emit pos.line rfl)
  | .list pos items =>
    rw [Expr.lexical] at h
    rw [compileExpr, Expr.touches]
    have hspread := (traces_compileSpread ctx items h outer σ.frame).here
    have hitems := (traces_compileExprs ctx items h outer σ.frame).here
    exact .ite (fun _ => .after (.emitListStart items) fun _ => hspread)
      fun _ => .unless (hitems.before fun _ => .emit pos.line rfl)
  | .tuple pos items =>
    rw [Expr.lexical] at h
    rw [compileExpr, Expr.touches]
    have hspread := (traces_compileSpread ctx items h outer σ.frame).here
    have hitems := (traces_compileExprs ctx items h outer σ.frame).here
    exact .items hspread hitems (.emit pos.line rfl) (.emit pos.line rfl)
  | .table pos entries =>
    rw [Expr.lexical] at h
    rw [compileExpr, Expr.touches]
    have hentries := (traces_compileEntries ctx entries h outer σ.frame).here
    exact .unless (hentries.before fun _ => .emit pos.line rfl)
  | .function pos ⟨name, params, vararg, body, declPos⟩ =>
    rw [Expr.lexical, Bool.and_eq_true] at h
    rw [compileExpr, Expr.touches]
    obtain ⟨bs, hbody⟩ := traces_compileStmts _ body h.2
      (agrees_body (signatureOf .function (literalName name pos.line) params vararg body declPos)) rfl
    exact .emitFunction names_function h.1 hbody
  | .spread pos inner =>
    rw [compileExpr]
    exact .fail _ _
  | .yield pos value =>
    rw [compileExpr]
    refine .unless ?_
    cases value with
    | none =>
      rw [Expr.touches]
      exact .after (.emit pos.line rfl) fun _ => .emit pos.line rfl
    | some value =>
      rw [Expr.lexical] at h
      rw [Expr.touches]
      exact (traces_compileExpr ctx value h outer σ.frame).here.before fun _ => .emit pos.line rfl

/-- So do expressions one after another. -/
theorem traces_compileExprs (ctx : Context) (es : List Expr) (h : Expr.lexicalAll es = true)
    (outer : List (List Binder)) (frame : List Binder) :
    Evaluates outer frame (Expr.touchesAll ⟨frame, outer⟩ es) (compileExprs ctx es) := by
  rintro σ rfl
  match es with
  | [] =>
    rw [compileExprs, Expr.touchesAll]
    exact .pure _
  | e :: rest =>
    rw [Expr.lexicalAll, Bool.and_eq_true] at h
    rw [compileExprs, Expr.touchesAll]
    have hrest := (traces_compileExprs ctx rest h.2 outer σ.frame).here
    exact (traces_compileExpr ctx e h.1 outer σ.frame).here.bind fun _ => hrest

/-- So do items added to a list. -/
theorem traces_compileSpread (ctx : Context) (es : List Expr) (h : Expr.lexicalAll es = true)
    (outer : List (List Binder)) (frame : List Binder) :
    Evaluates outer frame (Expr.touchesAll ⟨frame, outer⟩ es) (compileSpread ctx es) := by
  rintro σ rfl
  match es with
  | [] =>
    rw [compileSpread, Expr.touchesAll]
    exact .pure _
  | e :: rest =>
    rw [Expr.lexicalAll, Bool.and_eq_true] at h
    have hrest := (traces_compileSpread ctx rest h.2 outer σ.frame).here
    have he := (traces_compileExpr ctx e h.1 outer σ.frame).here
    rw [Expr.touchesAll]
    cases e with
    | spread pos inner =>
      have hinner := h.1
      rw [Expr.lexical] at hinner
      have hinner := (traces_compileExpr ctx inner hinner outer σ.frame).here
      rw [compileSpread, Expr.touches]
      exact hinner.bind fun _ => .after (.emit pos.line rfl) fun _ => hrest
    | _ =>
      rw [compileSpread]
      · exact he.bind fun _ => .after (.emit _ rfl) fun _ => hrest
      · nofun

/-- So do the entries of a table. -/
theorem traces_compileEntries (ctx : Context) (entries : List (Expr × Expr))
    (h : Expr.lexicalEntries entries = true) (outer : List (List Binder)) (frame : List Binder) :
    Evaluates outer frame (Expr.touchesEntries ⟨frame, outer⟩ entries)
      (compileEntries ctx entries) := by
  rintro σ rfl
  match entries with
  | [] =>
    rw [compileEntries, Expr.touchesEntries]
    exact .pure _
  | (k, v) :: rest =>
    rw [Expr.lexicalEntries, Bool.and_eq_true, Bool.and_eq_true] at h
    rw [compileEntries, Expr.touchesEntries]
    have hkey := (traces_compileExpr ctx k h.1.1 outer σ.frame).here
    have hvalue := (traces_compileExpr ctx v h.1.2 outer σ.frame).here
    have hrest := (traces_compileEntries ctx rest h.2 outer σ.frame).here
    exact hkey.bind fun _ => hvalue.bind fun _ => hrest

/-- Statements touch the variables that the names in them mean, and bring binders into sight. -/
theorem traces_compileStmt (ctx : Context) (st : Stmt) (h : st.lexical = true)
    {outer : List (List Binder)} {σ : Site} {c : Setting} (ha : Agrees outer σ ctx c) (top : Bool)
    (htop : st.declares = true → top = σ.top) :
    Traces outer σ (σ.bind (st.binders top)) (st.touches c top) (compileStmt ctx st) := by
  have hp := ha.settled
  have hsight : c.sight = ⟨σ.frame, outer⟩ := ha.sight
  match st with
  | .expression pos e =>
    have he := traces_compileExpr ctx e h outer σ.frame
    rw [← hsight] at he
    exact .settled (he.here.before fun _ => .emit pos.line rfl) rfl
  | .declare pos names none =>
    obtain ⟨hnames, -⟩ := Bool.and_eq_true_iff.1 h
    exact .declared (.emitDeclare hnames hp rfl) (htop rfl) rfl
  | .declare pos names (some e) =>
    obtain ⟨hnames, he⟩ := Bool.and_eq_true_iff.1 h
    have he := traces_compileExpr ctx e he outer σ.frame
    rw [← hsight] at he
    have hinitial : Optionally (Evaluates outer σ.frame) _ (some (compileExpr ctx e)) := he
    exact .declared (.emitDeclare hnames hp hinitial) (htop rfl) rfl
  | .block pos body =>
    obtain ⟨bs, hbody⟩ := traces_compileStmts ctx body h ha.inner rfl
    exact .settled (.inScope pos.line hp bs hbody) rfl
  | .branch pos condition t none =>
    obtain ⟨h, -⟩ := Bool.and_eq_true_iff.1 h
    obtain ⟨h, ht⟩ := Bool.and_eq_true_iff.1 h
    obtain ⟨hc, hd⟩ := Bool.and_eq_true_iff.1 h
    have hc := traces_compileExpr ctx condition hc outer σ.frame
    rw [← hsight] at hc
    have ht := (traces_compileStmt ctx t ht ha false (undeclared hd)).unbind hd
    have hnone : Optionally (Traces outer σ σ) [] none := rfl
    exact .settled (.emitBranch hc.here ht hnone) rfl
  | .branch pos condition t (some e) =>
    obtain ⟨h, he⟩ := Bool.and_eq_true_iff.1 h
    obtain ⟨h, ht⟩ := Bool.and_eq_true_iff.1 h
    obtain ⟨hc, hd⟩ := Bool.and_eq_true_iff.1 h
    obtain ⟨hd', he⟩ := Bool.and_eq_true_iff.1 he
    have hc := traces_compileExpr ctx condition hc outer σ.frame
    rw [← hsight] at hc
    have ht := (traces_compileStmt ctx t ht ha false (undeclared hd)).unbind hd
    have he := (traces_compileStmt ctx e he ha false (undeclared hd')).unbind hd'
    have hsome : Optionally (Traces outer σ σ) _ (some (compileStmt ctx e)) := he
    exact .settled (.emitBranch hc.here ht hsome) rfl
  | .whileLoop pos condition body =>
    obtain ⟨h, hb⟩ := Bool.and_eq_true_iff.1 h
    obtain ⟨hc, hd⟩ := Bool.and_eq_true_iff.1 h
    have hc := traces_compileExpr ctx condition hc outer σ.frame
    rw [← hsight] at hc
    have hb := (traces_compileStmt ctx body hb ha.loop false (undeclared hd)).unbind hd
    exact .settled (.emitWhile hc hb) rfl
  | .forLoop pos initial condition step body =>
    rw [Stmt.lexical_forLoop] at h
    obtain ⟨h, hb⟩ := Bool.and_eq_true_iff.1 h
    obtain ⟨h, hd⟩ := Bool.and_eq_true_iff.1 h
    obtain ⟨h, hs⟩ := Bool.and_eq_true_iff.1 h
    obtain ⟨hi, hc⟩ := Bool.and_eq_true_iff.1 h
    rw [compileStmt_forLoop, Stmt.touches_forLoop]
    have hinside := ha.inner.bind ((initial.map (Stmt.binders false)).getD [])
    have hsight' : (c.bind ((initial.map (Stmt.binders false)).getD [])).sight = ⟨_, outer⟩ :=
      hinside.sight
    have hb := (traces_compileStmt ctx body hb hinside.loop false (undeclared hd)).unbind hd
    refine .settled (.emitFor hp ?_ ?_ hb ?_) rfl
    · cases initial with
      | none => exact .pure _
      | some s => exact traces_compileStmt ctx s hi ha.inner false fun _ => rfl
    · rw [hsight']
      cases condition with
      | none => rfl
      | some e => exact traces_compileExpr ctx e hc outer _
    · rw [hsight']
      cases step with
      | none => rfl
      | some e => exact traces_compileExpr ctx e hs outer _
  | .forEach pos names iterable body =>
    obtain ⟨h, hb⟩ := Bool.and_eq_true_iff.1 h
    obtain ⟨h, hd⟩ := Bool.and_eq_true_iff.1 h
    obtain ⟨hnames, hi⟩ := Bool.and_eq_true_iff.1 h
    have hi := traces_compileExpr ctx iterable hi outer σ.frame
    rw [← hsight] at hi
    have hround := ((ha.inner.bind iterationBinders).loop.inner.bind (bindersOf names))
    have hb := (traces_compileStmt ctx body hb hround false (undeclared hd)).unbind hd
    exact .settled (.emitForEach hp hnames hi hb) rfl
  | .breakLoop pos => exact .settled (.emitBreak ha.guards hp pos) rfl
  | .continueLoop pos => exact .settled (.emitContinue ha.guards hp pos) rfl
  | .raise pos e =>
    have he := traces_compileExpr ctx e h outer σ.frame
    rw [← hsight] at he
    exact .settled (he.here.before fun _ => .emit pos.line rfl) rfl
  | .returnValue pos none =>
    have hnone : Optionally (Traces outer σ σ) [] none := rfl
    have hreturn : Traces outer σ σ _ (compileStmt ctx (.returnValue pos none)) :=
      .emitReturnStmt hnone
    rw [← ha.constructs] at hreturn
    exact .settled hreturn rfl
  | .returnValue pos (some e) =>
    have he := traces_compileExpr ctx e h outer σ.frame
    rw [← hsight] at he
    have hsome : Optionally (Traces outer σ σ) _ (some (compileExpr ctx e)) := he.here
    exact .settled (.emitReturnStmt hsome) rfl
  | .guarded pos body clauses ensure =>
    rw [Stmt.lexical_guarded] at h
    obtain ⟨h, he⟩ := Bool.and_eq_true_iff.1 h
    obtain ⟨h, hc⟩ := Bool.and_eq_true_iff.1 h
    obtain ⟨h, hb⟩ := Bool.and_eq_true_iff.1 h
    obtain ⟨hany, hd⟩ := Bool.and_eq_true_iff.1 h
    rw [Stmt.touches_guarded]
    have hi : Optionally (Inlines outer σ.loops σ.frame) ((ensure.map (Stmt.touches c false)).getD [])
        (ensure.map (compileStmt ctx)) := by
      cases ensure with
      | none => rfl
      | some s =>
        obtain ⟨hd, he⟩ := Bool.and_eq_true_iff.1 he
        intro σ' hp' hf' hl'
        exact (traces_compileStmt ctx s he (ha.elsewhere hp' hf' hl') false (undeclared hd)).unbind hd
    refine .settled (traces_guarded ha hany ?_ ?_ ?_ hi ?_) rfl
    · exact fun ctx' ha' => (traces_compileStmt ctx' body hb ha' false (undeclared hd)).unbind hd
    · rw [hsight]
      exact fun ctx' x y ha' hx hy => traces_compileClauses ctx' clauses hc ha' hx hy
    · rintro rfl
      rfl
    · intro ctx' ha'
      cases ensure with
      | none => rfl
      | some s =>
        obtain ⟨hd, he⟩ := Bool.and_eq_true_iff.1 he
        exact (traces_compileStmt ctx' s he ha' false (undeclared hd)).unbind hd
  | .withResource pos name value body =>
    obtain ⟨h, hb⟩ := Bool.and_eq_true_iff.1 h
    obtain ⟨h, hd⟩ := Bool.and_eq_true_iff.1 h
    obtain ⟨hname, hv⟩ := Bool.and_eq_true_iff.1 h
    have hin := ha.inner.bind [.named name]
    have hsight' : (c.bind [.named name]).sight = ⟨_, outer⟩ := hin.sight
    have hv : ∀ ctx' : Context, Evaluates outer (σ.inner.bind [.named name]).frame
        (value.touches (c.bind [.named name]).sight) (compileExpr ctx' value) := by
      intro ctx'
      rw [hsight']
      exact traces_compileExpr ctx' value hv outer _
    exact .settled (.emitWith ha hname hv fun ctx' ha' =>
      (traces_compileStmt ctx' body hb ha' false (undeclared hd)).unbind hd) rfl
  | .function _ ⟨name, params, vararg, body, pos⟩ =>
    obtain ⟨h, hbody⟩ := Bool.and_eq_true_iff.1 h
    obtain ⟨hname, hsig⟩ := Bool.and_eq_true_iff.1 h
    obtain rfl := htop rfl
    have hfun : ∀ σ' : Site, Traces outer σ' σ' [functionTouches false params (Stmt.touchesAll
        (.function ((σ'.sight outer).body .hidden params vararg) false) false body)]
        (emitFunction ctx (signatureOf .function name params vararg body pos)
          fun ctx => compileStmts ctx body) := by
      intro σ'
      obtain ⟨bs, hbody⟩ := traces_compileStmts _ body hbody
        (agrees_body (signatureOf .function name params vararg body pos)) rfl
      exact .emitFunction names_function hsig hbody
    exact .declared (traces_functionStmt hp hname hsight hfun) rfl rfl
  | .native pos decl =>
    refine .declared (.after (.nativeConstant decl) fun _ => .after (.emit pos.line rfl) fun _ =>
      .defineVariable h hp decl.pos) (htop rfl) rfl
  | .classDef pos name superclass methods =>
    rw [Stmt.lexical_classDef] at h
    obtain ⟨h, hmethods⟩ := Bool.and_eq_true_iff.1 h
    obtain ⟨hname, hsuper⟩ := Bool.and_eq_true_iff.1 h
    obtain rfl := htop rfl
    rw [compileStmt_classDef, Stmt.touches_classDef, ha.sight, ← Site.sight_declare]
    have hmethods := traces_compileMethods ctx name methods hmethods outer
    refine .declared (.emitClass hname hp ?_ (hmethods _)) rfl rfl
    cases superclass with
    | none => exact fun _ _ => .emit pos.line rfl
    | some e => exact traces_compileExpr ctx e hsuper outer _
  | .importModule pos decl =>
    have himport : Traces outer σ (σ.declare decl.binders) [] (emitImport pos decl) :=
      .emitImport h hp
    cases hbinds : decl.items.binds with
    | true => exact .declared himport (htop hbinds) rfl
    | false =>
      have hnone : (Stmt.importModule pos decl).binders false = [] := binders_of_not_declares hbinds
      have hbinders : decl.binders = [] := hnone
      rw [hbinders, Site.declare_nil] at himport
      exact .settled himport hnone

/-- Statements one after another do. -/
theorem traces_compileStmts (ctx : Context) (body : List Stmt) (h : Stmt.lexicalAll body = true)
    {outer : List (List Binder)} {σ : Site} {c : Setting} {top : Bool} (ha : Agrees outer σ ctx c)
    (htop : top = σ.top) :
    ∃ bs, Traces outer σ (σ.bind bs) (Stmt.touchesAll c top body) (compileStmts ctx body) := by
  match body with
  | [] =>
    rw [compileStmts, Stmt.touchesAll]
    exact ⟨[], .pure _⟩
  | st :: rest =>
    rw [Stmt.lexicalAll, Bool.and_eq_true] at h
    rw [compileStmts, Stmt.touchesAll]
    have hst := traces_compileStmt ctx st h.1 ha top fun _ => htop
    obtain ⟨bs, hrest⟩ := traces_compileStmts ctx rest h.2 (ha.bind (st.binders top)) htop
    rw [Site.bind_bind] at hrest
    exact ⟨_, hst.bind fun _ => hrest⟩

/-- So do the clauses of a `try` statement. -/
theorem traces_compileClauses (ctx : Context) (clauses : List ExceptClause)
    (h : ExceptClause.lexicalAll clauses = true) {outer : List (List Binder)} {σ : Site}
    {c : Setting} (ha : Agrees outer σ ctx c) {x y : UInt16} {slot : Nat} (hx : x.toNat = slot)
    (hy : y.toNat = slot + 1) :
    Traces outer σ σ (ExceptClause.touchesAll c slot clauses) (compileClauses ctx x y clauses) := by
  match clauses with
  | [] => exact .pure _
  | ⟨pos, exceptionClass, binder, body⟩ :: rest =>
    obtain ⟨h, hrest⟩ := Bool.and_eq_true_iff.1 h
    obtain ⟨h, hb⟩ := Bool.and_eq_true_iff.1 h
    obtain ⟨h, hd⟩ := Bool.and_eq_true_iff.1 h
    obtain ⟨hbinder, hc⟩ := Bool.and_eq_true_iff.1 h
    have hsight : c.sight = ⟨σ.frame, outer⟩ := ha.sight
    have hc := traces_compileExpr ctx exceptionClass hc outer σ.frame
    rw [← hsight] at hc
    have hb := (traces_compileStmt ctx body hb (ha.inner.bind [.named binder]) false
      (undeclared hd)).unbind hd
    have hrest := traces_compileClauses ctx rest hrest ha hx hy
    have hclause : ∀ hasNext, Traces outer σ σ _
        (emitClause pos x y binder (compileExpr ctx exceptionClass) (compileStmt ctx body) hasNext) :=
      .emitClause ha.settled hbinder hc hb
    rw [hx, hy] at hclause
    have hall := fun hasNext => (hclause hasNext).bind fun exit => hrest.before fun exits =>
      .pure (exit.toList ++ exits)
    simp only [List.append_assoc] at hall
    exact hall _

/-- So do the methods of a class. -/
theorem traces_compileMethods (ctx : Context) (className : String) (methods : List Method)
    (h : Method.lexicalAll methods = true) (outer : List (List Binder)) (frame : List Binder) :
    Evaluates outer frame (Method.touchesAll ⟨frame, outer⟩ methods)
      (compileMethods ctx className methods) := by
  rintro σ rfl
  match methods with
  | [] => exact .pure _
  | .function ⟨name, params, vararg, body, pos⟩ :: rest =>
    obtain ⟨h, hrest⟩ := Bool.and_eq_true_iff.1 h
    obtain ⟨hsig, hbody⟩ := Bool.and_eq_true_iff.1 h
    have hrest := (traces_compileMethods ctx className rest hrest outer σ.frame).here
    obtain ⟨bs, hbody⟩ := traces_compileStmts _ body hbody
      (agrees_body (signatureOf (if name == "construct" then .constructor else .method)
        (className ++ "." ++ name) params vararg body pos)) rfl
    have hkind : ((if name == "construct" then FunctionKind.constructor else .method) ==
        .constructor) = (name == "construct") := by
      cases name == "construct" <;> rfl
    have hfun : Traces outer σ σ _ (emitFunction { ctx with method := some name }
        (signatureOf (if name == "construct" then .constructor else .method)
          (className ++ "." ++ name) params vararg body pos) fun ctx => compileStmts ctx body) :=
      .emitFunction (names_method name) hsig hbody
    simp only [signatureOf, hkind] at hfun
    exact hfun.bind fun _ => .after (.addName name pos) fun _ =>
        .after (.emit pos.line rfl) fun _ =>
      hrest
  | .native decl :: rest =>
    have hrest := (traces_compileMethods ctx className rest h outer σ.frame).here
    exact .after (.nativeConstant decl) fun _ => .after (.emit decl.pos.line rfl) fun _ => hrest

end

end Induction

/-! ## Programs -/

/-- The beginning of a script. -/
def Site.script : Site := ⟨[], [.hidden], [], []⟩

theorem sited_start : Sited [] Site.script ⟨.start "", []⟩ where
  locals := ⟨_, rfl, .cons ⟨names_function, rfl⟩ .nil⟩
  depth := rfl
  loops := rfl
  slots := (by decide : 1 ≤ FunctionState.maxLocals)
  indices := Nat.zero_le _
  distinct := List.nodup_nil
  pool := Nat.zero_le _
  enclosing := .nil

theorem agrees_topLevel :
    Agrees [] Site.script topLevel (.function ⟨[.hidden], []⟩ false) where
  settled := rfl
  sight := rfl
  constructs := rfl
  guards := .all nofun

/-- The top-level code of a lexical program does to variables what the program says. -/
theorem rendered_main {program : Program} {m : Module} (h : compile program = .ok m)
    (hl : program.lexical = true) :
    Touch.RenderedAll [[]] m.main.chunk.constants m.main.chunk.touching program.touches := by
  obtain ⟨s, hrun, -, -, hchunk⟩ := ran_compile h
  obtain ⟨bs, htraces⟩ := traces_compileStmts topLevel program.body hl agrees_topLevel rfl
  obtain ⟨-, hmoves⟩ := htraces sited_start hrun
  have hcode := hmoves.rendered [] rfl
  obtain ⟨-, hnone⟩ := conforming_main hrun
  unfold CompilerState.Rendered chainOf at hcode
  rw [hnone, List.forall₂_nil_left_iff.1 hmoves.enclosing] at hcode
  have htouching : m.main.chunk.touching = s.chunk.touching := by
    rw [hchunk, Chunk.touching_emit, Chunk.touching_emit]
    simp [Op.touches]
  rw [htouching, hchunk, Chunk.emit_constants, Chunk.emit_constants]
  exact hcode

end ScriptEngine.Compile

namespace ScriptEngine.Bytecode

/-- The functions in a module, each with the captures of the closures made of it and of the functions
around it, innermost first. -/
inductive Proto.Encloses (main : Proto) : List (List Capture) → Proto → Prop
  | main : main.Encloses [[]] main
  | closure {chain : List (List Capture)} {p q : Proto} {i : UInt16} {cs : List Capture}
    (around : main.Encloses chain p) (op : .closure i cs ∈ p.chunk.code)
    (made : p.chunk.constants[i.toNat]? = some (.function q)) : main.Encloses (cs :: chain) q

/-- Where top-level code does what touches say, so does the code of every function in it. -/
theorem Proto.Encloses.rendered {main p : Proto} {chain : List (List Capture)}
    (h : main.Encloses chain p) {ts : List Source.Touch}
    (hmain : Source.Touch.RenderedAll [[]] main.chunk.constants main.chunk.touching ts) :
    (∀ cs ∈ chain, cs.Nodup) ∧ ∃ body,
      Source.Touch.RenderedAll chain p.chunk.constants p.chunk.touching body := by
  induction h with
  | main => exact ⟨by simp, ts, hmain⟩
  | @closure chain p q i cs _ op made ih =>
    obtain ⟨hdistinct, body, hbody⟩ := ih
    have hmem : .closure i cs ∈ p.chunk.touching :=
      List.mem_filter.2 ⟨Array.mem_toList_iff.2 op, rfl⟩
    obtain ⟨r, inner, hr, hcs, hinner⟩ := hbody.closure hmem
    rw [made] at hr
    cases hr
    exact ⟨List.forall_mem_cons.2 ⟨hcs, hdistinct⟩, inner, hinner⟩

end ScriptEngine.Bytecode

namespace ScriptEngine.Compile

open Bytecode Source

/-- Lexical addressing. The instructions of a compiled lexical program that read or write variables or
make closures are those that the program tree calls for, in every function and in order. A variable
of the function itself is named by its slot; one of a function around it by an index that leads,
through the captures of the closures in between, to its slot there; a global by its name. In every
function two indices are the same exactly if they lead to the same variable. -/
theorem addresses_compile {program : Program} {m : Module} (h : compile program = .ok m)
    (hl : program.lexical = true) :
    Touch.RenderedAll [[]] m.main.chunk.constants m.main.chunk.touching program.touches ∧
      ∀ chain p, m.main.Encloses chain p → ∀ i j v w, follow chain i = some v →
        follow chain j = some w → (i = j ↔ v = w) := by
  have hmain := rendered_main h hl
  refine ⟨hmain, fun chain p hp i j v w hi hj => ?_⟩
  obtain ⟨hdistinct, -⟩ := hp.rendered hmain
  constructor
  · rintro rfl
    exact Option.some.inj (hi.symm.trans hj)
  · rintro rfl
    exact follow_injective hdistinct hi hj

/-- A function whose parameter is shadowed where a closure captures it. The closure leaves a loop
through a `try` statement that declares `y`, which its `ensure` part does not see. -/
def shadowingProgram : Program where
  file := ""
  body := [.function ⟨1, 1⟩ ⟨"f", [⟨"x", none, []⟩], none,
    [.block ⟨2, 1⟩
      [.declare ⟨2, 1⟩ ["x"] (some (.null ⟨2, 1⟩)),
        .returnValue ⟨3, 1⟩ (some (.function ⟨3, 1⟩ ⟨"", [], none,
          [.whileLoop ⟨4, 1⟩ (.ident ⟨4, 1⟩ "x")
            (.guarded ⟨5, 1⟩
              (.block ⟨5, 1⟩
                [.declare ⟨5, 1⟩ ["y"] (some (.ident ⟨5, 1⟩ "x")), .breakLoop ⟨6, 1⟩])
              []
              (some (.block ⟨7, 1⟩ [.expression ⟨7, 1⟩
                (.assign ⟨7, 1⟩ (.ident ⟨7, 1⟩ "x") (.ident ⟨7, 1⟩ "y"))])))],
          ⟨3, 1⟩⟩))]], ⟨1, 1⟩⟩]

/-- Both copies of the `ensure` part read the global `y` and write the inner `x`, which is in slot two
of the function around. -/
example : shadowingProgram.touches = [.closure [.closure
    [.read (.outer 0 2), .read (.outer 0 2), .read (.global "y"), .write (.outer 0 2),
      .read (.global "y"), .write (.outer 0 2)]]] := rfl

theorem addresses_shadowingProgram : ∃ m, compile shadowingProgram = .ok m ∧
    Touch.RenderedAll [[]] m.main.chunk.constants m.main.chunk.touching shadowingProgram.touches ∧
      ∀ chain p, m.main.Encloses chain p → ∀ i j v w, follow chain i = some v →
        follow chain j = some w → (i = j ↔ v = w) := by
  obtain ⟨m, hm⟩ := exists_of_toBool (x := compile shadowingProgram) (by decide +kernel)
  exact ⟨m, hm, addresses_compile hm (by decide)⟩

end ScriptEngine.Compile
