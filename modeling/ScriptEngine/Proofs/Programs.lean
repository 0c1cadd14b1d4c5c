import ScriptEngine.Proofs.Discipline
import ScriptEngine.Proofs.Rounds

/-!
# Code for programs

The code of a statement of the core follows its execution, by recursion on the statement, and the
code of a program follows its run: it stops where the run ends, raises where the run raises, and
goes on for as many steps as there is fuel where the fuel does not suffice.
-/

namespace ScriptEngine.Compile

open Bytecode Source Reference

section Statements

variable {outer sh : List (List String)} {ctx : Context}

/-- The names in each scope after some statements. -/
def extendAll (body : List Stmt) (sh : List (List String)) : List (List String) :=
  body.foldl (fun sh s => extend (declaredBy s) sh) sh

/-- No names make no difference to the scopes. -/
theorem extend_nil (sh : List (List String)) : extend [] sh = sh := by
  cases sh <;> rfl

/-- A statement that declares nothing makes no difference to the scopes. -/
theorem extend_of_empty {s : Stmt} (h : (declaredBy s).isEmpty = true) :
    extend (declaredBy s) sh = sh := by
  rw [List.isEmpty_iff.1 h, extend_nil]

/-- Statements declare names in the innermost scope alone. -/
theorem extendAll_cons (sh : List (List String)) (body : List Stmt) (scope : List String) :
    ∃ scope', extendAll body (scope :: sh) = scope' :: sh := by
  induction body generalizing scope with
  | nil => exact ⟨scope, rfl⟩
  | cons s body ih => exact ih _

/-- What declaring names with a value comes to. -/
theorem emitDeclare_some (pos : Position) (names : List String) (value : Gen Unit) :
    emitDeclare pos names (some value) =
      declareAround pos names (do
        value
        if names.length > 1 then
          if names.length > maxArguments then fail .tooManyNames pos
          emit (.unpack (UInt8.ofNat names.length)) pos.line) := by
  unfold emitDeclare declareAround
  by_cases hmany : names.length > 1
  · by_cases hmax : names.length > maxArguments <;> simp only [hmany, hmax, if_true, if_false, bind_assoc]
  · simp only [hmany, if_false, bind_assoc, pure_bind]

/-- Declaring names with one value each, where it does not have to be unpacked. -/
theorem bindNames_eq {names : List String} (hnames : names ≠ []) (pos : Position) (x : Script Datum) :
    (x >>= fun d => Script.bindNames names pos d) =
      ((x >>= fun d => if names.length > 1 then Script.signal (.raised .type pos) else pure d) >>=
        fun d => Script.declareAll names d) := by
  rw [bind_assoc]
  congr 1
  funext d
  match names with
  | [] => exact absurd rfl hnames
  | [name] => rfl
  | name :: other :: rest =>
    rw [if_pos (by simp)]
    rfl

/-- A counting loop is in the core if its parts are and its body declares nothing. -/
theorem stmtInCore_forLoop (pos : Position) (initial : Option Stmt) (condition step : Option Expr)
    (body : Stmt) :
    stmtInCore (.forLoop pos initial condition step body) =
      (initial.all stmtInCore && condition.all inCore && step.all inCore &&
        (declaredBy body).isEmpty && stmtInCore body) := by
  cases initial <;> cases condition <;> cases step <;> rfl

/-- The code of a counting loop with what initialises it, in a scope of its own. -/
theorem codes_for {initial : Option Stmt} {condition step : Option Expr} {body : Stmt}
    {pos : Position} {scope : List String} (hout : outer <:+ sh)
    (hi : Codes outer [] ([] :: sh) (scope :: sh) [] ((initial.map (compileStmt ctx)).forM id)
      (fun fuel => execInitial fuel initial) (fun _ => []))
    (hc : ∀ e ∈ condition, inCore e = true) (hs : ∀ e ∈ step, inCore e = true)
    (htries : ctx.tries = [])
    (hbody : ∀ sh', Codes sh' [] sh' sh' [] (compileStmt ctx body) (fun fuel => exec fuel body)
      (fun _ => [])) :
    Codes outer [] sh sh []
      (emitFor ctx pos (initial.map (compileStmt ctx)) (condition.map (compileExpr ctx))
        (step.map (compileExpr ctx)) (compileStmt ctx body))
      (fun fuel => exec fuel (.forLoop pos initial condition step body)) (fun _ => []) := by
  rw [emitFor_eq]
  simp only [exec_forLoop]
  refine codes_inScope hout (fun fuel => .bind ?_ fun _ => ?_) (hi.bind fun _ =>
    codes_rounds hc hs htries (fun fuel => balanced_exec fuel body) (hbody (scope :: sh)))
  · cases initial with
    | none => exact balanced_pure _
    | some st => exact balanced_exec fuel st
  · exact ((balanced_execCondition condition).iterate (balanced_exec fuel body)
      (balanced_execStep step) fuel).catching _

mutual

/-- The code of a statement follows its execution. -/
theorem codes_compileStmt (htries : ctx.tries = []) (st : Stmt) {outer sh : List (List String)}
    (h : stmtInCore st = true) (hout : outer <:+ sh) :
    Codes outer [] sh (extend (declaredBy st) sh) [] (compileStmt ctx st) (fun fuel => exec fuel st)
      (fun _ => []) := by
  match st with
  | .expression pos e =>
    change Codes outer [] sh (extend [] sh) [] _ _ _
    rw [extend_nil]
    exact codes_dropped h pos.line
  | .declare pos names none =>
    simp only [stmtInCore, Bool.and_eq_true] at h
    exact codes_declareAround h.2 fun pending => codes_noInitial names pos.line
  | .declare pos names (some e) =>
    simp only [stmtInCore, Bool.and_eq_true, Bool.not_eq_true', List.isEmpty_eq_false_iff] at h
    have hvalue := fun pending => codes_compileExpr outer sh pending ctx e h.2 []
    change Codes outer [] sh (extend names sh) [] (emitDeclare pos names (some _)) _ _
    rw [emitDeclare_some]
    refine (codes_declareAround h.1.2 fun pending => codes_initial h.1.1 (hvalue pending)).congr ?_
    exact fun fuel => bindNames_eq h.1.1 pos (eval e)
  | .block pos body =>
    change Codes outer [] sh (extend [] sh) [] _ _ _
    rw [extend_nil]
    have hbody : Codes outer [] ([] :: sh) _ [] _ _ _ := codes_compileStmts htries body h hout
    obtain ⟨scope, hscope⟩ := extendAll_cons sh body []
    rw [hscope] at hbody
    exact codes_inScope hout (fun fuel => balanced_execAll fuel body) hbody
  | .branch pos c t none =>
    simp only [stmtInCore, Bool.and_eq_true] at h
    have hthen := codes_compileStmt htries t h.2 hout
    rw [extend_of_empty h.1.2] at hthen
    change Codes outer [] sh (extend [] sh) [] _ _ _
    rw [extend_nil]
    exact codes_branch_none (codes_compileExpr outer sh [] ctx c h.1.1 []) hthen
  | .branch pos c t (some e) =>
    simp only [stmtInCore, Bool.and_eq_true] at h
    obtain ⟨⟨⟨⟨hc, htd⟩, ht⟩, hed⟩, he⟩ := h
    have hthen := codes_compileStmt htries t ht hout
    have helse := codes_compileStmt htries e he hout
    rw [extend_of_empty htd] at hthen
    rw [extend_of_empty hed] at helse
    change Codes outer [] sh (extend [] sh) [] _ _ _
    rw [extend_nil]
    exact codes_branch (codes_compileExpr outer sh [] ctx c hc []) hthen helse
  | .whileLoop pos c body =>
    simp only [stmtInCore, Bool.and_eq_true] at h
    have hbody := codes_compileStmt htries body h.2 (List.suffix_refl sh)
    rw [extend_of_empty h.1.2] at hbody
    change Codes outer [] sh (extend [] sh) [] _ _ _
    rw [extend_nil]
    exact codes_while h.1.1 htries (fun fuel => balanced_exec fuel body) hbody
  | .forLoop pos initial condition step body =>
    simp only [stmtInCore_forLoop, Bool.and_eq_true, Option.all_eq_true] at h
    obtain ⟨⟨⟨⟨hi, hc⟩, hs⟩, hbd⟩, hb⟩ := h
    have hbody : ∀ sh', Codes sh' [] sh' sh' [] (compileStmt ctx body) (fun fuel => exec fuel body)
        (fun _ => []) := fun sh' => by
      have hbody := codes_compileStmt htries body hb (List.suffix_refl sh')
      rwa [extend_of_empty hbd] at hbody
    change Codes outer [] sh (extend [] sh) [] _ _ _
    rw [extend_nil, compileStmt_forLoop]
    cases initial with
    | none => exact codes_for hout (codes_pure outer ([] :: sh) [] () fun _ => []) hc hs htries hbody
    | some st =>
      have hfirst := codes_compileStmt htries st (hi st rfl) (hout.trans (List.suffix_cons [] sh))
      exact codes_for hout hfirst hc hs htries hbody
  | .breakLoop pos =>
    change Codes outer [] sh (extend [] sh) [] _ _ _
    rw [extend_nil]
    exact codes_break htries hout
  | .continueLoop pos =>
    change Codes outer [] sh (extend [] sh) [] _ _ _
    rw [extend_nil]
    exact codes_continue htries hout
  | .forEach .. | .returnValue .. | .raise .. | .guarded .. | .withResource .. | .function ..
  | .native .. | .classDef .. | .importModule .. => cases h

/-- The code of statements follows their execution one after another. Declarations between them only
change the innermost scope, which no loop around them knows. -/
theorem codes_compileStmts (htries : ctx.tries = []) (body : List Stmt)
    {outer sh : List (List String)} (h : allInCore body = true) (hout : outer <:+ sh.tail) :
    Codes outer [] sh (extendAll body sh) [] (compileStmts ctx body) (fun fuel => execAll fuel body)
      (fun _ => []) := by
  match body with
  | [] => exact codes_pure outer sh [] () fun _ => []
  | st :: rest =>
    simp only [allInCore, Bool.and_eq_true] at h
    have htail : outer <:+ (extend (declaredBy st) sh).tail := by
      cases sh with
      | nil => exact hout
      | cons scope sh => exact hout
    have hfirst := codes_compileStmt htries st h.1 (hout.trans (List.tail_suffix sh))
    have hrest := codes_compileStmts htries rest h.2 htail
    exact hfirst.bind fun _ => hrest

end

end Statements

/-! ## Programs -/

/-- Code that is started at its beginning does what a program does that ends with the given
outcome. -/
def Runs (c : Chunk) (fuel : Nat) (start : Config) : Except Signal Unit × Env → Prop
  | (.ok (), env) => ∃ k, Arrives c 0 start k ∧ advance c k = .stop ∧ k.globals = env.globals
  | (.error (.raised reason pos), env) => Refuses c start reason pos env.globals
  | (.error .exhausted, _) => ∃ k, Arrives c fuel start k
  | (.error .broke, _) | (.error .continued, _) | (.error .foreign, _) => False

theorem atScopes_start : AtScopes [] [] ⟨.start "", []⟩ :=
  ⟨rfl, rfl, rfl, by decide, Nat.zero_le _, Nat.le_refl 0⟩

/-- The code of a program does what the program does. -/
theorem runs_compile {p : Program} {m : Module} (h : compile p = .ok m)
    (hcore : programInCore p = true)
    (hfull : m.main.chunk.lines.size = m.main.chunk.code.size) (fuel : Nat) :
    Runs m.main.chunk fuel (Env.start.place 0 []) (Reference.run fuel p) := by
  obtain ⟨s, hran, -, -, hchunk⟩ := ran_compile h
  generalize m.main.chunk = c at hfull hchunk ⊢
  have hcodes : Codes [] [] [] _ [] (compileStmts topLevel p.body) _ _ :=
    codes_compileStmts rfl p.body hcore (List.suffix_refl [])
  obtain ⟨hst, bs, cs, he, hfollow⟩ := hcodes atScopes_start hran
  obtain ⟨rfl, rfl⟩ := List.append_eq_nil_iff.1 (he.empty rfl)
  -- the code ends with a null that is returned
  have hnull : s.chunk.Grown [] (s.chunk.emit .null (lastLine p.body 1)) := s.chunk.grown_emit _ _
  have hgrown : s.chunk.Grown [] c := hchunk ▸ hnull.trans (Chunk.grown_emit _ _ _)
  have hcode : c.code[s.size]? = some .null ∧ c.code[s.size + 1]? = some .return := by
    subst hchunk
    have hsize : (s.chunk.emit .null (lastLine p.body 1)).code.size = s.size + 1 :=
      Chunk.emit_size _ _ _
    constructor
    · refine ((Chunk.grown_emit _ _ _).code s.size (by omega) List.not_mem_nil).trans ?_
      rw [Chunk.emit_code]
      exact Array.getElem?_push_size
    · rw [Chunk.emit_code, ← hsize]
      exact Array.getElem?_push_size
  have hfix : Fixed c ⟨.start "", []⟩ s ([] ++ []) := ⟨hfull, [], hgrown, nofun⟩
  have hlead : LoopJumps c .none [] ⟨.start "", []⟩ [] [] :=
    ⟨nofun, nofun, List.suffix_refl _, nofun⟩
  have hrun : Follows c fuel .none 0 (Env.start.place 0 []) _ _ (execAll fuel p.body .start) :=
    hfollow hfix hlead rfl
  change Runs c fuel _ (execAll fuel p.body .start)
  generalize execAll fuel p.body .start = r at hrun
  obtain ⟨r, env⟩ := r
  cases r with
  | ok u =>
    have hnext := arrives_one (k := env.place s.size []) hcode.1 rfl
    refine ⟨_, (hrun.2.trans hnext).weaken (Nat.zero_le _), ?_, rfl⟩
    unfold advance
    rw [show c.code[_]? = some .return from hcode.2]
    rfl
  | error e =>
    cases e with
    | broke =>
      obtain ⟨_, hpc, -⟩ := hrun
      cases hpc
    | continued =>
      obtain ⟨_, hpc, -⟩ := hrun
      cases hpc
    | raised reason pos => exact hrun
    | exhausted => exact hrun
    | foreign => exact hrun

end ScriptEngine.Compile
