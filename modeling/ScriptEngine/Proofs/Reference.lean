import ScriptEngine.Machine.Core
import ScriptEngine.Number.Arithmetic
import ScriptEngine.Source.Tree

/-!
# Reference semantics of the control-flow core

What the programs mean that have numbers, truth values and null as their only values: variables,
operators, short-circuit and conditional expressions, assignments, blocks, branches, loops and jumps
out of loops. Scopes are kept as a chain, a declaration outside every scope makes a global, and a
name means the innermost variable of that name.

A computation changes the environment and ends with a result or with a signal. Loops go round at
most as often as the fuel says; more fuel never changes an outcome other than `exhausted`, and a
program that is exhausted on every amount of fuel does not end. Arithmetic is that of
`ScriptEngine.Number`, of which nothing is used.
-/

namespace ScriptEngine.Reference

open Source

/-- The values of the core. -/
inductive Datum where
  | number (n : Number)
  | bool (b : Bool)
  | null
  deriving DecidableEq, Inhabited

/-- Only `null` and `false` count as false. -/
def Datum.isTruthy : Datum → Bool
  | .null | .bool false => false
  | _ => true

/-- Equality: numbers compare numerically, and values of different kinds differ. -/
def Datum.same : Datum → Datum → Bool
  | .number a, .number b => a.equals b
  | .bool a, .bool b => a == b
  | .null, .null => true
  | _, _ => false

/-- An arithmetic operator or an order on numbers; `none` for other operators. -/
def onNumbers : BinaryOp → Number → Number → Option Datum
  | .add, a, b => some (.number (a.add b))
  | .subtract, a, b => some (.number (a.sub b))
  | .multiply, a, b => some (.number (a.mul b))
  | .divide, a, b => some (.number (a.div b))
  | .less, a, b => some (.bool (a.less b))
  | .lessEqual, a, b => some (.bool (a.lessEq b))
  | .greater, a, b => some (.bool (b.less a))
  | .greaterEqual, a, b => some (.bool (b.lessEq a))
  | _, _, _ => none

/-- A binary operator; `none` where an operand is not a number and has to be one. -/
def applyBinary (op : BinaryOp) (a b : Datum) : Option Datum :=
  match op with
  | .equal => some (.bool (a.same b))
  | .notEqual => some (.bool !(a.same b))
  | _ =>
    match a, b with
    | .number x, .number y => onNumbers op x y
    | _, _ => none

/-- A unary operator; `none` where the operand is not a number and has to be one. -/
def applyUnary (op : UnaryOp) (a : Datum) : Option Datum :=
  match op, a with
  | .not, a => some (.bool !a.isTruthy)
  | .negate, .number n => some (.number n.negate)
  | _, _ => none

/-- The classes of exceptions that the core raises. -/
inductive Refusal where
  /-- An operand of the wrong kind. -/
  | type
  /-- A name that means no variable. -/
  | name
  deriving DecidableEq, Repr

/-- The core class of an exception. -/
def Refusal.coreClass : Refusal → CoreClass
  | .type => .typeException
  | .name => .nameException

/-- The name of that class. -/
def Refusal.className : Refusal → String
  | .type => "TypeException"
  | .name => "NameException"

/-- Ways in which a computation can end without a result. -/
inductive Signal where
  /-- A `break` that has not reached its loop. -/
  | broke
  /-- A `continue` that has not reached its loop. -/
  | continued
  /-- An exception, with the place where it was raised. -/
  | raised (reason : Refusal) (pos : Position)
  /-- The fuel did not suffice. -/
  | exhausted
  /-- Something that is not in the core. -/
  | foreign
  deriving DecidableEq

/-- The variables of a program. -/
structure Env where
  /-- The scopes that are open, innermost first, and in each the variable declared last first. -/
  scopes : List (List (String × Datum))
  /-- The globals. -/
  globals : String → Option Datum

/-- The variables with a new scope. -/
def Env.enter (env : Env) : Env := { env with scopes := [] :: env.scopes }

/-- The variables without the innermost scope. -/
def Env.leave (env : Env) : Env := { env with scopes := env.scopes.tail }

/-- A computation on the variables. -/
def Script (α : Type) : Type := Env → Except Signal α × Env

namespace Script

/-- Ends with a result. -/
protected def pure {α : Type} (a : α) : Script α := fun env => (.ok a, env)

/-- One computation after the other; a signal ends both. -/
protected def bind {α β : Type} (x : Script α) (f : α → Script β) : Script β := fun env =>
  match x env with
  | (.ok a, env) => f a env
  | (.error e, env) => (.error e, env)

instance : Monad Script where
  pure := Script.pure
  bind := Script.bind

instance : LawfulMonad Script := by
  refine LawfulMonad.mk' Script ?_ (fun _ _ => rfl) ?_
  · intro α x
    funext env
    change Script.bind x _ env = x env
    unfold Script.bind
    obtain ⟨_ | _, _⟩ := x env <;> rfl
  · intro α β γ x f g
    funext env
    change Script.bind (Script.bind x f) g env = Script.bind x (fun a => Script.bind (f a) g) env
    simp only [Script.bind]
    obtain ⟨_ | _, _⟩ := x env <;> rfl

/-- Ends with a signal. -/
def signal {α : Type} (e : Signal) : Script α := fun env => (.error e, env)

/-- Ends with a result that is there, or with an exception. -/
def require {α : Type} (a? : Option α) (reason : Refusal) (pos : Position) : Script α :=
  match a? with
  | some a => pure a
  | none => signal (.raised reason pos)

/-- Takes one signal for an ordinary end. -/
def catching (e : Signal) (x : Script Unit) : Script Unit := fun env =>
  match x env with
  | (.error e', env) => if e' = e then (.ok (), env) else (.error e', env)
  | r => r

/-- Runs a computation in a scope of its own, which is left however the computation ends. -/
def enclosed {α : Type} (x : Script α) : Script α := fun env =>
  match x env.enter with
  | (r, env) => (r, env.leave)

/-- Runs a body as long as a condition holds, `step` after each time, and no more often than
`fuel` says. -/
def iterate (condition : Script Bool) (body step : Script Unit) : Nat → Script Unit
  | 0 => signal .exhausted
  | fuel + 1 => do
    if ← condition then
      catching .continued body
      step
      iterate condition body step fuel
    else pure ()

end Script

namespace Env

/-- The local variables, innermost first. -/
def locals (env : Env) : List (String × Datum) := env.scopes.flatten

/-- What a name means. -/
def find? (env : Env) (name : String) : Option Datum :=
  (env.locals.lookup name).or (env.globals name)

/-- Gives a global a value. -/
def setGlobal (env : Env) (name : String) (d : Datum) : Env :=
  { env with globals := fun x => if x = name then some d else env.globals x }

/-- Declares a variable: in the innermost scope, or as a global outside every scope. -/
def declare (env : Env) (name : String) (d : Datum) : Env :=
  match env.scopes with
  | [] => env.setGlobal name d
  | scope :: rest => { env with scopes := ((name, d) :: scope) :: rest }

/-- Overwrites the first variable of a name. -/
def overwrite (name : String) (d : Datum) : List (String × Datum) → List (String × Datum)
  | [] => []
  | (x, v) :: rest => if x = name then (x, d) :: rest else (x, v) :: overwrite name d rest

/-- Overwrites the innermost variable of a name. -/
def overwriteInnermost (name : String) (d : Datum) :
    List (List (String × Datum)) → List (List (String × Datum))
  | [] => []
  | scope :: rest =>
    if (scope.lookup name).isSome then overwrite name d scope :: rest
    else scope :: overwriteInnermost name d rest

/-- Assigns the variable a name means; `none` if it means none. -/
def assign? (env : Env) (name : String) (d : Datum) : Option Env :=
  if (env.locals.lookup name).isSome then
    some { env with scopes := overwriteInnermost name d env.scopes }
  else if (env.globals name).isSome then some (env.setGlobal name d)
  else none

end Env

namespace Script

/-- The value of the variable a name means. -/
def read (name : String) (pos : Position) : Script Datum := fun env =>
  require (env.find? name) .name pos env

/-- Assigns the variable a name means. -/
def write (name : String) (pos : Position) (d : Datum) : Script Unit := fun env =>
  match env.assign? name d with
  | some env => (.ok (), env)
  | none => (.error (.raised .name pos), env)

/-- Declares variables, all with one value. -/
def declareAll (names : List String) (d : Datum) : Script Unit := fun env =>
  (.ok (), names.foldl (·.declare · d) env)

/-- Declares a variable with a value. A value of the core cannot be unpacked into several. -/
def bindNames (names : List String) (pos : Position) (d : Datum) : Script Unit :=
  match names with
  | [name] => declareAll [name] d
  | _ => signal (.raised .type pos)

end Script

open Script

/-- The value of an expression. -/
def eval : Expr → Script Datum
  | .number _ n => pure (.number n)
  | .bool _ b => pure (.bool b)
  | .null _ => pure .null
  | .ident pos name => read name pos
  | .binary pos op l r => do
    let a ← eval l
    let b ← eval r
    require (applyBinary op a b) .type pos
  | .unary pos op e => do
    let a ← eval e
    require (applyUnary op a) .type pos
  | .conj _ l r => do
    let a ← eval l
    if a.isTruthy then eval r else pure a
  | .disj _ l r => do
    let a ← eval l
    if a.isTruthy then pure a else eval r
  | .conditional _ c t e => do
    let a ← eval c
    if a.isTruthy then eval t else eval e
  | .assign _ (.ident pos name) value => do
    let d ← eval value
    write name pos d
    pure d
  | .compound _ op (.ident pos name) value => do
    let a ← read name pos
    let b ← eval value
    let d ← require (applyBinary op a b) .type pos
    write name pos d
    pure d
  | _ => signal .foreign

/-- Whether a condition holds. -/
def holds (e : Expr) : Script Bool := do
  let d ← eval e
  pure d.isTruthy

mutual

/-- Executes a statement. -/
def exec (fuel : Nat) : Stmt → Script Unit
  | .expression _ e => do
    let _ ← eval e
    pure ()
  | .declare _ names none => declareAll names .null
  | .declare pos names (some e) => do
    let d ← eval e
    bindNames names pos d
  | .block _ body => enclosed (execAll fuel body)
  | .branch _ c t none => do
    let d ← eval c
    if d.isTruthy then exec fuel t else pure ()
  | .branch _ c t (some e) => do
    let d ← eval c
    if d.isTruthy then exec fuel t else exec fuel e
  | .whileLoop _ c body =>
    catching .broke (iterate (holds c) (exec fuel body) (pure ()) fuel)
  | .forLoop _ initial condition step body =>
    enclosed do
      match initial with
        | some s => exec fuel s
        | none => pure ()
      catching .broke
        (iterate
          (match condition with
            | some e => holds e
            | none => pure true)
          (exec fuel body)
          (match step with
            | some e => do
              let _ ← eval e
              pure ()
            | none => pure ())
          fuel)
  | .breakLoop _ => signal .broke
  | .continueLoop _ => signal .continued
  | _ => signal .foreign

/-- Executes statements one after another. -/
def execAll (fuel : Nat) : List Stmt → Script Unit
  | [] => pure ()
  | s :: rest => do
    exec fuel s
    execAll fuel rest

end

/-- The variables before a program runs. -/
def Env.start : Env := ⟨[], fun _ => none⟩

/-- Runs a program. -/
def run (fuel : Nat) (p : Program) : Except Signal Unit × Env := execAll fuel p.body .start

/-! ## Programs of the core -/

/-- The names of the globals that every module starts with. -/
def coreGlobals : List String :=
  CoreClassDecl.schedule.map (·.name) ++ coreFunctions.map (·.name)

/-- Whether a name can be that of a variable of the core. -/
def isOwnName (name : String) : Bool := name != "" && !coreGlobals.contains name

/-- Whether a binary operator is in the core. -/
def isCoreBinary : BinaryOp → Bool
  | .add | .subtract | .multiply | .divide | .equal | .notEqual | .less | .lessEqual | .greater
  | .greaterEqual => true
  | _ => false

/-- Whether a unary operator is in the core. -/
def isCoreUnary : UnaryOp → Bool
  | .negate | .not => true
  | _ => false

/-- Whether an expression is in the core. -/
def inCore : Expr → Bool
  | .number _ _ | .bool _ _ | .null _ => true
  | .ident _ name => isOwnName name
  | .binary _ op l r => isCoreBinary op && inCore l && inCore r
  | .unary _ op e => isCoreUnary op && inCore e
  | .conj _ l r | .disj _ l r => inCore l && inCore r
  | .conditional _ c t e => inCore c && inCore t && inCore e
  | .assign _ (.ident _ name) value => isOwnName name && inCore value
  | .compound _ op (.ident _ name) value => isCoreBinary op && isOwnName name && inCore value
  | _ => false

/-- The names a statement declares in the scope it stands in. -/
def declaredBy : Stmt → List String
  | .declare _ names _ => names
  | _ => []

mutual

/-- Whether a statement is in the core. Bodies of branches and loops declare nothing in the scope
around them. -/
def stmtInCore : Stmt → Bool
  | .expression _ e => inCore e
  | .declare _ names none => !names.isEmpty && names.all isOwnName
  | .declare _ names (some e) => !names.isEmpty && names.all isOwnName && inCore e
  | .block _ body => allInCore body
  | .branch _ c t none => inCore c && (declaredBy t).isEmpty && stmtInCore t
  | .branch _ c t (some e) =>
    inCore c && (declaredBy t).isEmpty && stmtInCore t && (declaredBy e).isEmpty && stmtInCore e
  | .whileLoop _ c body => inCore c && (declaredBy body).isEmpty && stmtInCore body
  | .forLoop _ initial condition step body =>
    (match initial with
      | some s => stmtInCore s
      | none => true) &&
    (match condition with
      | some e => inCore e
      | none => true) &&
    (match step with
      | some e => inCore e
      | none => true) &&
    (declaredBy body).isEmpty && stmtInCore body
  | .breakLoop _ | .continueLoop _ => true
  | _ => false

/-- Whether all statements are in the core. -/
def allInCore : List Stmt → Bool
  | [] => true
  | s :: rest => stmtInCore s && allInCore rest

end

/-- Whether a program is in the core. -/
def programInCore (p : Program) : Bool := allInCore p.body

end ScriptEngine.Reference
