import ScriptEngine.Source.Tree

/-!
# Block-structured programs

A front end makes blocks of the bodies of compound statements, gives every declaration a name and
every `try` a clause or an `ensure` part. `structured` asks for that much: a body need not be a
block, but it may not declare anything in the scope around it.

It also asks from where `break` and `continue` may jump. Seen from the innermost loop, a statement
stands outside every `try` and `with` (`free`), inside some but without a local declared since the
outermost of them was entered (`bare`), or behind such a local (`bound`). Exception handling counts
as declaring: the exception and its cause are kept in hidden locals.
-/

namespace ScriptEngine.Source

/-- Where a statement stands with respect to the innermost loop. -/
inductive Scope where
  /-- Outside every `try` and `with` of the loop. -/
  | free
  /-- Inside, with no local declared since the outermost was entered. -/
  | bare
  /-- Inside, behind a local declared since the outermost was entered. -/
  | bound
  deriving DecidableEq, Repr

/-- The scope behind a statement that declares something or not. -/
def Scope.after (scope : Scope) (declares : Bool) : Scope :=
  match scope with
  | .bare => if declares then .bound else .bare
  | scope => scope

/-- The scope of the body of a `try`. -/
def Scope.guarded : Scope → Scope
  | .free | .bare => .bare
  | .bound => .bound

/-- The scope of the body of a `with`, whose variable is a local. -/
def Scope.resource : Scope → Scope
  | .free => .bare
  | .bare | .bound => .bound

/-- Whether an import binds a name. -/
def ImportItems.binds : ImportItems → Bool
  | .module _ => true
  | .names bound => !bound.isEmpty
  | .all => false

/-- Whether a statement declares a variable in the scope it stands in. -/
def Stmt.declares : Stmt → Bool
  | .declare .. | .function .. | .native .. | .classDef .. => true
  | .importModule _ d => d.items.binds
  | _ => false

mutual

/-- Whether the functions in an expression are structured, where jumps may start in the scopes that
are `allowed`. -/
def Expr.structured (allowed : Scope → Bool) : Expr → Bool
  | .number _ _ | .string _ _ | .bool _ _ | .null _ | .ident _ _ | .receiver _
  | .superMember _ _ => true
  | .unary _ _ e | .spread _ e | .member _ e _ => e.structured allowed
  | .binary _ _ l r | .conj _ l r | .disj _ l r | .assign _ l r | .compound _ _ l r
  | .index _ l r => l.structured allowed && r.structured allowed
  | .conditional _ c a b => c.structured allowed && a.structured allowed && b.structured allowed
  | .call _ callee args => callee.structured allowed && Expr.structuredAll allowed args
  | .superCall _ _ args => Expr.structuredAll allowed args
  | .list _ items | .tuple _ items => Expr.structuredAll allowed items
  | .table _ entries => Expr.structuredEntries allowed entries
  | .function _ ⟨_, _, _, body, _⟩ => Stmt.structuredAll allowed .free body
  | .yield _ value =>
    match value with
    | some e => e.structured allowed
    | none => true

/-- Whether all expressions are structured. -/
def Expr.structuredAll (allowed : Scope → Bool) : List Expr → Bool
  | [] => true
  | e :: rest => e.structured allowed && Expr.structuredAll allowed rest

/-- Whether all keys and values are structured. -/
def Expr.structuredEntries (allowed : Scope → Bool) : List (Expr × Expr) → Bool
  | [] => true
  | (k, v) :: rest =>
    k.structured allowed && v.structured allowed && Expr.structuredEntries allowed rest

/-- Whether a statement is structured in a scope. -/
def Stmt.structured (allowed : Scope → Bool) (scope : Scope) : Stmt → Bool
  | .expression _ e | .raise _ e => e.structured allowed
  | .declare _ names initial =>
    !names.isEmpty &&
      match initial with
      | some e => e.structured allowed
      | none => true
  | .block _ body => Stmt.structuredAll allowed scope body
  | .branch _ c t e =>
    c.structured allowed && !t.declares && t.structured allowed scope &&
      match e with
      | some e => !e.declares && e.structured allowed scope
      | none => true
  | .whileLoop _ c body => c.structured allowed && !body.declares && body.structured allowed .free
  | .forLoop _ initial condition step body =>
    (match initial with
      | some s => s.structured allowed scope
      | none => true) &&
    (match condition with
      | some e => e.structured allowed
      | none => true) &&
    (match step with
      | some e => e.structured allowed
      | none => true) &&
    !body.declares && body.structured allowed .free
  | .forEach _ names iterable body =>
    !names.isEmpty && iterable.structured allowed && !body.declares &&
      body.structured allowed .free
  | .breakLoop _ | .continueLoop _ => allowed scope
  | .returnValue _ value =>
    match value with
    | some e => e.structured allowed
    | none => true
  | .guarded _ body clauses ensure =>
    (!clauses.isEmpty || ensure.isSome) && !body.declares &&
      body.structured allowed scope.guarded && ExceptClause.structuredAll allowed clauses &&
      match ensure with
      | some s => !s.declares && s.structured allowed .bound
      | none => true
  | .withResource _ _ value body =>
    value.structured allowed && !body.declares && body.structured allowed scope.resource
  | .function _ ⟨_, _, _, body, _⟩ => Stmt.structuredAll allowed .free body
  | .native _ _ | .importModule _ _ => true
  | .classDef _ _ superclass methods =>
    (match superclass with
      | some e => e.structured allowed
      | none => true) &&
    Method.structuredAll allowed methods

/-- Whether statements are structured one after another; a declaration changes the scope of those
behind it. -/
def Stmt.structuredAll (allowed : Scope → Bool) (scope : Scope) : List Stmt → Bool
  | [] => true
  | s :: rest =>
    s.structured allowed scope &&
      Stmt.structuredAll allowed (scope.after s.declares) rest

/-- Whether except clauses are structured. -/
def ExceptClause.structuredAll (allowed : Scope → Bool) : List ExceptClause → Bool
  | [] => true
  | ⟨_, exceptionClass, _, body⟩ :: rest =>
    exceptionClass.structured allowed && !body.declares && body.structured allowed .bound &&
      ExceptClause.structuredAll allowed rest

/-- Whether the methods of a class are structured. -/
def Method.structuredAll (allowed : Scope → Bool) : List Method → Bool
  | [] => true
  | .function ⟨_, _, _, body, _⟩ :: rest =>
    Stmt.structuredAll allowed .free body && Method.structuredAll allowed rest
  | .native _ :: rest => Method.structuredAll allowed rest

end

section Parts

variable (allowed : Scope → Bool) (scope : Scope) (pos : Position)

/-- A counting loop is structured if its parts are and its body declares nothing. -/
theorem Stmt.structured_forLoop (initial : Option Stmt) (condition step : Option Expr)
    (body : Stmt) :
    (Stmt.forLoop pos initial condition step body).structured allowed scope =
      (initial.all (·.structured allowed scope) && condition.all (·.structured allowed) &&
        step.all (·.structured allowed) && !body.declares && body.structured allowed .free) := by
  cases initial <;> cases condition <;> cases step <;> rfl

/-- A guarded statement is structured if its parts are, if they declare nothing, and if there is a
clause or an `ensure` part. -/
theorem Stmt.structured_guarded (body : Stmt) (clauses : List ExceptClause)
    (ensure : Option Stmt) :
    (Stmt.guarded pos body clauses ensure).structured allowed scope =
      ((!clauses.isEmpty || ensure.isSome) && !body.declares &&
        body.structured allowed scope.guarded && ExceptClause.structuredAll allowed clauses &&
        ensure.all fun s => !s.declares && s.structured allowed .bound) := by
  cases ensure <;> rfl

/-- A class is structured if its superclass and its methods are. -/
theorem Stmt.structured_classDef (name : String) (superclass : Option Expr)
    (methods : List Method) :
    (Stmt.classDef pos name superclass methods).structured allowed scope =
      (superclass.all (·.structured allowed) && Method.structuredAll allowed methods) := by
  cases superclass <;> rfl

end Parts

/-- A program is block-structured if its statements are. -/
def Program.structured (allowed : Scope → Bool) (program : Program) : Bool :=
  Stmt.structuredAll allowed .free program.body

end ScriptEngine.Source
