import ScriptEngine.Source.Tree

/-!
# Which code yields

A function whose own body contains a `yield` is a generator. The search goes through every
expression and statement evaluated as part of the body, but not into nested functions and classes,
whose code runs in frames of its own.
-/

namespace ScriptEngine.Source

mutual

/-- Whether evaluating the expression can yield from the enclosing function. -/
def Expr.yields : Expr → Bool
  | .yield _ _ => true
  | .number _ _ | .string _ _ | .bool _ _ | .null _ | .ident _ _ | .receiver _
  | .function _ _ | .superMember _ _ => false
  | .unary _ _ e | .spread _ e | .member _ e _ => e.yields
  | .binary _ _ l r | .conj _ l r | .disj _ l r | .assign _ l r | .compound _ _ l r
  | .index _ l r => l.yields || r.yields
  | .conditional _ c a b => c.yields || a.yields || b.yields
  | .call _ callee args => callee.yields || yieldsAny args
  | .superCall _ _ args => yieldsAny args
  | .list _ items | .tuple _ items => yieldsAny items
  | .table _ entries => yieldsAnyEntry entries

/-- Whether one of the expressions yields. -/
def yieldsAny : List Expr → Bool
  | [] => false
  | e :: rest => e.yields || yieldsAny rest

/-- Whether a key or a value of the entries yields. -/
def yieldsAnyEntry : List (Expr × Expr) → Bool
  | [] => false
  | (k, v) :: rest => k.yields || v.yields || yieldsAnyEntry rest

end

/-- Whether an optional expression is there and yields. -/
def yieldsOption : Option Expr → Bool
  | none => false
  | some e => e.yields

mutual

/-- Whether the statement yields from the enclosing function. -/
def Stmt.yields : Stmt → Bool
  | .expression _ e | .raise _ e => e.yields
  | .declare _ _ initial => yieldsOption initial
  | .block _ body => Stmt.yieldsAny body
  | .branch _ c t e => c.yields || t.yields || Stmt.yieldsOption e
  | .whileLoop _ c b => c.yields || b.yields
  | .forLoop _ i c s b => Stmt.yieldsOption i || yieldsOption c || yieldsOption s || b.yields
  | .forEach _ _ e b => e.yields || b.yields
  | .returnValue _ v => yieldsOption v
  | .guarded _ b clauses ensure => b.yields || clausesYield clauses || Stmt.yieldsOption ensure
  | .withResource _ _ v b => v.yields || b.yields
  | .breakLoop _ | .continueLoop _ | .function _ _ | .native _ _ | .classDef _ _ _ _
  | .importModule _ _ => false

/-- Whether one of the statements yields. -/
def Stmt.yieldsAny : List Stmt → Bool
  | [] => false
  | s :: rest => s.yields || Stmt.yieldsAny rest

/-- Whether an optional statement is there and yields. -/
def Stmt.yieldsOption : Option Stmt → Bool
  | none => false
  | some s => s.yields

/-- Whether one of the clauses yields. -/
def clausesYield : List ExceptClause → Bool
  | [] => false
  | ⟨_, c, _, b⟩ :: rest => c.yields || b.yields || clausesYield rest

end

/-- A function whose body yields is a generator. -/
def FunctionDecl.isGenerator (d : FunctionDecl) : Bool := Stmt.yieldsAny d.body

end ScriptEngine.Source
