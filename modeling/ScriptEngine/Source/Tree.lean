import ScriptEngine.Number.Basic
import ScriptEngine.Source.Position

/-!
# Program trees

The programs the engine accepts, as trees built by some front end. Every node carries the position
it was read from. The module also holds the spellings of the operators and the syntactic questions
the code generator asks: which literals are constants, which functions are generators, and what name
an import binds.
-/

namespace ScriptEngine.Source

/-- Binary operators. -/
inductive BinaryOp where
  | add | subtract | multiply | divide | modulo | power
  | equal | notEqual | less | lessEqual | greater | greaterEqual
  | is | bitAnd | bitOr | xor | shiftLeft | shiftRight
  deriving DecidableEq, Repr

/-- Every binary operator with its spelling and its name. -/
def BinaryOp.table : List (BinaryOp × String × String) :=
  [(.add, "+", "Add"), (.subtract, "-", "Subtract"), (.multiply, "*", "Multiply"),
   (.divide, "/", "Divide"), (.modulo, "%", "Modulo"), (.power, "^", "Power"),
   (.equal, "==", "Equal"), (.notEqual, "!=", "NotEqual"), (.less, "<", "Less"),
   (.lessEqual, "<=", "LessEqual"), (.greater, ">", "Greater"),
   (.greaterEqual, ">=", "GreaterEqual"), (.is, "is", "Is"), (.bitAnd, "&", "BitAnd"),
   (.bitOr, "|", "BitOr"), (.xor, "~", "Xor"), (.shiftLeft, "<<", "ShiftLeft"),
   (.shiftRight, ">>", "ShiftRight")]

/-- The operator with a given spelling. -/
def BinaryOp.ofSpelling? (s : String) : Option BinaryOp :=
  (BinaryOp.table.find? (·.2.1 == s)).map (·.1)

/-- The operator's name. -/
def BinaryOp.name (op : BinaryOp) : String :=
  ((BinaryOp.table.find? (·.1 == op)).map (·.2.2)).getD ""

/-- Unary operators. -/
inductive UnaryOp where
  | negate | not | bitNot
  /-- `#x`, the length of `x`. -/
  | length
  /-- `##x`, the text of `x`. -/
  | stringify
  deriving DecidableEq, Repr

/-- Every unary operator with its spelling and its name. -/
def UnaryOp.table : List (UnaryOp × String × String) :=
  [(.negate, "-", "Negate"), (.not, "!", "Not"), (.bitNot, "~", "BitNot"), (.length, "#", "Len"),
   (.stringify, "##", "Stringify")]

/-- The operator with a given spelling. -/
def UnaryOp.ofSpelling? (s : String) : Option UnaryOp :=
  (UnaryOp.table.find? (·.2.1 == s)).map (·.1)

/-- The operator's name. -/
def UnaryOp.name (op : UnaryOp) : String :=
  ((UnaryOp.table.find? (·.1 == op)).map (·.2.2)).getD ""

/-- What an import binds. -/
inductive ImportItems where
  /-- The module itself, under an alias or under the last segment of its name. -/
  | module (rename : Option String)
  /-- Some of its globals. -/
  | names (names : List String)
  /-- All of its globals. -/
  | all
  deriving DecidableEq, Repr

/-- An import declaration. -/
structure Import where
  /-- Dotted name of the imported module. -/
  module : String
  /-- What is bound. -/
  items : ImportItems
  deriving DecidableEq, Repr

/-- The name bound by an import without an alias is the last segment of the module's name. -/
def Import.bindingName (d : Import) : String :=
  match d.items with
  | .module (some a) => a
  | _ => (d.module.splitOn ".").getLast?.getD d.module

mutual

/-- Expressions. -/
inductive Expr where
  | number (pos : Position) (value : Number)
  | string (pos : Position) (value : String)
  | bool (pos : Position) (value : Bool)
  | null (pos : Position)
  | ident (pos : Position) (name : String)
  /-- The receiver of the enclosing method. -/
  | receiver (pos : Position)
  | binary (pos : Position) (op : BinaryOp) (left right : Expr)
  | unary (pos : Position) (op : UnaryOp) (operand : Expr)
  /-- Short-circuit conjunction. -/
  | conj (pos : Position) (left right : Expr)
  /-- Short-circuit disjunction. -/
  | disj (pos : Position) (left right : Expr)
  | conditional (pos : Position) (condition thenExpr elseExpr : Expr)
  | assign (pos : Position) (target value : Expr)
  /-- `target op= value`. -/
  | compound (pos : Position) (op : BinaryOp) (target value : Expr)
  | call (pos : Position) (callee : Expr) (arguments : List Expr)
  | member (pos : Position) (object : Expr) (name : String)
  | index (pos : Position) (object index : Expr)
  /-- `super.m(args)`, or `super(args)` for the superclass method of the same name. -/
  | superCall (pos : Position) (method : Option String) (arguments : List Expr)
  /-- `super.m` as a bound method. -/
  | superMember (pos : Position) (method : Option String)
  | list (pos : Position) (items : List Expr)
  | tuple (pos : Position) (items : List Expr)
  | table (pos : Position) (entries : List (Expr × Expr))
  /-- A function literal. -/
  | function (pos : Position) (decl : FunctionDecl)
  /-- `...e`, allowed among call arguments and the items of lists and tuples. -/
  | spread (pos : Position) (inner : Expr)
  /-- `yield` or `yield e`. -/
  | yield (pos : Position) (value : Option Expr)

/-- A parameter of a function or of a native declaration. -/
structure Parameter where
  /-- The parameter's name. -/
  name : String
  /-- The value taken when no argument is given. It has to be a literal. -/
  default : Option Expr
  /-- Names the argument is unpacked into; empty for a plain parameter. -/
  pattern : List String

/-- A function or method declaration. -/
structure FunctionDecl where
  /-- The function's name, empty for an anonymous literal. -/
  name : String
  /-- Declared parameters. -/
  params : List Parameter
  /-- Name bound to the tuple of further arguments. -/
  vararg : Option String
  /-- The body. -/
  body : List Stmt
  /-- Where the declaration stands. -/
  pos : Position

/-- A function implemented by the host. -/
structure NativeDecl where
  /-- The name under which the host registered it. -/
  name : String
  /-- Declared parameters. -/
  params : List Parameter
  /-- Name of the tuple of further arguments. -/
  vararg : Option String
  /-- Where the declaration stands. -/
  pos : Position

/-- A method of a class. -/
inductive Method where
  | function (decl : FunctionDecl)
  | native (decl : NativeDecl)

/-- One `except` clause. -/
structure ExceptClause where
  /-- Where the clause stands. -/
  pos : Position
  /-- The class that is caught. -/
  exceptionClass : Expr
  /-- The name bound to the exception. -/
  binder : String
  /-- What is run. -/
  body : Stmt

/-- Statements. -/
inductive Stmt where
  | expression (pos : Position) (e : Expr)
  /-- `var a = x`, or `var a, b = x` with `x` unpacked. -/
  | declare (pos : Position) (names : List String) (initial : Option Expr)
  | block (pos : Position) (body : List Stmt)
  | branch (pos : Position) (condition : Expr) (thenBranch : Stmt) (elseBranch : Option Stmt)
  | whileLoop (pos : Position) (condition : Expr) (body : Stmt)
  | forLoop (pos : Position) (initial : Option Stmt) (condition step : Option Expr) (body : Stmt)
  | forEach (pos : Position) (names : List String) (iterable : Expr) (body : Stmt)
  | breakLoop (pos : Position)
  | continueLoop (pos : Position)
  | returnValue (pos : Position) (value : Option Expr)
  | raise (pos : Position) (value : Expr)
  /-- `try` with its clauses and an optional `ensure`. -/
  | guarded (pos : Position) (body : Stmt) (clauses : List ExceptClause) (ensure : Option Stmt)
  /-- `with x = e`: `x.close()` runs when the body is left, unless `x` is falsy. -/
  | withResource (pos : Position) (binder : String) (value : Expr) (body : Stmt)
  | function (pos : Position) (decl : FunctionDecl)
  | native (pos : Position) (decl : NativeDecl)
  | classDef (pos : Position) (name : String) (superclass : Option Expr) (methods : List Method)
  | importModule (pos : Position) (decl : Import)

end

/-- Where an expression stands. -/
def Expr.pos : Expr → Position
  | .number p _ | .string p _ | .bool p _ | .null p | .ident p _ | .receiver p
  | .binary p _ _ _ | .unary p _ _ | .conj p _ _ | .disj p _ _ | .conditional p _ _ _
  | .assign p _ _ | .compound p _ _ _ | .call p _ _ | .member p _ _ | .index p _ _
  | .superCall p _ _ | .superMember p _ | .list p _ | .tuple p _ | .table p _ | .function p _
  | .spread p _ | .yield p _ => p

/-- Where a statement stands. -/
def Stmt.pos : Stmt → Position
  | .expression p _ | .declare p _ _ | .block p _ | .branch p _ _ _ | .whileLoop p _ _
  | .forLoop p _ _ _ _ | .forEach p _ _ _ | .breakLoop p | .continueLoop p | .returnValue p _
  | .raise p _ | .guarded p _ _ _ | .withResource p _ _ _ | .function p _ | .native p _
  | .classDef p _ _ _ | .importModule p _ => p

/-- The name a method is declared under. -/
def Method.name : Method → String
  | .function d => d.name
  | .native d => d.name

/-- A compilation unit. -/
structure Program where
  /-- The file named in diagnostics. -/
  file : String
  /-- Top-level statements. -/
  body : List Stmt

/-- Whether an expression is a literal that can be a parameter's default. -/
def Expr.isLiteral : Expr → Bool
  | .number .. | .string .. | .bool .. | .null .. => true
  | _ => false

/-- Whether an expression is a spread. -/
def Expr.isSpread : Expr → Bool
  | .spread .. => true
  | _ => false

/-- Whether one of the items is a spread. -/
def hasSpread (items : List Expr) : Bool := items.any Expr.isSpread

end ScriptEngine.Source
