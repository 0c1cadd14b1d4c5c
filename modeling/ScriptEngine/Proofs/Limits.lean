import Mathlib.Data.List.Dedup
import Mathlib.Data.List.Perm.Subperm
import ScriptEngine.Proofs.Validity

/-!
# Programs within the size limits

How much room a program needs, read off the program tree alone. The `Extent` of a piece of a program
says what its code takes up in the function it stands in: the instructions, the constants, the
captured variables. A program fits if it stays within the limits everywhere:

* a call passes 255 arguments at most, a function has as many parameters, and as many names are
  unpacked at once;
* a list, a tuple or a table is written with 65535 items at most;
* a function has 65536 locals at a time, captures as many variables and has as many constants, where
  a number or a text counts once;
* no jump covers more than 65535 instructions;
* of the instructions one after another from one line there are fewer than two to the power of 32.

What a piece takes up depends on what surrounds it, its `Situation`: a jump out of a loop drops the locals
made in the loop, and emits the `ensure` parts of the `try` statements that it leaves once more.
-/

namespace ScriptEngine.Source

open Bytecode (Chunk)
open Compile (FunctionState FunctionKind maxArguments maxElements)

/-! ## Extents -/

/-- A constant that is entered once into the pool of a function. -/
inductive Literal where
  | number (bits : UInt64)
  | text (s : String)
  deriving DecidableEq

/-- What a piece of a program takes up in the function it stands in. -/
structure Extent where
  /-- The line of every instruction. -/
  lines : List UInt32
  /-- Constants that are entered once. -/
  literals : List Literal
  /-- How many constants are entered each time. -/
  functions : Nat
  /-- Captured variables. -/
  captured : List String
  /-- Whether everything in it is within the limits. -/
  fits : Bool

/-- The length of the longest run of equal elements. -/
def longestRun : List UInt32 → Nat
  | [] => 0
  | l :: rest => max ((rest.takeWhile (· == l)).length + 1) (longestRun rest)

namespace Extent

/-- What no code takes up. -/
def nothing : Extent := ⟨[], [], 0, [], true⟩

/-- One piece after another. -/
def append (x y : Extent) : Extent :=
  ⟨x.lines ++ y.lines, x.literals ++ y.literals, x.functions + y.functions,
    x.captured ++ y.captured, x.fits && y.fits⟩

instance : Append Extent := ⟨append⟩

/-- How many instructions there are. -/
def size (x : Extent) : Nat := x.lines.length

/-- Instructions from one line. -/
def ops (line count : Nat) : Extent := { nothing with lines := List.replicate count (.ofNat line) }

/-- A constant that is entered once. -/
def literal (l : Literal) : Extent := { nothing with literals := [l] }

/-- A name in the constant pool. -/
def name (s : String) : Extent := literal (.text s)

/-- A constant that is entered each time. -/
def function : Extent := { nothing with functions := 1 }

/-- Captured variables. -/
def captures (names : List String) : Extent := { nothing with captured := names }

/-- A limit that is to be kept. -/
def limit (b : Bool) : Extent := { nothing with fits := b }

/-- What is jumped over. -/
def skipped (x : Extent) : Extent := x ++ limit (x.size ≤ Chunk.maxJump)

/-- What is repeated, with the jump back. -/
def repeated (line : Nat) (x : Extent) : Extent := x ++ limit (x.size < Chunk.maxJump) ++ ops line 1

/-- Binding the value on top of the stack to a global at the top level, and else to a local. -/
def definition (top : Bool) (room : Extent) (s : String) (line : Nat) : Extent :=
  if top then name s ++ ops line 1 else room

/-- `try` with except clauses alone. There has to be room for its hidden locals. -/
def tryClauses (line : Nat) (room body clauses : Extent) : Extent :=
  ops line 1 ++ skipped (body ++ ops line 1 ++ room ++ ops line 1) ++ skipped (clauses ++ ops line 3)

/-- `try` with an `ensure` part alone. -/
def tryEnsure (line : Nat) (room body ensure : Extent) : Extent :=
  ops line 1 ++ skipped (body ++ ops line 3 ++ room) ++ ensure ++ ops line 3

/-- `try` with both. -/
def tryBoth (line : Nat) (room body clauses ensure : Extent) : Extent :=
  ops line 1 ++
    skipped (ops line 1 ++ skipped (body ++ ops line 4 ++ room ++ ops line 1) ++
      skipped (clauses ++ ops line 1)) ++
    ensure ++ ops line 3

/-- Closing the resource that a variable holds, unless it is falsy. -/
def close (access : Extent) (line : Nat) : Extent :=
  access ++ ops line 1 ++ skipped (access ++ name "close" ++ ops line 2)

/-- Whether a function that takes up this much keeps the limits. -/
def within (x : Extent) : Bool :=
  x.fits && decide (x.literals.dedup.length + x.functions ≤ Chunk.maxConstants) &&
    decide (x.captured.dedup.length ≤ FunctionState.maxUpvalues) &&
    decide (longestRun x.lines < 4294967296)

end Extent

/-! ## What surrounds a piece of a program -/

/-- A `try` statement that a jump leaves. -/
structure Exit where
  /-- Locals on the frame where it begins. -/
  locals : Nat
  /-- Handlers of it that are removed. -/
  handlers : Nat
  /-- What its `ensure` part takes up. -/
  ensure : Extent

/-- What surrounds a piece of a program, as far as its size goes. -/
structure Situation where
  /-- Whether the function is a generator. -/
  generator : Bool
  /-- Name of the method it stands in. -/
  method : Option String
  /-- Whether declarations make globals. -/
  top : Bool
  /-- Names of the locals on the frame, innermost first. -/
  locals : List String
  /-- Names of the locals of the functions around. -/
  outer : List String
  /-- Locals on the frame where the innermost loop begins. -/
  loop : Nat
  /-- The `try` statements around it in that loop, innermost first. -/
  leaving : List Exit

/-- The names of the locals that parameters are, the first parameter being number `i`. A parameter
that is unpacked is held in a hidden local. -/
def argumentNames : Nat → List Parameter → List String
  | _, [] => []
  | i, p :: rest =>
    (if p.pattern.isEmpty then p.name else ".arg" ++ toString i) :: argumentNames (i + 1) rest

namespace Situation

open Extent

variable (f : Situation)

/-- The top level of a script. -/
def script : Situation := ⟨false, none, true, [""], [], 0, []⟩

/-- In a scope of its own. -/
def inner : Situation := { f with top := false }

/-- Behind the declaration of names. -/
def bind (names : List String) : Situation :=
  if f.top then f else { f with locals := names.reverse ++ f.locals }

/-- In a loop. -/
def looped : Situation := { f.inner with loop := f.locals.length, leaving := [] }

/-- In a `try` statement. -/
def guarded (handlers : Nat) (ensure : Extent) : Situation :=
  { f.inner with leaving := ⟨f.locals.length, handlers, ensure⟩ :: f.leaving }

/-- Behind the handlers of a `try` statement, where hidden locals hold what was raised. -/
def handling : Situation := f.inner.bind [".exception", ".cause"]

/-- In a method. -/
def inMethod (name : String) : Situation := { f with method := some name }

/-- At the beginning of the body of a function. -/
def function (kind : FunctionKind) (generator : Bool) (params : List Parameter)
    (vararg : Option String) : Situation :=
  { generator
    method := f.method
    top := false
    locals := (params.flatMap Parameter.pattern).reverse ++ (vararg.toList.reverse ++
      ((argumentNames 0 params).reverse ++ [kind.slotZero]))
    outer := f.locals ++ f.outer
    loop := 0
    leaving := [] }

/-- The use of a variable. A global is found by its name. -/
def use (s : String) : Extent :=
  if s ∈ f.locals then nothing else if s ∈ f.outer then captures [s] else name s

/-- Reading or writing a variable. -/
def access (s : String) (line : Nat) : Extent := f.use s ++ ops line 1

/-- Room for more locals. -/
def room (count : Nat) : Extent := limit (f.locals.length + count ≤ FunctionState.maxLocals)

/-- Binding the value on top of the stack to a name. -/
def define (s : String) (line : Nat) : Extent := definition f.top (f.room 1) s line

/-- A return with the value on top of the stack. -/
def finish (line : Nat) : Extent := ops line (f.generator.toNat + 1)

/-- Leaving `try` statements with some locals on the frame. -/
def leave (line : Nat) : Nat → List Exit → Extent
  | _, [] => nothing
  | count, e :: rest =>
    ops line (count - e.locals) ++ ops line e.handlers ++ e.ensure ++ leave line e.locals rest

/-- A jump out of the innermost loop or to its next round. -/
def exit (line : Nat) : Extent :=
  leave line f.locals.length f.leaving ++ ops line (f.locals.length - f.loop) ++ ops line 1

/-- The names of an import that binds some globals of the module. -/
def importNames (line : Nat) : Situation → List String → Extent
  | _, [] => nothing
  | f, s :: rest => name s ++ ops line 1 ++ f.define s line ++ importNames line (f.bind [s]) rest

end Situation

namespace Extent

/-- Binding values on the stack to globals. -/
def globals (line : Nat) : List String → Extent
  | [] => nothing
  | s :: rest => name s ++ ops line 1 ++ globals line rest

/-- Declaring variables whose values take up as much as is given. -/
def declaration (top : Bool) (room values : Extent) (names : List String) (line : Nat) : Extent :=
  (if top then nothing else room) ++ values ++
    (if top then globals line names.reverse else nothing)

/-- Unpacking a value into names, if they are several. -/
def unpack (names : List String) (line : Nat) : Extent :=
  if names.length > 1 then limit (names.length ≤ maxArguments) ++ ops line 1 else nothing

/-- Unpacking the parameters that are unpacked. -/
def unpackings (line : Nat) : List Parameter → Extent
  | [] => nothing
  | p :: rest =>
    (if p.pattern.isEmpty then nothing
      else limit (p.pattern.length ≤ maxArguments) ++ ops line 2) ++ unpackings line rest

/-- The code of a function whose body takes up as much as is given, with room for its locals. -/
def code (room : Extent) (generator : Bool) (params : List Parameter) (body : Extent)
    (line endLine : Nat) : Extent :=
  room ++ ops line generator.toNat ++ unpackings line params ++ body ++ ops endLine 1 ++
    ops endLine (generator.toNat + 1)

/-- Making a closure of a function with some parameters and some code. What the function captures and
is no local here is captured here, too. -/
def closure (locals : List String) (params : List Parameter) (code : Extent) (line : Nat) : Extent :=
  limit (params.length ≤ maxArguments) ++ limit code.within ++
    captures (code.captured.filter (· ∉ locals)) ++ function ++ ops line 1

/-- Entering the declaration of a host function. -/
def native (d : NativeDecl) : Extent := limit (d.params.length ≤ maxArguments) ++ function

/-- The empty list that items, some of them spread, are added to. -/
def listStart : List Expr → Extent
  | [] => nothing
  | e :: _ => ops e.pos.line 1

/-- The instructions of a binary operator. -/
def binary (op : BinaryOp) (line : Nat) : Extent := ops line (if op = .notEqual then 2 else 1)

/-- The instruction of a unary operator. Length and text are method calls. -/
def unary (op : UnaryOp) (line : Nat) : Extent :=
  (match op with
    | .length => name "__len__"
    | .stringify => name "__string__"
    | _ => nothing) ++ ops line 1

end Extent

/-- The line of the last statement, or a default for none. -/
def endLine (body : List Stmt) (otherwise : Nat) : Nat :=
  (body.getLast?.map fun s => s.pos.line).getD otherwise

/-! ## The extents of programs -/

open Extent

mutual

/-- What an expression takes up. -/
def Expr.extent (f : Situation) : Expr → Extent
  | .number pos n => literal (.number n.bits) ++ ops pos.line 1
  | .string pos s => literal (.text s) ++ ops pos.line 1
  | .bool pos _ | .null pos => ops pos.line 1
  | .ident pos s => f.access s pos.line
  | .receiver pos => f.access "this" pos.line
  | .binary pos op l r => l.extent f ++ r.extent f ++ binary op pos.line
  | .unary pos op e => e.extent f ++ unary op pos.line
  | .conj pos l r | .disj pos l r =>
    l.extent f ++ ops pos.line 2 ++ skipped (ops pos.line 1 ++ r.extent f)
  | .conditional pos c a b =>
    c.extent f ++ ops pos.line 1 ++ skipped (a.extent f ++ ops pos.line 1) ++ skipped (b.extent f)
  | .assign _ (.ident pos s) value => value.extent f ++ f.access s pos.line
  | .assign _ (.member pos object s) value =>
    object.extent f ++ value.extent f ++ name s ++ ops pos.line 1
  | .assign _ (.index pos object index) value =>
    object.extent f ++ index.extent f ++ value.extent f ++ ops pos.line 1
  | .assign _ _ _ => nothing
  | .compound _ op (.ident pos s) value =>
    f.access s pos.line ++ value.extent f ++ binary op pos.line ++ f.access s pos.line
  | .compound _ op (.member pos object s) value =>
    name s ++ object.extent f ++ ops pos.line 2 ++ value.extent f ++ binary op pos.line ++
      ops pos.line 1
  | .compound _ op (.index pos object index) value =>
    object.extent f ++ index.extent f ++ ops pos.line 2 ++ value.extent f ++ binary op pos.line ++
      ops pos.line 1
  | .compound _ _ _ _ => nothing
  | .call pos (.member _ object s) arguments =>
    object.extent f ++
      (if hasSpread arguments then listStart arguments ++ Expr.spreadExtent f arguments
        else limit (arguments.length ≤ maxArguments) ++ Expr.allExtent f arguments) ++
      name s ++ ops pos.line 1
  | .call pos callee arguments =>
    callee.extent f ++
      (if hasSpread arguments then listStart arguments ++ Expr.spreadExtent f arguments
        else limit (arguments.length ≤ maxArguments) ++ Expr.allExtent f arguments) ++
      ops pos.line 1
  | .member pos object s => object.extent f ++ name s ++ ops pos.line 1
  | .index pos object index => object.extent f ++ index.extent f ++ ops pos.line 1
  | .superCall pos method arguments =>
    f.access "this" pos.line ++
      (if hasSpread arguments then listStart arguments ++ Expr.spreadExtent f arguments
        else limit (arguments.length ≤ maxArguments) ++ Expr.allExtent f arguments) ++
      f.access "super" pos.line ++ name (method.getD (f.method.getD "")) ++ ops pos.line 1
  | .superMember pos method =>
    f.access "this" pos.line ++ f.access "super" pos.line ++
      name (method.getD (f.method.getD "")) ++ ops pos.line 1
  | .list pos items =>
    if hasSpread items then listStart items ++ Expr.spreadExtent f items
    else limit (items.length ≤ maxElements) ++ Expr.allExtent f items ++ ops pos.line 1
  | .tuple pos items =>
    (if hasSpread items then listStart items ++ Expr.spreadExtent f items
      else limit (items.length ≤ maxElements) ++ Expr.allExtent f items) ++ ops pos.line 1
  | .table pos entries =>
    limit (entries.length ≤ maxElements) ++ Expr.entriesExtent f entries ++ ops pos.line 1
  | .function _ ⟨_, params, vararg, body, pos⟩ =>
    let g := f.function .function (Stmt.yieldsAny body) params vararg
    closure f.locals params
      (code (g.room 0) g.generator params (Stmt.allExtent g body) pos.line (endLine body pos.line))
      pos.line
  | .spread _ _ => nothing
  | .yield pos value =>
    (match value with
      | some e => e.extent f
      | none => ops pos.line 1) ++ ops pos.line 1

/-- What expressions take up one after another. -/
def Expr.allExtent (f : Situation) : List Expr → Extent
  | [] => nothing
  | e :: rest => e.extent f ++ Expr.allExtent f rest

/-- What items take up that are added to a list one by one. -/
def Expr.spreadExtent (f : Situation) : List Expr → Extent
  | [] => nothing
  | .spread pos e :: rest => e.extent f ++ ops pos.line 1 ++ Expr.spreadExtent f rest
  | e :: rest => e.extent f ++ ops e.pos.line 1 ++ Expr.spreadExtent f rest

/-- What the entries of a table take up. -/
def Expr.entriesExtent (f : Situation) : List (Expr × Expr) → Extent
  | [] => nothing
  | (k, v) :: rest => k.extent f ++ v.extent f ++ Expr.entriesExtent f rest

/-- What a statement takes up. -/
def Stmt.extent (f : Situation) : Stmt → Extent
  | .expression pos e | .raise pos e => e.extent f ++ ops pos.line 1
  | .declare pos names initial =>
    declaration f.top (f.room names.length)
      (match initial with
        | some e => e.extent (f.bind names) ++ unpack names pos.line
        | none => ops pos.line names.length) names pos.line
  | .block pos body =>
    Stmt.allExtent f.inner body ++ ops pos.line (body.flatMap Stmt.names).length
  | .branch pos c t (some e) =>
    c.extent f ++ ops pos.line 1 ++ skipped (t.extent f.inner ++ ops pos.line 1) ++
      skipped (e.extent f.inner)
  | .branch pos c t none => c.extent f ++ ops pos.line 1 ++ skipped (t.extent f.inner)
  | .whileLoop pos c body =>
    repeated pos.line (c.extent f.looped ++ ops pos.line 1 ++ body.extent f.looped)
  | .forLoop pos initial condition step body =>
    let names := match initial with
      | some s => s.names
      | none => []
    let g := f.inner.bind names
    (match initial with
      | some s => s.extent f.inner
      | none => nothing) ++
    repeated pos.line
      ((match condition with
        | some e => e.extent g ++ ops pos.line 1
        | none => nothing) ++
      body.extent g.looped ++
      (match step with
        | some e => e.extent g.looped ++ ops pos.line 1
        | none => nothing)) ++
    ops pos.line names.length
  | .forEach pos names iterable body =>
    let g := f.inner.bind [".expr", ".iter", ".__iter__", ".__next__"]
    iterable.extent f.inner ++ f.room 4 ++ ops pos.line 2 ++
      repeated pos.line
        (ops pos.line 2 ++ unpack names pos.line ++ g.room names.length ++
          body.extent (g.looped.bind names) ++ ops pos.line names.length) ++
      ops pos.line 4
  | .breakLoop pos | .continueLoop pos => f.exit pos.line
  | .returnValue pos value =>
    (match value with
      | some e => e.extent f
      | none => ops pos.line 1) ++ f.finish pos.line
  | .guarded pos body clauses none =>
    tryClauses pos.line (f.room 2) (body.extent (f.guarded 1 nothing))
      (ExceptClause.allExtent (f.guarded 0 nothing).handling clauses)
  | .guarded pos body [] (some s) =>
    tryEnsure pos.line (f.room 2) (body.extent (f.guarded 1 (s.extent f.inner)))
      (s.extent (f.guarded 0 nothing).handling)
  | .guarded pos body clauses (some s) =>
    tryBoth pos.line (f.room 2) (body.extent (f.guarded 2 (s.extent f.inner)))
      (ExceptClause.allExtent (f.guarded 1 (s.extent f.inner)).handling clauses)
      (s.extent (f.guarded 0 nothing).handling)
  | .withResource pos s value body =>
    let g := f.inner.bind [s]
    let h := g.guarded 1 (close (g.access s pos.line) pos.line)
    f.room 1 ++ ops pos.line 1 ++
      tryEnsure pos.line (g.room 2)
        (value.extent h ++ h.access s pos.line ++ ops pos.line 1 ++ body.extent h)
        (close (g.handling.access s pos.line) pos.line) ++
      ops pos.line 1
  | .function _ ⟨s, params, vararg, body, pos⟩ =>
    let h := f.bind [s]
    let g := h.function .function (Stmt.yieldsAny body) params vararg
    (if f.top then nothing else f.room 1) ++
      closure h.locals params
        (code (g.room 0) g.generator params (Stmt.allExtent g body) pos.line
          (endLine body pos.line)) pos.line ++
      (if f.top then name s ++ ops pos.line 1 else nothing)
  | .native pos d => native d ++ ops pos.line 1 ++ f.define d.name d.pos.line
  | .classDef pos s superclass methods =>
    let g := (f.bind [s]).inner
    name s ++ ops pos.line 1 ++ f.define s pos.line ++
      (match superclass with
        | some e => e.extent g
        | none => ops pos.line 1) ++
      g.room 1 ++ (g.bind ["super"]).access s pos.line ++ ops pos.line 1 ++
      Method.allExtent (g.bind ["super"]) methods ++ ops pos.line 2
  | .importModule pos d =>
    name d.module ++
      match d.items with
      | .module _ => ops pos.line 2 ++ f.define d.bindingName pos.line
      | .names names => ops pos.line 2 ++ f.importNames pos.line names
      | .all => ops pos.line 3

/-- What statements take up one after another. -/
def Stmt.allExtent (f : Situation) : List Stmt → Extent
  | [] => nothing
  | s :: rest => s.extent f ++ Stmt.allExtent (f.bind s.names) rest

/-- What except clauses take up. From each the clauses behind it are jumped over. -/
def ExceptClause.allExtent (f : Situation) : List ExceptClause → Extent
  | [] => nothing
  | ⟨pos, exceptionClass, binder, body⟩ :: rest =>
    ops pos.line 1 ++ exceptionClass.extent f ++ ops pos.line 2 ++
      skipped (f.room 1 ++ ops pos.line 1 ++ body.extent (f.inner.bind [binder]) ++
        ops pos.line 4 ++ ops pos.line (!rest.isEmpty).toNat) ++
      skipped (ExceptClause.allExtent f rest)

/-- What the methods of a class take up. -/
def Method.allExtent (f : Situation) : List Method → Extent
  | [] => nothing
  | .function ⟨s, params, vararg, body, pos⟩ :: rest =>
    let g := (f.inMethod s).function (if s == "construct" then .constructor else .method)
      (Stmt.yieldsAny body) params vararg
    closure f.locals params
        (code (g.room 0) g.generator params (Stmt.allExtent g body) pos.line
          (endLine body pos.line)) pos.line ++
      name s ++ ops pos.line 1 ++ Method.allExtent f rest
  | .native d :: rest => native d ++ ops d.pos.line 1 ++ Method.allExtent f rest

end

/-- What the top-level code of a program takes up. -/
def Program.extent (program : Program) : Extent :=
  Stmt.allExtent .script program.body ++ ops (endLine program.body 1) 2

/-- Whether a program stays within the limits. -/
def Program.fits (program : Program) : Bool := program.extent.within

section Equations

open Extent

variable {f : Situation} {pos : Position}

/-- What a call of something that is no method takes up. -/
theorem Expr.extent_call {callee : Expr} {arguments : List Expr}
    (hmethod : ∀ pos object name, callee = .member pos object name → False) :
    (Expr.call pos callee arguments).extent f =
      callee.extent f ++
        (if hasSpread arguments then listStart arguments ++ Expr.spreadExtent f arguments
          else limit (arguments.length ≤ maxArguments) ++ Expr.allExtent f arguments) ++
        ops pos.line 1 := by
  rw [Expr.extent]
  exact hmethod

/-- What a counting loop takes up. -/
theorem Stmt.extent_forLoop (initial : Option Stmt) (condition step : Option Expr) (body : Stmt) :
    (Stmt.forLoop pos initial condition step body).extent f =
      initial.elim nothing (Stmt.extent f.inner) ++
        repeated pos.line
          (condition.elim nothing (fun e => e.extent
              (f.inner.bind ((initial.map Stmt.names).getD [])) ++ ops pos.line 1) ++
            body.extent (f.inner.bind ((initial.map Stmt.names).getD [])).looped ++
            step.elim nothing (fun e => e.extent
              (f.inner.bind ((initial.map Stmt.names).getD [])).looped ++ ops pos.line 1)) ++
        ops pos.line ((initial.map Stmt.names).getD []).length := by
  cases initial <;> cases condition <;> cases step <;> rfl

/-- What a `try` statement without an `ensure` part takes up. -/
theorem Stmt.extent_tryClauses (body : Stmt) (clauses : List ExceptClause) :
    (Stmt.guarded pos body clauses none).extent f =
      tryClauses pos.line (f.room 2) (body.extent (f.guarded 1 nothing))
        (ExceptClause.allExtent (f.guarded 0 nothing).handling clauses) := by
  rw [Stmt.extent]

end Equations

/-! ## Parts of extents -/

/-- Lines put together have a run at least as long as the longest of the first. -/
theorem longestRun_le_append (xs ys : List UInt32) : longestRun xs ≤ longestRun (xs ++ ys) := by
  have takeWhile_le : ∀ (p : UInt32 → Bool) (xs : List UInt32),
      (xs.takeWhile p).length ≤ ((xs ++ ys).takeWhile p).length := by
    intro p xs
    induction xs with
    | nil => exact Nat.zero_le _
    | cons x xs ih =>
      rw [List.cons_append, List.takeWhile_cons, List.takeWhile_cons]
      split
      · exact Nat.succ_le_succ ih
      · exact Nat.le_refl _
  induction xs with
  | nil => exact Nat.zero_le _
  | cons x xs ih =>
    rw [List.cons_append, longestRun, longestRun]
    have hle := takeWhile_le (· == x) xs
    omega

/-- A run at the end is no longer than the longest one. -/
theorem le_longestRun {n : Nat} {l : UInt32} {xs : List UInt32}
    (h : List.replicate n l <:+ xs) : n ≤ longestRun xs := by
  obtain ⟨before, rfl⟩ := h
  induction before with
  | nil =>
    cases n with
    | zero => exact Nat.zero_le _
    | succ n =>
      rw [List.nil_append, List.replicate_succ, longestRun, List.takeWhile_replicate, beq_self_eq_true,
        if_pos rfl, List.length_replicate]
      exact Nat.le_max_left _ _
  | cons x before ih =>
    rw [List.cons_append, longestRun]
    omega

namespace Extent

variable (x y z : Extent)

@[simp] theorem lines_append : (x ++ y).lines = x.lines ++ y.lines := rfl

@[simp] theorem literals_append : (x ++ y).literals = x.literals ++ y.literals := rfl

@[simp] theorem functions_append : (x ++ y).functions = x.functions + y.functions := rfl

@[simp] theorem captured_append : (x ++ y).captured = x.captured ++ y.captured := rfl

@[simp] theorem fits_append : (x ++ y).fits = (x.fits && y.fits) := rfl

@[simp] theorem size_append : (x ++ y).size = x.size + y.size := List.length_append

@[simp] theorem size_nothing : nothing.size = 0 := rfl

@[simp] theorem size_ops (line count : Nat) : (ops line count).size = count := List.length_replicate

@[simp] theorem size_literal (l : Literal) : (literal l).size = 0 := rfl

@[simp] theorem size_name (s : String) : (name s).size = 0 := rfl

@[simp] theorem size_function : function.size = 0 := rfl

@[simp] theorem size_captures (names : List String) : (captures names).size = 0 := rfl

@[simp] theorem size_limit (b : Bool) : (limit b).size = 0 := rfl

@[simp] theorem fits_limit (b : Bool) : (limit b).fits = b := rfl

@[simp] theorem fits_ops (line count : Nat) : (ops line count).fits = true := rfl

/-- Extents are put together in any grouping. -/
theorem append_assoc : x ++ y ++ z = x ++ (y ++ z) := by
  change append (append x y) z = append x (append y z)
  simp only [append, List.append_assoc, Nat.add_assoc, Bool.and_assoc]

@[simp] theorem append_nothing : x ++ nothing = x := by
  change append x nothing = x
  simp [append, nothing]

@[simp] theorem nothing_append : nothing ++ x = x := by
  change append nothing x = x
  simp [append, nothing]

/-- Instructions from one line, some after others. -/
theorem ops_add (line m n : Nat) : ops line (m + n) = ops line m ++ ops line n := by
  change _ = append (ops line m) (ops line n)
  simp [ops, append, nothing, List.replicate_append_replicate]

/-- A limit may stand anywhere. -/
theorem limit_append_comm (b : Bool) : limit b ++ x = x ++ limit b := by
  change append (limit b) x = append x (limit b)
  simp [limit, append, nothing, Bool.and_comm]

@[simp] theorem limit_true : limit true = nothing := rfl

@[simp] theorem ops_zero (line : Nat) : ops line 0 = nothing := rfl

/-- An extent is part of another, as what comes first. -/
structure Below (x y : Extent) : Prop where
  /-- Instructions follow. -/
  lines : x.lines <+: y.lines
  /-- No constant is lost. -/
  literals : x.literals ⊆ y.literals
  /-- Nor are constants that are entered each time. -/
  functions : x.functions ≤ y.functions
  /-- Nor are captured variables. -/
  captured : x.captured ⊆ y.captured
  /-- The whole fits only if the part does. -/
  fits : y.fits = true → x.fits = true

variable {x y z}

theorem Below.refl (x : Extent) : x.Below x :=
  ⟨List.prefix_refl _, List.Subset.refl _, Nat.le_refl _, List.Subset.refl _, id⟩

/-- An extent is below what it is put together with. -/
theorem below_append (x y : Extent) : x.Below (x ++ y) where
  lines := List.prefix_append _ _
  literals := List.subset_append_left _ _
  functions := Nat.le_add_right _ _
  captured := List.subset_append_left _ _
  fits h := (Bool.and_eq_true_iff.1 h).1

/-- An extent below another is no larger. -/
theorem Below.size (h : x.Below y) : x.size ≤ y.size := h.lines.length_le

/-- A list within another has no more different elements. -/
theorem length_dedup_le {α : Type} [DecidableEq α] {xs ys : List α} (h : xs ⊆ ys) :
    xs.dedup.length ≤ ys.dedup.length :=
  (List.subperm_of_subset xs.nodup_dedup fun _ hx =>
    List.mem_dedup.2 (h (List.mem_dedup.1 hx))).length_le

/-- An extent is within the limits if its parts are: the sizes of the code, the constants, the
captured variables and the runs of lines. -/
theorem within_iff : x.within = true ↔ x.fits = true ∧
    x.literals.dedup.length + x.functions ≤ Chunk.maxConstants ∧
    x.captured.dedup.length ≤ FunctionState.maxUpvalues ∧ longestRun x.lines < 4294967296 := by
  simp [within, and_assoc]

/-- What keeps the limits keeps them from the beginning. -/
theorem Below.within (h : x.Below y) (hy : y.within = true) : x.within = true := by
  obtain ⟨hfits, hconstants, hcaptured, hlines⟩ := within_iff.1 hy
  obtain ⟨more, hmore⟩ := h.lines
  have hliterals := length_dedup_le h.literals
  have hfunctions := h.functions
  refine within_iff.2 ⟨h.fits hfits, by omega, ?_, ?_⟩
  · exact Nat.le_trans (length_dedup_le h.captured) hcaptured
  · exact Nat.lt_of_le_of_lt (hmore ▸ longestRun_le_append _ more) hlines

end Extent

end ScriptEngine.Source
