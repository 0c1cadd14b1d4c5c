import ScriptEngine.Proofs.Structure

/-!
# What names mean

A name means the innermost declaration in sight. What is in sight of a piece of code can be read off
the program tree: the binders on the frame of the function it stands in, and those on the frames of
the functions around it, each frame as it was where the next function begins. `touches` lists what
the code of a function does to variables, in order: reads, writes and closures, each of these with
what its own code does. A variable is given by its place, so nothing here depends on how code is
generated or how captured variables are numbered.

A `break` or `continue` runs the `ensure` parts of the `try` statements it leaves. Names in them mean
what they mean at those statements, so their touches are settled there and handed down in `pending`.
-/

namespace ScriptEngine.Source

/-! ## Frames -/

/-- What holds a slot of a frame. -/
inductive Binder where
  | named (name : String)
  /-- The receiver of a method. -/
  | receiver
  /-- The superclass of the class being defined. -/
  | superclass
  /-- A slot that no name means. -/
  | hidden
  deriving DecidableEq, Repr

/-- Where a variable lives, seen from a function. -/
inductive Place where
  /-- On the frame of the function itself. -/
  | own (slot : Nat)
  /-- On the frame of a function around it, not counting the next `levels` of them. -/
  | outer (levels slot : Nat)
  | global (name : String)
  deriving DecidableEq, Repr

/-- What code does to variables. -/
inductive Touch where
  | read (place : Place)
  | write (place : Place)
  /-- A closure is made of a function whose code has these touches. -/
  | closure (body : List Touch)
  deriving Repr

/-- The slot of the innermost binder that is `b`. A frame lists its binders innermost first, so that a
slot is the number of binders below. -/
def slotOf (b : Binder) : List Binder → Option Nat
  | [] => none
  | c :: below => if c = b then some below.length else slotOf b below

/-- The frame around a function, and the slot on it, of the innermost binder that is `b`. -/
def outerSlotOf (b : Binder) : List (List Binder) → Option (Nat × Nat)
  | [] => none
  | frame :: rest =>
    match slotOf b frame with
    | some slot => some (0, slot)
    | none => (outerSlotOf b rest).map fun (levels, slot) => (levels + 1, slot)

/-- What is in sight of a piece of code. -/
structure Sight where
  /-- The frame of the function it stands in. -/
  frame : List Binder
  /-- The frames of the functions around, innermost first. -/
  outer : List (List Binder)
  deriving Repr

namespace Sight

/-- The place of a binder, which goes by `name` if it is a global. -/
def place (v : Sight) (b : Binder) (name : String) : Place :=
  match slotOf b v.frame with
  | some slot => .own slot
  | none =>
    match outerSlotOf b v.outer with
    | some (levels, slot) => .outer levels slot
    | none => .global name

/-- The place of a variable. -/
def placeOf (v : Sight) (name : String) : Place := v.place (.named name) name

/-- The place of the receiver. -/
def receiver (v : Sight) : Place := v.place .receiver "this"

/-- The place of the superclass. -/
def superclass (v : Sight) : Place := v.place .superclass "super"

/-- More binders, the first of them innermost. -/
def bind (v : Sight) (bs : List Binder) : Sight := { v with frame := bs ++ v.frame }

/-- What is in sight at the beginning of a function. -/
def enter (v : Sight) (slotZero : Binder) : Sight := ⟨[slotZero], v.frame :: v.outer⟩

end Sight

/-- The binders of names that are declared one after another. -/
def bindersOf (names : List String) : List Binder := (names.map .named).reverse

/-! ## Functions -/

/-- The binder of a parameter. -/
def Parameter.binder (p : Parameter) : Binder :=
  if p.pattern.isEmpty then .named p.name else .hidden

/-- The binders of the names that parameters are unpacked into. -/
def patternBinders : List Parameter → List Binder
  | [] => []
  | p :: rest => patternBinders rest ++ bindersOf p.pattern

/-- Reads of the parameters that are unpacked, the first parameter being number `i`. -/
def patternTouches : Nat → List Parameter → List Touch
  | _, [] => []
  | i, p :: rest =>
    (if p.pattern.isEmpty then [] else [.read (.own (i + 1))]) ++ patternTouches (i + 1) rest

/-- What is in sight of the body of a function. -/
def Sight.body (v : Sight) (slotZero : Binder) (params : List Parameter) (vararg : Option String) :
    Sight :=
  (((v.enter slotZero).bind (params.map Parameter.binder).reverse).bind
    (bindersOf vararg.toList)).bind (patternBinders params)

/-- The touches of a function around those of its body. A constructor returns its receiver. -/
def functionTouches (constructs : Bool) (params : List Parameter) (body : List Touch) : Touch :=
  .closure (patternTouches 0 params ++ (body ++ if constructs then [.read (.own 0)] else []))

/-- What surrounds a statement. -/
structure Setting where
  /-- What is in sight. -/
  sight : Sight
  /-- Whether it stands in the body of a constructor. -/
  constructs : Bool
  /-- Touches of the `ensure` parts that leaving the innermost loop runs, innermost first. -/
  pending : List (List Touch)

namespace Setting

/-- More binders in sight. -/
def bind (c : Setting) (bs : List Binder) : Setting := { c with sight := c.sight.bind bs }

/-- Inside a `try` whose `ensure` part has these touches. -/
def guarded (c : Setting) (ensure : List Touch) : Setting :=
  { c with pending := ensure :: c.pending }

/-- Inside a loop. -/
def loop (c : Setting) : Setting := { c with pending := [] }

/-- At the beginning of a function's body. -/
def function (v : Sight) (constructs : Bool) : Setting := ⟨v, constructs, []⟩

end Setting

/-! ## Statements -/

/-- The binders an import adds. -/
def Import.binders (d : Import) : List Binder :=
  match d.items with
  | .module _ => [.named d.bindingName]
  | .names names => bindersOf names
  | .all => []

/-- The binders a statement adds to the scope it stands in. At the top level of a script declarations
make globals. -/
def Stmt.binders (top : Bool) (s : Stmt) : List Binder :=
  if top then []
  else
    match s with
    | .declare _ names _ => bindersOf names
    | .function _ d => [.named d.name]
    | .native _ d => [.named d.name]
    | .classDef _ name _ _ => [.named name]
    | .importModule _ d => d.binders
    | _ => []

/-- The hidden locals of an iteration. -/
def iterationBinders : List Binder := [.hidden, .hidden, .hidden, .hidden]

/-- The hidden locals of a `try`: the exception and the cause. -/
def handlerBinders : List Binder := [.hidden, .hidden]

mutual

/-- What an expression does to variables. -/
def Expr.touches (v : Sight) : Expr → List Touch
  | .number _ _ | .string _ _ | .bool _ _ | .null _ => []
  | .ident _ name => [.read (v.placeOf name)]
  | .receiver _ => [.read v.receiver]
  | .unary _ _ e | .spread _ e | .member _ e _ => e.touches v
  | .binary _ _ l r | .conj _ l r | .disj _ l r | .index _ l r => l.touches v ++ r.touches v
  | .conditional _ c a b => c.touches v ++ (a.touches v ++ b.touches v)
  | .assign _ (.ident _ name) value => value.touches v ++ [.write (v.placeOf name)]
  | .assign _ target value => target.touches v ++ value.touches v
  | .compound _ _ (.ident _ name) value =>
    .read (v.placeOf name) :: (value.touches v ++ [.write (v.placeOf name)])
  | .compound _ _ target value => target.touches v ++ value.touches v
  | .call _ callee arguments => callee.touches v ++ Expr.touchesAll v arguments
  | .superCall _ _ arguments =>
    .read v.receiver :: (Expr.touchesAll v arguments ++ [.read v.superclass])
  | .superMember _ _ => [.read v.receiver, .read v.superclass]
  | .list _ items | .tuple _ items => Expr.touchesAll v items
  | .table _ entries => Expr.touchesEntries v entries
  | .function _ ⟨_, params, vararg, body, _⟩ =>
    [functionTouches false params
      (Stmt.touchesAll (.function (v.body .hidden params vararg) false) false body)]
  | .yield _ value =>
    match value with
    | some e => e.touches v
    | none => []

/-- What expressions do one after another. -/
def Expr.touchesAll (v : Sight) : List Expr → List Touch
  | [] => []
  | e :: rest => e.touches v ++ Expr.touchesAll v rest

/-- What keys and values do one after another. -/
def Expr.touchesEntries (v : Sight) : List (Expr × Expr) → List Touch
  | [] => []
  | (k, x) :: rest => k.touches v ++ (x.touches v ++ Expr.touchesEntries v rest)

/-- What a statement does to variables. Whether it stands at the top level of a script matters only
if it declares something. -/
def Stmt.touches (c : Setting) (top : Bool) : Stmt → List Touch
  | .expression _ e | .raise _ e => e.touches c.sight
  | .declare _ _ initial =>
    match initial with
    | some e => e.touches c.sight
    | none => []
  | .block _ body => Stmt.touchesAll c false body
  | .branch _ condition t e =>
    condition.touches c.sight ++ (t.touches c false ++
      match e with
      | some e => e.touches c false
      | none => [])
  | .whileLoop _ condition body => condition.touches c.sight ++ body.touches c.loop false
  | .forLoop _ initial condition step body =>
    let inside := c.bind (match initial with
      | some s => s.binders false
      | none => [])
    (match initial with
      | some s => s.touches c false
      | none => []) ++
    ((match condition with
      | some e => e.touches inside.sight
      | none => []) ++
    (body.touches inside.loop false ++
      match step with
      | some e => e.touches inside.sight
      | none => []))
  | .forEach _ names iterable body =>
    iterable.touches c.sight ++
      body.touches ((c.bind iterationBinders).bind (bindersOf names)).loop false
  | .breakLoop _ | .continueLoop _ => c.pending.flatten
  | .returnValue _ value =>
    match value with
    | some e => e.touches c.sight
    | none => if c.constructs then [.read (.own 0)] else []
  | .guarded _ body clauses ensure =>
    let inlined :=
      match ensure with
      | some s => s.touches c false
      | none => []
    let handling := c.bind handlerBinders
    body.touches (c.guarded inlined) false ++
      (ExceptClause.touchesAll (handling.guarded inlined) c.sight.frame.length clauses ++
        match ensure with
        | some s => s.touches (handling.guarded []) false
        | none => [])
  | .withResource _ name value body =>
    -- the variable is in sight of the value
    let inside := c.bind [.named name]
    let close := [.read (inside.sight.placeOf name), .read (inside.sight.placeOf name)]
    let closing := inside.bind handlerBinders
    (value.touches inside.sight ++ (.write (inside.sight.placeOf name) ::
        body.touches (inside.guarded close) false)) ++
      [.read (closing.sight.placeOf name), .read (closing.sight.placeOf name)]
  | .function _ ⟨name, params, vararg, body, _⟩ =>
    -- a local function is in sight of its own body
    let v := if top then c.sight else c.sight.bind [.named name]
    [functionTouches false params
      (Stmt.touchesAll (.function (v.body .hidden params vararg) false) false body)]
  | .native _ _ | .importModule _ _ => []
  | .classDef _ name superclass methods =>
    let v := if top then c.sight else c.sight.bind [.named name]
    (match superclass with
      | some e => e.touches v
      | none => []) ++
    .read ((v.bind [.superclass]).placeOf name) :: Method.touchesAll (v.bind [.superclass]) methods

/-- What statements do one after another. A declaration is in sight of those behind it. -/
def Stmt.touchesAll (c : Setting) (top : Bool) : List Stmt → List Touch
  | [] => []
  | s :: rest => s.touches c top ++ Stmt.touchesAll (c.bind (s.binders top)) top rest

/-- What except clauses do, the exception being in `slot` and the cause in the next one. -/
def ExceptClause.touchesAll (c : Setting) (slot : Nat) : List ExceptClause → List Touch
  | [] => []
  | ⟨_, exceptionClass, binder, body⟩ :: rest =>
    .read (.own slot) :: (exceptionClass.touches c.sight ++ (.read (.own slot) ::
      (body.touches (c.bind [.named binder]) false ++ (.write (.own (slot + 1)) ::
        ExceptClause.touchesAll c slot rest))))

/-- What the definitions of methods do. -/
def Method.touchesAll (v : Sight) : List Method → List Touch
  | [] => []
  | .function ⟨name, params, vararg, body, _⟩ :: rest =>
    functionTouches (name == "construct") params
      (Stmt.touchesAll (.function (v.body .receiver params vararg) (name == "construct")) false
        body) :: Method.touchesAll v rest
  | .native _ :: rest => Method.touchesAll v rest

end

section

variable (c : Setting) (top : Bool) (pos : Position)

/-- What a counting loop touches: what its parts do, where all but the first see the names the first
binds. -/
theorem Stmt.touches_forLoop (initial : Option Stmt) (condition step : Option Expr) (body : Stmt) :
    (Stmt.forLoop pos initial condition step body).touches c top =
      (initial.map (Stmt.touches c false)).getD [] ++
      ((condition.map
        (Expr.touches (c.bind ((initial.map (Stmt.binders false)).getD [])).sight)).getD [] ++
      (body.touches (c.bind ((initial.map (Stmt.binders false)).getD [])).loop false ++
        (step.map
          (Expr.touches (c.bind ((initial.map (Stmt.binders false)).getD [])).sight)).getD [])) := by
  cases initial <;> cases condition <;> cases step <;> rfl

/-- What a guarded statement touches: what its parts do, with the `ensure` part again wherever the
body or a clause leaves it. -/
theorem Stmt.touches_guarded (body : Stmt) (clauses : List ExceptClause) (ensure : Option Stmt) :
    (Stmt.guarded pos body clauses ensure).touches c top =
      body.touches (c.guarded ((ensure.map (Stmt.touches c false)).getD [])) false ++
      (ExceptClause.touchesAll
        ((c.bind handlerBinders).guarded ((ensure.map (Stmt.touches c false)).getD []))
        c.sight.frame.length clauses ++
      (ensure.map (Stmt.touches ((c.bind handlerBinders).guarded []) false)).getD []) := by
  cases ensure <;> rfl

/-- What a class touches: its superclass, its methods, and the variable it is bound to. -/
theorem Stmt.touches_classDef (name : String) (superclass : Option Expr) (methods : List Method) :
    (Stmt.classDef pos name superclass methods).touches c top =
      (superclass.map (Expr.touches
        (if top then c.sight else c.sight.bind [.named name]))).getD [] ++
      .read (((if top then c.sight else c.sight.bind [.named name]).bind [.superclass]).placeOf
        name) :: Method.touchesAll
        ((if top then c.sight else c.sight.bind [.named name]).bind [.superclass]) methods := by
  cases superclass <;> rfl

end

/-- What the top-level code of a program does to variables. -/
def Program.touches (program : Program) : List Touch :=
  Stmt.touchesAll (.function ⟨[.hidden], []⟩ false) true program.body

/-! ## Lexical programs -/

/-- Names of slots that programs do not name. -/
def isHidden (name : String) : Bool :=
  match name.toList.head? with
  | none => true
  | some c => c == '.'

/-- Names a program may give to its variables. -/
def isOrdinary (name : String) : Bool := !isHidden name && name != "this" && name != "super"

/-- Whether the names that a parameter binds are ordinary. -/
def Parameter.ordinary (p : Parameter) : Bool :=
  (!p.pattern.isEmpty || isOrdinary p.name) && p.pattern.all isOrdinary

/-- Whether the names that an import binds are ordinary. -/
def Import.ordinary (d : Import) : Bool :=
  match d.items with
  | .module _ => isOrdinary d.bindingName
  | .names names => names.all isOrdinary
  | .all => true

/-- Whether the names that a function's parameters bind are ordinary. -/
def ordinarySignature (params : List Parameter) (vararg : Option String) : Bool :=
  params.all Parameter.ordinary && vararg.all isOrdinary

mutual

/-- Whether the names in an expression are ordinary and the functions in it are lexical. -/
def Expr.lexical : Expr → Bool
  | .number _ _ | .string _ _ | .bool _ _ | .null _ | .receiver _ | .superMember _ _ => true
  | .ident _ name => isOrdinary name
  | .unary _ _ e | .spread _ e | .member _ e _ => e.lexical
  | .binary _ _ l r | .conj _ l r | .disj _ l r | .assign _ l r | .compound _ _ l r
  | .index _ l r => l.lexical && r.lexical
  | .conditional _ c a b => c.lexical && a.lexical && b.lexical
  | .call _ callee arguments => callee.lexical && Expr.lexicalAll arguments
  | .superCall _ _ arguments => Expr.lexicalAll arguments
  | .list _ items | .tuple _ items => Expr.lexicalAll items
  | .table _ entries => Expr.lexicalEntries entries
  | .function _ ⟨_, params, vararg, body, _⟩ =>
    ordinarySignature params vararg && Stmt.lexicalAll body
  | .yield _ value =>
    match value with
    | some e => e.lexical
    | none => true

/-- Whether all expressions are lexical. -/
def Expr.lexicalAll : List Expr → Bool
  | [] => true
  | e :: rest => e.lexical && Expr.lexicalAll rest

/-- Whether all keys and values are lexical. -/
def Expr.lexicalEntries : List (Expr × Expr) → Bool
  | [] => true
  | (k, x) :: rest => k.lexical && x.lexical && Expr.lexicalEntries rest

/-- Whether a statement is lexical: the names in it are ordinary, a body declares nothing in the
scope around it, and a `try` has a clause or an `ensure` part. -/
def Stmt.lexical : Stmt → Bool
  | .expression _ e | .raise _ e => e.lexical
  | .declare _ names initial =>
    names.all isOrdinary &&
      match initial with
      | some e => e.lexical
      | none => true
  | .block _ body => Stmt.lexicalAll body
  | .branch _ c t e =>
    c.lexical && !t.declares && t.lexical &&
      match e with
      | some e => !e.declares && e.lexical
      | none => true
  | .whileLoop _ c body => c.lexical && !body.declares && body.lexical
  | .forLoop _ initial condition step body =>
    (match initial with
      | some s => s.lexical
      | none => true) &&
    (match condition with
      | some e => e.lexical
      | none => true) &&
    (match step with
      | some e => e.lexical
      | none => true) &&
    !body.declares && body.lexical
  | .forEach _ names iterable body =>
    names.all isOrdinary && iterable.lexical && !body.declares && body.lexical
  | .breakLoop _ | .continueLoop _ => true
  | .returnValue _ value =>
    match value with
    | some e => e.lexical
    | none => true
  | .guarded _ body clauses ensure =>
    (!clauses.isEmpty || ensure.isSome) && !body.declares && body.lexical &&
      ExceptClause.lexicalAll clauses &&
      match ensure with
      | some s => !s.declares && s.lexical
      | none => true
  | .withResource _ name value body =>
    isOrdinary name && value.lexical && !body.declares && body.lexical
  | .function _ ⟨name, params, vararg, body, _⟩ =>
    isOrdinary name && ordinarySignature params vararg && Stmt.lexicalAll body
  | .native _ d => isOrdinary d.name
  | .importModule _ d => d.ordinary
  | .classDef _ name superclass methods =>
    isOrdinary name &&
    (match superclass with
      | some e => e.lexical
      | none => true) &&
    Method.lexicalAll methods

/-- Whether all statements are lexical. -/
def Stmt.lexicalAll : List Stmt → Bool
  | [] => true
  | s :: rest => s.lexical && Stmt.lexicalAll rest

/-- Whether except clauses are lexical. -/
def ExceptClause.lexicalAll : List ExceptClause → Bool
  | [] => true
  | ⟨_, exceptionClass, binder, body⟩ :: rest =>
    isOrdinary binder && exceptionClass.lexical && !body.declares && body.lexical &&
      ExceptClause.lexicalAll rest

/-- Whether the methods of a class are lexical. -/
def Method.lexicalAll : List Method → Bool
  | [] => true
  | .function ⟨_, params, vararg, body, _⟩ :: rest =>
    ordinarySignature params vararg && Stmt.lexicalAll body && Method.lexicalAll rest
  | .native _ :: rest => Method.lexicalAll rest

end

section

variable (pos : Position)

/-- A counting loop is lexical if its parts are and its body declares nothing. -/
theorem Stmt.lexical_forLoop (initial : Option Stmt) (condition step : Option Expr) (body : Stmt) :
    (Stmt.forLoop pos initial condition step body).lexical =
      (initial.all Stmt.lexical && condition.all Expr.lexical && step.all Expr.lexical &&
        !body.declares && body.lexical) := by
  cases initial <;> cases condition <;> cases step <;> rfl

/-- A guarded statement is lexical if its parts are, if they declare nothing, and if there is a
clause or an `ensure` part. -/
theorem Stmt.lexical_guarded (body : Stmt) (clauses : List ExceptClause) (ensure : Option Stmt) :
    (Stmt.guarded pos body clauses ensure).lexical =
      ((!clauses.isEmpty || ensure.isSome) && !body.declares && body.lexical &&
        ExceptClause.lexicalAll clauses && ensure.all fun s => !s.declares && s.lexical) := by
  cases ensure <;> rfl

/-- A class is lexical if its name is an ordinary one and its superclass and methods are lexical. -/
theorem Stmt.lexical_classDef (name : String) (superclass : Option Expr) (methods : List Method) :
    (Stmt.classDef pos name superclass methods).lexical =
      (isOrdinary name && superclass.all Expr.lexical && Method.lexicalAll methods) := by
  cases superclass <;> rfl

end

/-- A program is lexical if its statements are. -/
def Program.lexical (program : Program) : Bool := Stmt.lexicalAll program.body

end ScriptEngine.Source
