import ScriptEngine.Compile.Program
import ScriptEngine.Proofs.Structure

/-!
# Statically valid programs

Which programs are meant to be compiled, read off the program tree alone. `Standing` says what
surrounds a piece of a program: the function it stands in, whether that is a method, whether there is
a loop around, and the names of local variables. `valid` asks for the rules:

* `break` and `continue` stand in the body of a loop of the same function;
* `return` stands in a function, and in a constructor it gives no value;
* `yield` stands in a function that is a generator and no constructor;
* the receiver and the superclass are named in methods and in functions nested in them, and the
  superclass with a method name or with arguments;
* a value is assigned to a variable, a member or a subscript;
* a spread is an argument of a call or an item of a list or tuple;
* the defaults of parameters are literals and come last, and a host function unpacks no parameter;
* no scope declares a local twice, and no local is used in its own initial value.

The last line is the scoping rule. It can be left out, so that one can say what the others amount to.
-/

namespace ScriptEngine.Source

open Compile (FunctionKind)

/-- Whether names are different and not among those of a scope. -/
def unused (scope names : List String) : Bool :=
  decide names.Nodup && names.all fun name => !scope.contains name

/-- Names are unused in a scope if the first is not in it and the others are in neither it nor that
name. -/
theorem unused_cons (scope : List String) (name : String) (names : List String) :
    unused scope (name :: names) = (!scope.contains name && unused (name :: scope) names) := by
  rw [Bool.eq_iff_iff]
  simp only [unused, List.nodup_cons, List.all_cons, Bool.and_eq_true, decide_eq_true_eq,
    List.all_eq_true, Bool.not_eq_true', List.contains_eq_mem, decide_eq_false_iff_not,
    List.mem_cons, not_or]
  constructor
  · rintro ⟨⟨hname, hnames⟩, hscope, hall⟩
    exact ⟨hscope, hnames, fun x hx => ⟨ne_of_mem_of_not_mem hx hname, hall x hx⟩⟩
  · rintro ⟨hscope, hnames, hall⟩
    exact ⟨⟨fun hmem => (hall name hmem).1 rfl, hnames⟩, hscope, fun x hx => (hall x hx).2⟩

/-- What surrounds a piece of a program, as far as the rules go. -/
structure Standing where
  /-- What kind of function it stands in. -/
  kind : FunctionKind
  /-- Whether that function is a generator. -/
  generator : Bool
  /-- Whether it stands in a method or in a function nested in one. -/
  method : Bool
  /-- Whether it stands in the body of a loop of the function. -/
  loop : Bool
  /-- Whether declarations make globals. -/
  top : Bool
  /-- Whether the scoping rule is asked for. -/
  scoping : Bool
  /-- Names declared in the innermost scope so far. -/
  scope : List String
  /-- Local variables in sight, innermost first, and whether they have their initial value. -/
  sight : List (String × Bool)

namespace Standing

variable (p : Standing)

/-- The top level of a script. -/
def script (scoping : Bool) : Standing := ⟨.script, false, false, false, true, scoping, [], []⟩

/-- Whether the variable that a name means may be read and assigned. -/
def usable (name : String) : Bool := !p.scoping || (p.sight.lookup name).getD true

/-- Whether names may be declared, one after another. -/
def fresh (names : List String) : Bool :=
  !p.scoping || p.top || unused p.scope names

/-- Whether `yield` may stand here. -/
def mayYield : Bool := p.generator && p.kind != .constructor

/-- In a scope of its own. -/
def inner : Standing := { p with top := false, scope := [] }

/-- In the body of a loop. -/
def looped : Standing := { p.inner with loop := true }

/-- Behind the declaration of names. -/
def bind (names : List String) : Standing :=
  if p.top then p
  else
    { p with
      scope := names.reverse ++ p.scope
      sight := names.reverse.map (·, true) ++ p.sight }

/-- In the initial value of names that are being declared. -/
def await (names : List String) : Standing :=
  if p.top then p else { p with sight := names.reverse.map (·, false) ++ p.sight }

/-- At the beginning of a function. -/
def function (kind : FunctionKind) (generator : Bool) : Standing :=
  { p.inner with kind, generator, loop := false }

/-- In a method. -/
def inMethod : Standing := { p with method := true }

end Standing

/-- The names an import binds. -/
def Import.boundNames (d : Import) : List String :=
  match d.items with
  | .module _ => [d.bindingName]
  | .names names => names
  | .all => []

/-- The names a statement declares in the scope it stands in. -/
def Stmt.names : Stmt → List String
  | .declare _ names _ => names
  | .function _ d => [d.name]
  | .native _ d => [d.name]
  | .classDef _ name _ _ => [name]
  | .importModule _ d => d.boundNames
  | _ => []

/-- The names that parameters bind: the plain ones, the tuple of further arguments, and those that
arguments are unpacked into. -/
def parameterNames (params : List Parameter) (vararg : Option String) : List String :=
  (params.filter (·.pattern.isEmpty)).map Parameter.name ++
    (vararg.toList ++ params.flatMap Parameter.pattern)

/-- Whether the first parameter with a default and all behind it have a literal as default. -/
def defaultsTrail (params : List Parameter) : Bool :=
  (params.dropWhile (·.default.isNone)).all (·.default.any Expr.isLiteral)

/-- Whether the declaration of a host function is valid. -/
def NativeDecl.valid (d : NativeDecl) : Bool :=
  d.params.all (·.pattern.isEmpty) && defaultsTrail d.params

/-- What can be assigned to. -/
def Expr.isTarget : Expr → Bool
  | .ident .. | .member .. | .index .. => true
  | _ => false

mutual

/-- Whether an expression is valid. -/
def Expr.valid (p : Standing) : Expr → Bool
  | .number _ _ | .string _ _ | .bool _ _ | .null _ => true
  | .ident _ name => p.usable name
  | .receiver _ => p.method
  | .unary _ _ e | .member _ e _ => e.valid p
  | .binary _ _ l r | .conj _ l r | .disj _ l r | .index _ l r => l.valid p && r.valid p
  | .conditional _ c a b => c.valid p && a.valid p && b.valid p
  | .assign _ target value | .compound _ _ target value =>
    target.isTarget && target.valid p && value.valid p
  | .call _ callee arguments => callee.valid p && Expr.validItems p arguments
  | .superCall _ _ arguments => p.method && Expr.validItems p arguments
  | .superMember _ method => p.method && method.isSome
  | .list _ items | .tuple _ items => Expr.validItems p items
  | .table _ entries => Expr.validEntries p entries
  | .function _ ⟨_, params, vararg, body, _⟩ =>
    defaultsTrail params &&
      (p.function .function (Stmt.yieldsAny body)).fresh (parameterNames params vararg) &&
      Stmt.validAll
        ((p.function .function (Stmt.yieldsAny body)).bind (parameterNames params vararg)) body
  | .spread _ _ => false
  | .yield _ value =>
    p.mayYield &&
      match value with
      | some e => e.valid p
      | none => true

/-- Whether arguments or items, some of them spread, are valid. -/
def Expr.validItems (p : Standing) : List Expr → Bool
  | [] => true
  | .spread _ e :: rest => e.valid p && Expr.validItems p rest
  | e :: rest => e.valid p && Expr.validItems p rest

/-- Whether keys and values are valid. -/
def Expr.validEntries (p : Standing) : List (Expr × Expr) → Bool
  | [] => true
  | (k, v) :: rest => k.valid p && v.valid p && Expr.validEntries p rest

/-- Whether a statement is valid. -/
def Stmt.valid (p : Standing) : Stmt → Bool
  | .expression _ e | .raise _ e => e.valid p
  | .declare _ names initial =>
    p.fresh names &&
      match initial with
      | some e => e.valid (p.await names)
      | none => true
  | .block _ body => Stmt.validAll p.inner body
  | .branch _ c t e =>
    c.valid p && t.valid p.inner &&
      match e with
      | some e => e.valid p.inner
      | none => true
  | .whileLoop _ c body => c.valid p && body.valid p.looped
  | .forLoop _ initial condition step body =>
    let inside := p.inner.bind (match initial with
      | some s => s.names
      | none => [])
    (match initial with
      | some s => s.valid p.inner
      | none => true) &&
    (match condition with
      | some e => e.valid inside
      | none => true) &&
    (match step with
      | some e => e.valid inside
      | none => true) &&
    body.valid inside.looped
  | .forEach _ names iterable body =>
    iterable.valid p && p.inner.fresh names && body.valid (p.inner.bind names).looped
  | .breakLoop _ | .continueLoop _ => p.loop
  | .returnValue _ value =>
    p.kind != .script &&
      match value with
      | some e => p.kind != .constructor && e.valid p
      | none => true
  | .guarded _ body clauses ensure =>
    body.valid p.inner && ExceptClause.validAll p clauses &&
      match ensure with
      | some s => s.valid p.inner
      | none => true
  | .withResource _ name value body =>
    value.valid (p.inner.bind [name]) && body.valid (p.inner.bind [name]).inner
  | .function _ ⟨name, params, vararg, body, _⟩ =>
    p.fresh [name] && defaultsTrail params &&
      ((p.bind [name]).function .function (Stmt.yieldsAny body)).fresh
        (parameterNames params vararg) &&
      Stmt.validAll (((p.bind [name]).function .function (Stmt.yieldsAny body)).bind
        (parameterNames params vararg)) body
  | .native _ d => d.valid && p.fresh [d.name]
  | .classDef _ name superclass methods =>
    p.fresh [name] &&
    (match superclass with
      | some e => e.valid (p.bind [name])
      | none => true) &&
    Method.validAll (p.bind [name]) methods
  | .importModule _ d => p.fresh d.boundNames

/-- Whether statements are valid one after another; what one declares is in sight of those
behind it. -/
def Stmt.validAll (p : Standing) : List Stmt → Bool
  | [] => true
  | s :: rest => s.valid p && Stmt.validAll (p.bind s.names) rest

/-- Whether except clauses are valid. -/
def ExceptClause.validAll (p : Standing) : List ExceptClause → Bool
  | [] => true
  | ⟨_, exceptionClass, binder, body⟩ :: rest =>
    exceptionClass.valid p && body.valid (p.inner.bind [binder]).inner &&
      ExceptClause.validAll p rest

/-- Whether the methods of a class are valid. -/
def Method.validAll (p : Standing) : List Method → Bool
  | [] => true
  | .function ⟨name, params, vararg, body, _⟩ :: rest =>
    let entry := p.inMethod.function (if name == "construct" then .constructor else .method)
      (Stmt.yieldsAny body)
    defaultsTrail params && entry.fresh (parameterNames params vararg) &&
      Stmt.validAll (entry.bind (parameterNames params vararg)) body && Method.validAll p rest
  | .native d :: rest => d.valid && Method.validAll p rest

end

/-- A statement that declares nothing gives no names. -/
theorem Stmt.names_of_not_declares {s : Stmt} (h : s.declares = false) : s.names = [] := by
  cases s with
  | declare | function | native | classDef => cases h
  | importModule pos d =>
    rw [Stmt.declares] at h
    rw [Stmt.names, Import.boundNames]
    cases hitems : d.items with
    | module => simp [hitems, ImportItems.binds] at h
    | names names => simpa [hitems, ImportItems.binds] using h
    | all => rfl
  | _ => rfl

section Parts

variable (p : Standing) (pos : Position)

/-- A branch is valid if the condition, what follows it and the alternative are. -/
theorem Stmt.valid_branch (c : Expr) (t : Stmt) (e : Option Stmt) :
    (Stmt.branch pos c t e).valid p =
      (c.valid p && t.valid p.inner && e.all (Stmt.valid p.inner)) := by
  cases e <;> rfl

/-- A counting loop is valid if its parts are, where all but the first see the names the first
declares. -/
theorem Stmt.valid_forLoop (initial : Option Stmt) (condition step : Option Expr) (body : Stmt) :
    (Stmt.forLoop pos initial condition step body).valid p =
      (initial.all (Stmt.valid p.inner) &&
        condition.all (Expr.valid (p.inner.bind ((initial.map Stmt.names).getD []))) &&
        step.all (Expr.valid (p.inner.bind ((initial.map Stmt.names).getD []))) &&
        body.valid (p.inner.bind ((initial.map Stmt.names).getD [])).looped) := by
  cases initial <;> cases condition <;> cases step <;> rfl

/-- A guarded statement is valid if its body, its clauses and its `ensure` part are. -/
theorem Stmt.valid_guarded (body : Stmt) (clauses : List ExceptClause) (ensure : Option Stmt) :
    (Stmt.guarded pos body clauses ensure).valid p =
      (body.valid p.inner && ExceptClause.validAll p clauses &&
        ensure.all (Stmt.valid p.inner)) := by
  cases ensure <;> rfl

/-- A class is valid if its name is new and its superclass and methods are valid where the name is
known. -/
theorem Stmt.valid_classDef (name : String) (superclass : Option Expr) (methods : List Method) :
    (Stmt.classDef pos name superclass methods).valid p =
      (p.fresh [name] && superclass.all (Expr.valid (p.bind [name])) &&
        Method.validAll (p.bind [name]) methods) := by
  cases superclass <;> rfl

/-- Items are valid if the first, which is not spread, and the others are. -/
theorem Expr.validItems_cons {p : Standing} {e : Expr} {rest : List Expr}
    (h : ∀ pos inner, e = .spread pos inner → False) :
    Expr.validItems p (e :: rest) = (e.valid p && Expr.validItems p rest) := by
  cases e with
  | spread pos inner => exact absurd rfl (h pos inner)
  | _ => rfl

/-- Where nothing is spread, the first item is not, and neither are the others. -/
theorem hasSpread_cons {e : Expr} {rest : List Expr} (h : hasSpread (e :: rest) = false) :
    (∀ pos inner, e = .spread pos inner → False) ∧ hasSpread rest = false := by
  unfold hasSpread at h ⊢
  rw [List.any_cons, Bool.or_eq_false_iff] at h
  refine ⟨?_, h.2⟩
  rintro pos inner rfl
  cases h.1

end Parts

/-- A program is valid if its statements are. -/
def Program.valid (scoping : Bool) (program : Program) : Bool :=
  Stmt.validAll (.script scoping) program.body

/-! ## Functions that yield -/

/-- Names do not decide whether a place may yield. -/
theorem Standing.mayYield_bind (p : Standing) (names : List String) :
    (p.bind names).mayYield = p.mayYield := by
  unfold Standing.bind
  split <;> rfl

/-- Names that await their values do not decide whether a place may yield. -/
theorem Standing.mayYield_await (p : Standing) (names : List String) :
    (p.await names).mayYield = p.mayYield := by
  unfold Standing.await
  split <;> rfl

mutual

/-- A valid expression yields only where that is allowed. -/
theorem Expr.not_yields {p : Standing} (hp : p.mayYield = false) (e : Expr)
    (h : e.valid p = true) : e.yields = false := by
  match e with
  | .number .. | .string .. | .bool .. | .null .. | .ident .. | .receiver .. | .function ..
  | .superMember .. => rfl
  | .unary _ _ e | .member _ e _ => exact e.not_yields hp h
  | .binary _ _ l r | .conj _ l r | .disj _ l r | .index _ l r =>
    obtain ⟨hl, hr⟩ := Bool.and_eq_true_iff.1 h
    rw [Expr.yields, l.not_yields hp hl, r.not_yields hp hr]
    rfl
  | .conditional _ c a b =>
    obtain ⟨h, hb⟩ := Bool.and_eq_true_iff.1 h
    obtain ⟨hc, ha⟩ := Bool.and_eq_true_iff.1 h
    rw [Expr.yields, c.not_yields hp hc, a.not_yields hp ha, b.not_yields hp hb]
    rfl
  | .assign _ target value | .compound _ _ target value =>
    obtain ⟨h, hv⟩ := Bool.and_eq_true_iff.1 h
    obtain ⟨-, ht⟩ := Bool.and_eq_true_iff.1 h
    rw [Expr.yields, target.not_yields hp ht, value.not_yields hp hv]
    rfl
  | .call _ callee arguments =>
    obtain ⟨hc, ha⟩ := Bool.and_eq_true_iff.1 h
    rw [Expr.yields, callee.not_yields hp hc, Expr.not_yieldsAny hp arguments ha]
    rfl
  | .superCall _ _ arguments =>
    exact Expr.not_yieldsAny hp arguments (Bool.and_eq_true_iff.1 h).2
  | .list _ items | .tuple _ items => exact Expr.not_yieldsAny hp items h
  | .table _ entries => exact Expr.not_yieldsAnyEntry hp entries h
  | .spread _ _ => cases h
  | .yield _ none | .yield _ (some _) =>
    rw [Expr.valid, hp] at h
    cases h

/-- Valid items do not yield where none may. -/
theorem Expr.not_yieldsAny {p : Standing} (hp : p.mayYield = false) (items : List Expr)
    (h : Expr.validItems p items = true) : yieldsAny items = false := by
  match items with
  | [] => rfl
  | e :: rest =>
    have hparts : e.yields = false ∧ Expr.validItems p rest = true := by
      cases e with
      | spread pos e =>
        obtain ⟨he, hrest⟩ := Bool.and_eq_true_iff.1 h
        exact ⟨e.not_yields hp he, hrest⟩
      | _ =>
        obtain ⟨he, hrest⟩ := Bool.and_eq_true_iff.1 h
        exact ⟨Expr.not_yields hp _ he, hrest⟩
    rw [yieldsAny, hparts.1, Expr.not_yieldsAny hp rest hparts.2]
    rfl

/-- Valid entries of a table do not yield where none may. -/
theorem Expr.not_yieldsAnyEntry {p : Standing} (hp : p.mayYield = false)
    (entries : List (Expr × Expr)) (h : Expr.validEntries p entries = true) :
    yieldsAnyEntry entries = false := by
  match entries with
  | [] => rfl
  | (k, v) :: rest =>
    obtain ⟨h, hrest⟩ := Bool.and_eq_true_iff.1 h
    obtain ⟨hk, hv⟩ := Bool.and_eq_true_iff.1 h
    rw [yieldsAnyEntry, k.not_yields hp hk, v.not_yields hp hv,
      Expr.not_yieldsAnyEntry hp rest hrest]
    rfl

end

/-- A valid optional value does not yield where none may. -/
theorem Expr.not_yieldsOption {p : Standing} (hp : p.mayYield = false) {value : Option Expr}
    (h : value.all (Expr.valid p) = true) : Source.yieldsOption value = false := by
  cases value with
  | none => rfl
  | some e => exact e.not_yields hp h

mutual

/-- So does a valid statement. -/
theorem Stmt.not_yields {p : Standing} (hp : p.mayYield = false) (s : Stmt)
    (h : s.valid p = true) : s.yields = false := by
  have hbound : ∀ names, (p.inner.bind names).mayYield = false :=
    fun names => (Standing.mayYield_bind p.inner names).trans hp
  have hlooped : ∀ names, (p.inner.bind names).looped.mayYield = false := hbound
  match s with
  | .expression _ e | .raise _ e => exact e.not_yields hp h
  | .declare _ _ none => rfl
  | .declare _ names (some e) =>
    exact e.not_yields ((p.mayYield_await names).trans hp) (Bool.and_eq_true_iff.1 h).2
  | .block _ body => exact Stmt.not_yieldsAny (p := p.inner) hp body h
  | .branch _ c t e =>
    rw [Stmt.valid_branch] at h
    obtain ⟨h, he⟩ := Bool.and_eq_true_iff.1 h
    obtain ⟨hc, ht⟩ := Bool.and_eq_true_iff.1 h
    rw [Stmt.yields, c.not_yields hp hc, t.not_yields (p := p.inner) hp ht]
    match e with
    | none => rfl
    | some e => exact e.not_yields (p := p.inner) hp he
  | .whileLoop _ c body =>
    obtain ⟨hc, hb⟩ := Bool.and_eq_true_iff.1 h
    rw [Stmt.yields, c.not_yields hp hc, body.not_yields (p := p.looped) hp hb]
    rfl
  | .forLoop _ initial condition step body =>
    rw [Stmt.valid_forLoop] at h
    obtain ⟨h, hb⟩ := Bool.and_eq_true_iff.1 h
    obtain ⟨h, hs⟩ := Bool.and_eq_true_iff.1 h
    obtain ⟨hi, hc⟩ := Bool.and_eq_true_iff.1 h
    have hinitial : Stmt.yieldsOption initial = false := by
      match initial with
      | none => rfl
      | some s => exact s.not_yields (p := p.inner) hp hi
    rw [Stmt.yields, hinitial, Expr.not_yieldsOption (hbound _) hc,
      Expr.not_yieldsOption (hbound _) hs, body.not_yields (hlooped _) hb]
    rfl
  | .forEach _ names iterable body =>
    obtain ⟨h, hb⟩ := Bool.and_eq_true_iff.1 h
    obtain ⟨hi, -⟩ := Bool.and_eq_true_iff.1 h
    rw [Stmt.yields, iterable.not_yields hp hi, body.not_yields (hlooped names) hb]
    rfl
  | .breakLoop _ | .continueLoop _ | .function .. | .native .. | .classDef .. | .importModule .. =>
    rfl
  | .returnValue _ none => rfl
  | .returnValue _ (some e) =>
    exact e.not_yields hp (Bool.and_eq_true_iff.1 (Bool.and_eq_true_iff.1 h).2).2
  | .guarded _ body clauses ensure =>
    rw [Stmt.valid_guarded] at h
    obtain ⟨h, he⟩ := Bool.and_eq_true_iff.1 h
    obtain ⟨hb, hc⟩ := Bool.and_eq_true_iff.1 h
    rw [Stmt.yields, body.not_yields (p := p.inner) hp hb, ExceptClause.not_yields hp clauses hc]
    match ensure with
    | none => rfl
    | some s => exact s.not_yields (p := p.inner) hp he
  | .withResource _ name value body =>
    obtain ⟨hv, hb⟩ := Bool.and_eq_true_iff.1 h
    rw [Stmt.yields, value.not_yields (hbound [name]) hv,
      body.not_yields (p := (p.inner.bind [name]).inner) (hbound [name]) hb]
    rfl

/-- Valid statements do not yield where none may. -/
theorem Stmt.not_yieldsAny {p : Standing} (hp : p.mayYield = false) (body : List Stmt)
    (h : Stmt.validAll p body = true) : Stmt.yieldsAny body = false := by
  match body with
  | [] => rfl
  | s :: rest =>
    obtain ⟨hs, hrest⟩ := Bool.and_eq_true_iff.1 h
    rw [Stmt.yieldsAny, s.not_yields hp hs,
      Stmt.not_yieldsAny ((p.mayYield_bind s.names).trans hp) rest hrest]
    rfl

/-- Valid clauses do not yield where none may. -/
theorem ExceptClause.not_yields {p : Standing} (hp : p.mayYield = false)
    (clauses : List ExceptClause) (h : ExceptClause.validAll p clauses = true) :
    clausesYield clauses = false := by
  match clauses with
  | [] => rfl
  | ⟨_, exceptionClass, binder, body⟩ :: rest =>
    obtain ⟨h, hrest⟩ := Bool.and_eq_true_iff.1 h
    obtain ⟨hc, hb⟩ := Bool.and_eq_true_iff.1 h
    have hbound : (p.inner.bind [binder]).inner.mayYield = false :=
      (Standing.mayYield_bind p.inner [binder]).trans hp
    rw [clausesYield, exceptionClass.not_yields hp hc, body.not_yields hbound hb,
      ExceptClause.not_yields hp rest hrest]
    rfl

end

/-- A valid constructor is no generator. -/
theorem Stmt.not_yieldsAny_constructor {p : Standing} {names : List String} {body : List Stmt}
    (h : Stmt.validAll ((p.function .constructor (Stmt.yieldsAny body)).bind names) body = true) :
    Stmt.yieldsAny body = false := by
  refine Stmt.not_yieldsAny ?_ body h
  rw [Standing.mayYield_bind]
  exact Bool.and_false _

end ScriptEngine.Source
