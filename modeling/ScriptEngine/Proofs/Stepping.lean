import ScriptEngine.Bytecode.Chunk
import ScriptEngine.Proofs.Reference

/-!
# Stepping through the code of the core

The instructions that programs of the core compile to, acting on data alone: an offset, a stack
without the callee's slot, and the globals by name. `Follows` says that code started somewhere does
what a computation of the reference semantics does: where it goes when the computation ends, when it
breaks out of a loop or continues one, that it raises where the computation raises, and that it goes
on for as many steps as there is fuel where the fuel does not suffice.
-/

namespace ScriptEngine.Reference

open Bytecode Source

/-- Where a program of the core stands. -/
structure Config where
  /-- Offset of the next instruction. -/
  pc : Nat
  /-- The stack above slot zero, top first. -/
  stack : List Datum
  /-- The globals. -/
  globals : String → Option Datum

/-- What an instruction does. -/
inductive Move where
  | next (k : Config)
  /-- An exception. -/
  | refuse (reason : Refusal)
  /-- The code has ended. -/
  | stop
  /-- Nothing that is described here. -/
  | stuck

/-- Goes on where there is a place, and refuses otherwise. -/
def Move.orRefuse (k? : Option Config) (reason : Refusal) : Move :=
  match k? with
  | some k => .next k
  | none => .refuse reason

namespace Config

/-- Goes on with another stack. -/
def goOn (k : Config) (stack : List Datum) : Move := .next ⟨k.pc + 1, stack, k.globals⟩

/-- Goes on with one more value on the stack. -/
def push (k : Config) (d : Datum) : Move := k.goOn (d :: k.stack)

/-- The position of a slot, counted from the top of the stack. -/
def position? (k : Config) (slot : Nat) : Option Nat :=
  if 1 ≤ slot ∧ slot ≤ k.stack.length then some (k.stack.length - slot) else none

/-- Goes on with a global set. -/
def define (k : Config) (name : String) (d : Datum) (stack : List Datum) : Move :=
  .next ⟨k.pc + 1, stack, fun x => if x = name then some d else k.globals x⟩

end Config

/-- The operator of the core that an instruction is. -/
def binaryOf? : Op → Option BinaryOp
  | .add => some .add
  | .subtract => some .subtract
  | .multiply => some .multiply
  | .divide => some .divide
  | .equal => some .equal
  | .less => some .less
  | .lessEqual => some .lessEqual
  | .greater => some .greater
  | .greaterEqual => some .greaterEqual
  | _ => none

/-- The unary operator of the core that an instruction is. -/
def unaryOf? : Op → Option UnaryOp
  | .negate => some .negate
  | .not => some .not
  | _ => none

/-- What an operator does to the stack. -/
def Config.operate (k : Config) (op : Op) : Move :=
  match binaryOf? op, unaryOf? op, k.stack with
  | some op, _, b :: a :: rest =>
    match applyBinary op a b with
    | some d => k.goOn (d :: rest)
    | none => .refuse .type
  | _, some op, a :: rest =>
    match applyUnary op a with
    | some d => k.goOn (d :: rest)
    | none => .refuse .type
  | _, _, _ => .stuck

/-- The name among the constants at an index, if it can be that of a variable of the core. -/
def ownName? (c : Chunk) (i : UInt16) : Option String := (c.string? i).filter isOwnName

/-- What an instruction of a chunk does. -/
def perform (c : Chunk) (k : Config) : Op → Move
  | .constant i =>
    match c.constants[i.toNat]? with
    | some (.number n) => k.push (.number n)
    | _ => .stuck
  | .null => k.push .null
  | .true => k.push (.bool true)
  | .false => k.push (.bool false)
  | .pop =>
    match k.stack with
    | _ :: rest => k.goOn rest
    | [] => .stuck
  | .dup =>
    match k.stack with
    | d :: rest => k.goOn (d :: d :: rest)
    | [] => .stuck
  | .getLocal slot =>
    match (k.position? slot.toNat).bind (k.stack[·]?) with
    | some d => k.push d
    | none => .stuck
  | .setLocal slot =>
    match k.stack, k.position? slot.toNat with
    | d :: _, some i => k.goOn (k.stack.set i d)
    | _, _ => .stuck
  | .getGlobal i =>
    match ownName? c i with
    | some name =>
      match k.globals name with
      | some d => k.push d
      | none => .refuse .name
    | none => .stuck
  | .setGlobal i =>
    match ownName? c i, k.stack with
    | some name, d :: _ =>
      if (k.globals name).isSome then k.define name d k.stack else .refuse .name
    | _, _ => .stuck
  | .defineGlobal i =>
    match ownName? c i, k.stack with
    | some name, d :: rest => k.define name d rest
    | _, _ => .stuck
  | .jump distance => .next ⟨k.pc + 1 + distance.toNat, k.stack, k.globals⟩
  | .loop distance => .next ⟨k.pc + 1 - distance.toNat, k.stack, k.globals⟩
  | .jumpIfFalse distance =>
    match k.stack with
    | d :: rest =>
      if d.isTruthy then k.goOn rest else .next ⟨k.pc + 1 + distance.toNat, rest, k.globals⟩
    | [] => .stuck
  | .jumpIfTrue distance =>
    match k.stack with
    | d :: rest =>
      if d.isTruthy then .next ⟨k.pc + 1 + distance.toNat, rest, k.globals⟩ else k.goOn rest
    | [] => .stuck
  | .unpack _ =>
    match k.stack with
    | _ :: _ => .refuse .type
    | [] => .stuck
  | .return => .stop
  | op => k.operate op

/-- One step. -/
def advance (c : Chunk) (k : Config) : Move :=
  match c.code[k.pc]? with
  | some op => perform c k op
  | none => .stuck

/-- A number of steps leads from one place to another. -/
inductive Reaches (c : Chunk) : Nat → Config → Config → Prop
  | refl (k : Config) : Reaches c 0 k k
  | step {n : Nat} {k k' k'' : Config} (h : advance c k = .next k') (h' : Reaches c n k' k'') :
    Reaches c (n + 1) k k''

/-- At least so many steps lead from one place to another. -/
def Arrives (c : Chunk) (least : Nat) (k k' : Config) : Prop := ∃ n, least ≤ n ∧ Reaches c n k k'

section Runs

variable {c : Chunk} {k k' k'' : Config} {m n : Nat}

/-- Steps after steps are as many altogether. -/
theorem Reaches.trans (h : Reaches c m k k') (h' : Reaches c n k' k'') :
    Reaches c (m + n) k k'' := by
  induction h with
  | refl => rwa [Nat.zero_add]
  | step hs _ ih =>
    rw [Nat.add_right_comm]
    exact .step hs (ih h')

theorem Arrives.refl (c : Chunk) (k : Config) : Arrives c 0 k k := ⟨0, Nat.le_refl 0, .refl k⟩

/-- Arriving after arriving takes at least as many steps altogether. -/
theorem Arrives.trans (h : Arrives c m k k') (h' : Arrives c n k' k'') :
    Arrives c (m + n) k k'' := by
  obtain ⟨a, ha, hr⟩ := h
  obtain ⟨b, hb, hr'⟩ := h'
  exact ⟨a + b, by omega, hr.trans hr'⟩

/-- Arriving after many steps is arriving after fewer. -/
theorem Arrives.weaken (h : Arrives c m k k') (hn : n ≤ m) : Arrives c n k k' := by
  obtain ⟨a, ha, hr⟩ := h
  exact ⟨a, by omega, hr⟩

/-- An instruction at its offset is a step. -/
theorem arrives_one {op : Op} (hop : c.code[k.pc]? = some op) (hp : perform c k op = .next k') :
    Arrives c 1 k k' := by
  have hs : advance c k = .next k' := by
    unfold advance
    rw [hop]
    exact hp
  exact ⟨1, Nat.le_refl 1, .step hs (.refl k')⟩

end Runs

/-! ## Following a computation -/

/-- The names of the variables in each scope. -/
def Env.shape (env : Env) : List (List String) := env.scopes.map (·.map Prod.fst)

/-- The values of the local variables, innermost first. -/
def Env.values (env : Env) : List Datum := env.locals.map Prod.snd

/-- The variables seen from outside all but some scopes. -/
def Env.outside (env : Env) (depth : Nat) : Env :=
  { env with scopes := env.scopes.drop (env.scopes.length - depth) }

/-- The place at an offset where the stack has the local variables, and some data above them. -/
def Env.place (env : Env) (pc : Nat) (above : List Datum) : Config :=
  ⟨pc, above ++ env.values, env.globals⟩

/-- Where the innermost loop is left and continued, and the names that are known there. -/
structure Exits where
  /-- Where `break` leads. -/
  broke : Option Nat
  /-- Where `continue` leads. -/
  continued : Option Nat
  /-- The names in the scopes around the loop's body. -/
  shape : List (List String)

/-- There is no loop. -/
def Exits.none : Exits := ⟨.none, .none, []⟩

/-- A jump out of scopes leads to a place where just the outer ones are left. -/
def Exits.Reached (x : Exits) (target : Option Nat) (c : Chunk) (k : Config) (env : Env) : Prop :=
  ∃ pc, target = some pc ∧ (env.outside x.shape.length).shape = x.shape ∧
    Arrives c 0 k ((env.outside x.shape.length).place pc [])

/-- An exception is raised, at an instruction from a line. -/
def Refuses (c : Chunk) (k : Config) (reason : Refusal) (pos : Position)
    (globals : String → Option Datum) : Prop :=
  ∃ k', Arrives c 0 k k' ∧ advance c k' = .refuse reason ∧
    c.lineAt? k'.pc = some (UInt32.ofNat pos.line).toNat ∧ k'.globals = globals

/-- Code started at `k` does what a computation does that ends with the given outcome. On an
ordinary end it takes at least `least` steps, and the variables have names `shape`. -/
def Follows (c : Chunk) (fuel : Nat) (x : Exits) (least : Nat) (k : Config)
    (shape : List (List String)) {α : Type} (done : α → Env → Config) :
    Except Signal α × Env → Prop
  | (.ok a, env) => env.shape = shape ∧ Arrives c least k (done a env)
  | (.error .broke, env) => x.Reached x.broke c k env
  | (.error .continued, env) => x.Reached x.continued c k env
  | (.error (.raised reason pos), env) => Refuses c k reason pos env.globals
  | (.error .exhausted, _) => ∃ k', Arrives c fuel k k'
  | (.error .foreign, _) => False

section Follows

variable {c : Chunk} {fuel fuel' m m' : Nat} {x : Exits} {k k' : Config}
variable {shape shape' : List (List String)} {α β : Type}
variable {done : α → Env → Config} {done' : β → Env → Config} {env : Env}

/-- An exit reached later is reached from the start. -/
theorem Exits.Reached.after {target : Option Nat} (h : Arrives c m k k')
    (h' : x.Reached target c k' env) : x.Reached target c k env := by
  obtain ⟨pc, ht, hs, ha⟩ := h'
  exact ⟨pc, ht, hs, (h.trans ha).weaken (Nat.zero_le _)⟩

/-- A refusal met later is met from the start. -/
theorem Refuses.after {reason : Refusal} {pos : Position} {globals : String → Option Datum}
    (h : Arrives c m k k') (h' : Refuses c k' reason pos globals) :
    Refuses c k reason pos globals := by
  obtain ⟨k'', ha, hr⟩ := h'
  exact ⟨k'', (h.trans ha).weaken (Nat.zero_le _), hr⟩

/-- What follows a computation after some steps follows it from the start, and takes longer. -/
theorem Follows.after {r : Except Signal α × Env} (h : Arrives c m k k')
    (h' : Follows c fuel x m' k' shape done r) :
    Follows c (fuel + m) x (m + m') k shape done r := by
  obtain ⟨r, env⟩ := r
  cases r with
  | ok a => exact ⟨h'.1, h.trans h'.2⟩
  | error e =>
    cases e with
    | broke => exact Exits.Reached.after h h'
    | continued => exact Exits.Reached.after h h'
    | raised reason pos => exact Refuses.after h h'
    | exhausted =>
      obtain ⟨k'', ha⟩ := h'
      exact ⟨k'', (h.trans ha).weaken (Nat.le_of_eq (Nat.add_comm _ _))⟩
    | foreign => exact h'

/-- A computation followed with more fuel and steps is followed with less. -/
theorem Follows.weaken {r : Except Signal α × Env} (h : Follows c fuel x m k shape done r)
    (hf : fuel' ≤ fuel) (hm : m' ≤ m) : Follows c fuel' x m' k shape done r := by
  obtain ⟨r, env⟩ := r
  cases r with
  | ok a => exact ⟨h.1, h.2.weaken hm⟩
  | error e =>
    cases e with
    | exhausted =>
      obtain ⟨k', ha⟩ := h
      exact ⟨k', ha.weaken hf⟩
    | broke => exact h
    | continued => exact h
    | raised reason pos => exact h
    | foreign => exact h

/-- What a signal asks for does not depend on the result there would have been. -/
theorem Follows.of_error {e : Signal} (h : Follows c fuel x m k shape done (.error e, env)) :
    Follows c fuel x m' k shape' done' (.error e, env) := by
  cases e <;> exact h

/-- Giving back a value is followed by code that arrives where it is done. -/
theorem follows_pure {a : α} (hs : env.shape = shape) (h : Arrives c m k (done a env)) :
    Follows c fuel x m k shape done ((pure a : Script α) env) := ⟨hs, h⟩

/-- One computation after the other. The second part may count on less fuel by the steps that the
first part takes. -/
theorem Follows.bind {f : Script α} {g : α → Script β}
    (hf : Follows c (fuel + m) x m k shape done (f env))
    (hg : ∀ a env', env'.shape = shape →
      Follows c fuel x m' (done a env') shape' done' (g a env')) :
    Follows c (fuel + m) x (m + m') k shape' done' ((f >>= g) env) := by
  change Follows c (fuel + m) x (m + m') k shape' done' (Script.bind f g env)
  unfold Script.bind
  generalize f env = r at hf
  obtain ⟨r, env'⟩ := r
  cases r with
  | ok a => exact (hg a env' hf.1).after hf.2
  | error e => exact hf.of_error

/-- One computation after the other, without counting steps. -/
theorem Follows.seq {f : Script α} {g : α → Script β} (hf : Follows c fuel x 0 k shape done (f env))
    (hg : ∀ a env', env'.shape = shape →
      Follows c fuel x 0 (done a env') shape' done' (g a env')) :
    Follows c fuel x 0 k shape' done' ((f >>= g) env) :=
  Follows.bind (m := 0) hf hg

/-- What follows a computation may go on after the end of it, and takes longer then. -/
theorem Follows.extend {done' : α → Env → Config} {r : Except Signal α × Env}
    (h : Follows c fuel x m k shape done r)
    (hd : ∀ a env', env'.shape = shape → Arrives c m' (done a env') (done' a env')) :
    Follows c fuel x (m + m') k shape done' r := by
  obtain ⟨r, env'⟩ := r
  cases r with
  | ok a => exact ⟨h.1, h.2.trans (hd a env' h.1)⟩
  | error e => exact h.of_error

/-- Code that goes on from where a computation is done follows it to where the further code
arrives. -/
theorem Follows.goOn {done' : α → Env → Config} {r : Except Signal α × Env}
    (h : Follows c fuel x m k shape done r)
    (hd : ∀ a env', env'.shape = shape → Arrives c 0 (done a env') (done' a env')) :
    Follows c fuel x m k shape done' r := h.extend hd

end Follows

end ScriptEngine.Reference
