import ScriptEngine.Compile.Program

/-!
# Runs of code generators

A generator either stops with a diagnostic or runs from one compiler state to another. `Ran` is the
second case as a relation. The lemmas here take a run of a compound generator apart into runs of its
parts, and say what the primitive generators do to the function under construction. Nothing here
depends on what the emitted code means.
-/

namespace ScriptEngine.Compile

open Bytecode Source

/-- The generator runs from one state to another and gives a result. -/
def Ran {α : Type} (m : Gen α) (s : CompilerState) (a : α) (s' : CompilerState) : Prop :=
  m s = .ok (a, s')

/-- The state with another function under construction. -/
def CompilerState.withCurrent (s : CompilerState) (f : FunctionState) : CompilerState :=
  ⟨f, s.enclosing⟩

/-- The code of the function under construction. -/
abbrev CompilerState.chunk (s : CompilerState) : Chunk := s.current.chunk

/-- The offset of the next instruction. -/
abbrev CompilerState.size (s : CompilerState) : Nat := s.current.chunk.code.size

@[simp] theorem withCurrent_current (s : CompilerState) (f : FunctionState) :
    (s.withCurrent f).current = f := rfl

@[simp] theorem withCurrent_enclosing (s : CompilerState) (f : FunctionState) :
    (s.withCurrent f).enclosing = s.enclosing := rfl

/-- The state with other locals at another scope depth. -/
def CompilerState.withScope (s : CompilerState) (ls : List Local) (depth : Nat) : CompilerState :=
  s.withCurrent { s.current with scope := .ofList ls, depth := depth }

@[simp] theorem withScope_locals (s : CompilerState) (ls : List Local) (depth : Nat) :
    (s.withScope ls depth).current.locals = ls := rfl

@[simp] theorem withScope_depth (s : CompilerState) (ls : List Local) (depth : Nat) :
    (s.withScope ls depth).current.depth = depth := rfl

@[simp] theorem withScope_withScope (s : CompilerState) (ls ls' : List Local) (d d' : Nat) :
    (s.withScope ls d).withScope ls' d' = s.withScope ls' d' := rfl

/-- A state keeps its locals at another scope depth. -/
theorem withCurrent_depth (s : CompilerState) (depth : Nat) :
    s.withCurrent { s.current with depth := depth } = s.withScope s.current.locals depth := by
  rw [CompilerState.withScope, FunctionState.ofList_locals]

@[simp] theorem withScope_self (s : CompilerState) :
    s.withScope s.current.locals s.current.depth = s := by
  rw [← withCurrent_depth]
  rfl

section Monad

variable {α β : Type} {s s' : CompilerState}

/-- A value is given without any change. -/
theorem ran_pure {a b : α} : Ran (pure a : Gen α) s b s' ↔ b = a ∧ s' = s := by
  constructor
  · intro h
    cases h
    exact ⟨rfl, rfl⟩
  · rintro ⟨rfl, rfl⟩
    rfl

/-- A run of two generators one after the other passes through a state between them. -/
theorem ran_bind {m : Gen α} {f : α → Gen β} {b : β} :
    Ran (m >>= f) s b s' ↔ ∃ a t, Ran m s a t ∧ Ran (f a) t b s' := by
  constructor
  · intro h
    unfold Ran at h
    change StateT.bind m f s = _ at h
    unfold StateT.bind at h
    cases hm : m s with
    | error e =>
      rw [hm] at h
      cases h
    | ok p =>
      rw [hm] at h
      exact ⟨p.1, p.2, hm, h⟩
  · rintro ⟨a, t, hm, hf⟩
    unfold Ran at *
    change StateT.bind m f s = _
    unfold StateT.bind
    rw [hm]
    exact hf

/-- A value that is changed on the way. -/
theorem ran_map {m : Gen α} {f : α → β} {b : β} :
    Ran (f <$> m) s b s' ↔ ∃ a, Ran m s a s' ∧ b = f a := by
  rw [map_eq_pure_bind, ran_bind]
  constructor
  · rintro ⟨a, t, hm, hf⟩
    obtain ⟨rfl, rfl⟩ := ran_pure.1 hf
    exact ⟨a, hm, rfl⟩
  · rintro ⟨a, hm, rfl⟩
    exact ⟨a, s', hm, ran_pure.2 ⟨rfl, rfl⟩⟩

/-- The state is read. -/
theorem ran_get {a : CompilerState} :
    Ran (get : Gen CompilerState) s a s' ↔ a = s ∧ s' = s := ran_pure

/-- The state is written. -/
theorem ran_set {t : CompilerState} {u : PUnit} : Ran (set t : Gen PUnit) s u s' ↔ s' = t := by
  constructor
  · intro h
    cases h
    rfl
  · rintro rfl
    rfl

/-- What is refused does not run. -/
theorem ran_fail {cause : Cause} {pos : Position} {a : α} :
    ¬ Ran (fail cause pos : Gen α) s a s' := by
  intro h
  cases h

/-- A check runs if it has a value. -/
theorem ran_lift {x : Except Diagnostic α} {a : α} :
    Ran (liftM x : Gen α) s a s' ↔ x = .ok a ∧ s' = s := by
  cases x with
  | error e =>
    constructor
    · intro h
      cases h
    · rintro ⟨h, -⟩
      cases h
  | ok b =>
    constructor
    · intro h
      cases h
      exact ⟨rfl, rfl⟩
    · rintro ⟨h, rfl⟩
      cases h
      rfl

/-- No elements. -/
theorem ran_forM_nil {f : α → Gen PUnit} {u : PUnit} : Ran ([].forM f) s u s' ↔ s' = s := by
  change Ran (pure () : Gen PUnit) s u s' ↔ _
  simp [ran_pure]

/-- One element, and then the others. -/
theorem ran_forM_cons {f : α → Gen PUnit} {a : α} {as : List α} {u : PUnit} :
    Ran ((a :: as).forM f) s u s' ↔ ∃ t, Ran (f a) s () t ∧ Ran (as.forM f) t () s' := by
  change Ran (f a >>= fun _ => as.forM f) s u s' ↔ _
  rw [ran_bind]
  constructor
  · rintro ⟨_, t, h, h'⟩
    exact ⟨t, h, h'⟩
  · rintro ⟨t, h, h'⟩
    exact ⟨(), t, h, h'⟩

end Monad

/-! ## Primitive generators -/

section Primitives

variable {s s' : CompilerState} {u : Unit}

/-- A change of the function under construction. -/
theorem ran_updateFunction {f : FunctionState → FunctionState} :
    Ran (updateFunction f) s u s' ↔ s' = s.withCurrent (f s.current) := by
  constructor
  · intro h
    cases h
    rfl
  · rintro rfl
    rfl

/-- A change that may be refused. -/
theorem ran_updateFunctionM {f : FunctionState → Except Diagnostic FunctionState} :
    Ran (updateFunctionM f) s u s' ↔ ∃ g, f s.current = .ok g ∧ s' = s.withCurrent g := by
  unfold updateFunctionM
  simp only [ran_bind, ran_get, ran_lift, ran_set]
  constructor
  · rintro ⟨_, _, ⟨rfl, rfl⟩, g, _, ⟨hg, rfl⟩, rfl⟩
    exact ⟨g, hg, rfl⟩
  · rintro ⟨g, hg, rfl⟩
    exact ⟨_, _, ⟨rfl, rfl⟩, g, _, ⟨hg, rfl⟩, rfl⟩

/-- An instruction is emitted. -/
theorem ran_emit {op : Op} {line : Nat} :
    Ran (emit op line) s u s' ↔ s' = s.withCurrent (s.current.emit op line) := ran_updateFunction

/-- The offset of the next instruction. -/
theorem ran_offset {n : Nat} : Ran offset s n s' ↔ n = s.size ∧ s' = s := by
  unfold offset
  simp only [ran_bind, ran_get, ran_pure]
  constructor
  · rintro ⟨_, _, ⟨rfl, rfl⟩, rfl, rfl⟩
    exact ⟨rfl, rfl⟩
  · rintro ⟨rfl, rfl⟩
    exact ⟨_, _, ⟨rfl, rfl⟩, rfl, rfl⟩

/-- The number of locals. -/
theorem ran_localCount {n : Nat} :
    Ran localCount s n s' ↔ n = s.current.locals.length ∧ s' = s := by
  unfold localCount
  simp only [ran_bind, ran_get, ran_pure]
  constructor
  · rintro ⟨_, _, ⟨rfl, rfl⟩, rfl, rfl⟩
    exact ⟨rfl, rfl⟩
  · rintro ⟨rfl, rfl⟩
    exact ⟨_, _, ⟨rfl, rfl⟩, rfl, rfl⟩

/-- Whether declarations make globals. -/
theorem ran_atTopLevel {top : Bool} :
    Ran atTopLevel s top s' ↔ top = (s.current.depth == 0) ∧ s' = s := by
  unfold atTopLevel
  simp only [ran_bind, ran_get, ran_pure]
  constructor
  · rintro ⟨_, _, ⟨rfl, rfl⟩, rfl, rfl⟩
    exact ⟨rfl, rfl⟩
  · rintro ⟨rfl, rfl⟩
    exact ⟨_, _, ⟨rfl, rfl⟩, rfl, rfl⟩

/-- A jump is emitted that is patched later. -/
theorem ran_emitJump {op : Op} {line n : Nat} :
    Ran (emitJump op line) s n s' ↔
      n = s.size ∧ s' = s.withCurrent (s.current.emit op line) := by
  unfold emitJump
  simp only [ran_bind, ran_offset, ran_emit, ran_pure]
  constructor
  · rintro ⟨_, _, ⟨rfl, rfl⟩, _, _, rfl, rfl, rfl⟩
    exact ⟨rfl, rfl⟩
  · rintro ⟨rfl, rfl⟩
    exact ⟨_, _, ⟨rfl, rfl⟩, (), _, rfl, rfl, rfl⟩

/-- Patching succeeds when the distance fits, and changes nothing but the code. -/
theorem ran_patchJump {jump : Nat} {pos : Position} :
    Ran (patchJump jump pos) s u s' ↔
      ∃ c, s.chunk.patchJump? jump = some c ∧
        s' = s.withCurrent { s.current with chunk := c } := by
  unfold patchJump
  rw [ran_updateFunctionM]
  cases h : s.chunk.patchJump? jump with
  | none =>
    simp only [h]
    constructor
    · rintro ⟨g, hg, -⟩
      cases hg
    · rintro ⟨c, hc, -⟩
      cases hc
  | some c =>
    simp only [h]
    constructor
    · rintro ⟨g, hg, rfl⟩
      cases hg
      exact ⟨c, rfl, rfl⟩
    · rintro ⟨c', hc, rfl⟩
      cases hc
      exact ⟨_, rfl, rfl⟩

/-- The jump back of a loop, which has to be short enough. -/
theorem ran_emitLoop {start : Nat} {pos : Position} :
    Ran (emitLoop start pos) s u s' ↔
      s.size - start + 1 ≤ Chunk.maxJump ∧
        s' = s.withCurrent
          (s.current.emit (.loop (UInt16.ofNat (s.size - start + 1))) pos.line) := by
  unfold emitLoop
  rw [ran_bind]
  simp only [ran_offset]
  constructor
  · rintro ⟨_, _, ⟨rfl, rfl⟩, h⟩
    split at h
    · next hd => exact ⟨hd, ran_emit.1 h⟩
    · exact absurd h ran_fail
  · rintro ⟨hd, rfl⟩
    refine ⟨_, _, ⟨rfl, rfl⟩, ?_⟩
    rw [if_pos hd]
    exact ran_emit.2 rfl

/-- A constant, for which there has to be room. -/
theorem ran_addConstant {c : Constant} {pos : Position} {i : UInt16} :
    Ran (addConstant c pos) s i s' ↔
      ∃ chunk, s.chunk.addConstant? c = some (i, chunk) ∧
        s' = s.withCurrent { s.current with chunk := chunk } := by
  unfold addConstant
  simp only [ran_bind, ran_get]
  constructor
  · rintro ⟨_, _, ⟨rfl, rfl⟩, h⟩
    split at h
    · next j chunk hc =>
      obtain ⟨_, _, hset, hp⟩ := ran_bind.1 h
      obtain ⟨rfl, rfl⟩ := ran_pure.1 hp
      rw [ran_set] at hset
      exact ⟨chunk, hc, hset⟩
    · exact absurd h ran_fail
  · rintro ⟨chunk, hc, rfl⟩
    refine ⟨_, _, ⟨rfl, rfl⟩, ?_⟩
    rw [hc]
    exact ran_bind.2 ⟨(), _, ran_set.2 rfl, ran_pure.2 ⟨rfl, rfl⟩⟩

/-- A scope begins. -/
theorem ran_beginScope :
    Ran beginScope s u s' ↔ s' = s.withScope s.current.locals (s.current.depth + 1) := by
  rw [← withCurrent_depth]
  exact ran_updateFunction

/-- A local is declared and has its value. -/
theorem ran_defineLocal {name : String} {pos : Position} :
    Ran (defineLocal name pos) s u s' ↔
      ∃ g, s.current.define name pos = .ok g ∧ s' = s.withCurrent g := ran_updateFunctionM

/-- Something in a scope of its own. -/
theorem ran_inScope {line : Nat} {body : Gen Unit} :
    Ran (inScope line body) s u s' ↔
      ∃ t, Ran body (s.withScope s.current.locals (s.current.depth + 1)) () t ∧
        Ran (endScope line) t () s' := by
  unfold inScope
  simp only [ran_bind, ran_beginScope]
  constructor
  · rintro ⟨_, _, rfl, _, t, h, h'⟩
    exact ⟨t, h, h'⟩
  · rintro ⟨t, h, h'⟩
    exact ⟨(), _, rfl, (), t, h, h'⟩

end Primitives

end ScriptEngine.Compile
