import ScriptEngine.Proofs.Scoping

/-!
# Generators that move the stack by a fixed amount

Code for an expression finds some operands above the locals and leaves some results in their place.
`Turns` says so for a generator: it grows typed code from one height to another and leaves scopes,
loops and promises as they were. The rules below build such facts along the structure of a
generator; a forward jump that is patched in the same generator leaves nothing owed.
-/

namespace ScriptEngine.Compile

open Bytecode Source

/-- The generator grows typed code from `p` values above a level to `q` values above it. -/
def Turns (exact : Bool) (p q : Nat) {α : Type} (m : Gen α) : Prop :=
  ∀ ⦃s s' : CompilerState⦄ ⦃τ : Typing⦄ ⦃L : Level⦄ ⦃a : α⦄, At exact s.chunk τ (L.push p) →
    L.Ready → reach s.current.locals ≤ L.height → Ran m s a s' →
      ∃ τ', At exact s'.chunk τ' (L.push q) ∧ KeepsScopes s τ s' τ'

section Rules

variable {exact : Bool} {p q r : Nat} {α β : Type}

/-- Giving back a value keeps the height. -/
theorem Turns.pure (a : α) : Turns exact p p (pure a) := by
  intro s s' τ L b hat _ _ hr
  obtain ⟨-, rfl⟩ := ran_pure.1 hr
  exact ⟨τ, hat, .refl _ _⟩

/-- A generator that fails takes any height to any other, since it has no run. -/
theorem Turns.fail (cause : Cause) (pos : Position) :
    Turns exact p q (fail cause pos : Gen α) := by
  intro s s' τ L a _ _ _ hr
  exact absurd hr ran_fail

/-- Generators one after the other take the first height to the last. -/
theorem Turns.bind {m : Gen α} {f : α → Gen β} (hm : Turns exact p q m)
    (hf : ∀ a, Turns exact q r (f a)) : Turns exact p r (m >>= f) := by
  intro s s' τ L b hat hL hreach hr
  obtain ⟨a, t, hrm, hrf⟩ := ran_bind.1 hr
  obtain ⟨υ, hat', hk⟩ := hm hat hL hreach hrm
  obtain ⟨τ', hat'', hk'⟩ := hf a hat' hL (hk.reach ▸ hreach) hrf
  exact ⟨τ', hat'', hk.trans hk'⟩

/-- More values below the operands change nothing. -/
theorem Turns.above {m : Gen α} (h : Turns exact p q m) (k : Nat) :
    Turns exact (k + p) (k + q) m := by
  intro s s' τ L a hat hL hreach hr
  rw [← Level.push_push] at hat
  obtain ⟨τ', hat', hk⟩ := h hat (hL.push k) (Nat.le_add_right_of_le hreach) hr
  rw [Level.push_push] at hat'
  exact ⟨τ', hat', hk⟩

/-- A check that lets the rest go on. -/
theorem Turns.unless {c : Prop} [Decidable c] {cause : Cause} {pos : Position} {f : β → Gen α}
    {m : Gen α} (h : ¬ c → Turns exact p q m) :
    Turns exact p q (if c then (Compile.fail cause pos : Gen β) >>= f else m) := by
  split
  · intro s s' τ L a _ _ _ hr
    obtain ⟨_, _, hfail, -⟩ := ran_bind.1 hr
    exact absurd hfail ran_fail
  · next hc => exact h hc

/-- A plain instruction moves the stack by its effect. -/
theorem typed_plain {s : CompilerState} {τ : Typing} {L : Level} (op : Op)
    (hat : At exact s.chunk τ (L.push p)) (hL : L.Ready) (line : Nat)
    (hp : op.isPlain = true) (he : op.effect = (p, q)) :
    ∃ τ', At exact (s.withCurrent (s.current.emit op line)).chunk τ' (L.push q) ∧
      KeepsScopes s τ (s.withCurrent (s.current.emit op line)) τ' := by
  have hflow : (op.next s.chunk.code.size (L.push p)).Flows exact (L.push q) := by
    rw [Op.next_plain hp he]
    exact .refl _ _
  exact typed_straight hat op _ (Op.safe_plain hp he hL.pos hL.covered) (fun _ => hflow)
    (Op.jumpTarget?_of_isPlain hp _) line

/-- An instruction that only moves values turns its operands into its results. -/
theorem turns_emit {op : Op} (line : Nat) (hp : op.isPlain = true) (he : op.effect = (p, q)) :
    Turns exact p q (emit op line) := by
  intro s s' τ L a hat hL _ hr
  obtain rfl := ran_emit.1 hr
  exact typed_plain op hat hL line hp he

/-- Behind a `return` or a `raise` the level is free. -/
theorem turns_end {op : Op} (hop : op = .return ∨ op = .raise) (line : Nat) :
    Turns exact 1 q (emit op line) := by
  intro s s' τ L a hat hL _ hr
  obtain rfl := ran_emit.1 hr
  have hsafe : op.Safe exact (L.push 1) := by
    rcases hop with rfl | rfl <;>
      exact Op.safe_covered rfl nofun (Nat.succ_lt_succ hL.pos) hL.covered
  refine typed_straight hat op _ hsafe ?_ ?_ line
  · rcases hop with rfl | rfl <;> nofun
  · rcases hop with rfl | rfl <;> rfl

/-- Several generators that each push one value. -/
theorem turns_pushAll {f : α → Gen Unit} (hf : ∀ x, Turns exact 0 1 (f x)) (xs : List α) :
    Turns exact 0 xs.length (xs.forM f) := by
  induction xs with
  | nil => exact .pure ()
  | cons x xs ih =>
    have hrest := ih.above 1
    rw [Nat.add_comm 1 xs.length] at hrest
    exact (hf x).bind fun _ => hrest

/-- Several generators that each take one value. -/
theorem turns_popAll {f : α → Gen Unit} (hf : ∀ x, Turns exact 1 0 (f x)) (xs : List α) :
    Turns exact xs.length 0 (xs.forM f) := by
  induction xs with
  | nil => exact .pure ()
  | cons x xs ih => exact ((hf x).above xs.length).bind fun _ => ih

/-- A constant may be entered if it is no function or one that is typed. -/
theorem typed_addConstant {s s' : CompilerState} {τ : Typing} {L : Level} {c : Constant}
    {pos : Position} {i : UInt16} (hat : At exact s.chunk τ L)
    (hc : ∀ f, c = .function f → f.AllTyped exact) (hr : Ran (addConstant c pos) s i s') :
    ∃ τ', At exact s'.chunk τ' L ∧ KeepsScopes s τ s' τ' := by
  obtain ⟨chunk, hadd, rfl⟩ := ran_addConstant.1 hr
  obtain ⟨hcode, -, -⟩ := Chunk.addConstant?_spec hadd
  refine ⟨τ, hat.addConstant hadd hc, ?_, fun _ _ => rfl, rfl, rfl, rfl, rfl, forall₂_alike_refl _⟩
  simp only [CompilerState.size, withCurrent_current, hcode, Nat.le_refl]

/-- Entering a constant that is no function moves nothing. -/
theorem turns_addConstant {c : Constant} (hc : ∀ f, c ≠ .function f) (pos : Position) :
    Turns exact p p (addConstant c pos) :=
  fun _ _ _ _ _ hat _ _ hr => typed_addConstant hat (fun f hf => absurd hf (hc f)) hr

/-- Adding a name to the constants keeps the height. -/
theorem turns_addName (name : String) (pos : Position) : Turns exact p p (addName name pos) :=
  turns_addConstant (by nofun) pos

/-- The code for a constant pushes one value. -/
theorem turns_emitConstant {c : Constant} (hc : ∀ f, c ≠ .function f) (pos : Position) :
    Turns exact 0 1 (emitConstant c pos) :=
  .bind (turns_addConstant hc pos) fun _ => turns_emit _ rfl rfl

/-- Resolving a name moves nothing. -/
theorem turns_resolve (name : String) (pos : Position) : Turns exact p p (resolve name pos) := by
  intro s s' τ L a hat _ _ hr
  obtain ⟨hcur, henc, -⟩ := ran_resolve hr
  refine ⟨τ, ?_, .of_alike hcur henc τ⟩
  rw [CompilerState.chunk, hcur.chunk]
  exact hat

end Rules

/-- A number of arguments fits its operand. -/
theorem toNat_arguments {n : Nat} (h : ¬ n > maxArguments) : (UInt8.ofNat n).toNat = n := by
  rw [UInt8.toNat_ofNat']
  exact Nat.mod_eq_of_lt (Nat.lt_succ_of_le (Nat.not_lt.1 h))

/-- A number of elements fits its operand. -/
theorem toNat_elements {n : Nat} (h : ¬ n > maxElements) : (UInt16.ofNat n).toNat = n :=
  toNat_word (Nat.lt_succ_of_le (Nat.not_lt.1 h))

/-! ## Variables -/

section Variables

variable {exact : Bool} {s : CompilerState} {τ : Typing} {L : Level}

/-- A local variable may be read where its slot lies below the height. -/
theorem typed_getLocal (h : At exact s.chunk τ L) (hL : L.Ready) {i : UInt16}
    (hi : i.toNat < L.height) (line : Nat) :
    ∃ τ', At exact (s.withCurrent (s.current.emit (.getLocal i) line)).chunk τ' (L.push 1) ∧
      KeepsScopes s τ (s.withCurrent (s.current.emit (.getLocal i) line)) τ' := by
  have hsafe : (Op.getLocal i).Safe exact L :=
    { operands := fun _ => hL.pos
      slot := fun _ j hj => by
        cases hj
        exact hi
      handler := nofun
      covered := .inl hL.covered }
  exact typed_straight h _ _ hsafe (fun _ => .refl _ _) rfl line

/-- A local variable may be written where its slot lies below the value. -/
theorem typed_setLocal (h : At exact s.chunk τ (L.push 1)) (hL : L.Ready) {i : UInt16}
    (hi : i.toNat < L.height) (line : Nat) :
    ∃ τ', At exact (s.withCurrent (s.current.emit (.setLocal i) line)).chunk τ' (L.push 1) ∧
      KeepsScopes s τ (s.withCurrent (s.current.emit (.setLocal i) line)) τ' := by
  have hsafe : (Op.setLocal i).Safe exact (L.push 1) :=
    { operands := fun _ => Nat.succ_lt_succ hL.pos
      slot := fun _ j hj => by
        cases hj
        exact Nat.lt_succ_of_lt hi
      handler := nofun
      covered := .inl hL.covered }
  exact typed_straight h _ _ hsafe (fun _ => .refl _ _) rfl line

/-- Code that accesses a variable, for each way it may be reached. A slot lies within the reach of
the scope. -/
theorem turns_access {p q : Nat} {name : String} {pos : Position} {f : Access → Gen Unit}
    (hslot : ∀ (i : UInt16) ⦃s s' : CompilerState⦄ ⦃τ : Typing⦄ ⦃L : Level⦄,
      At exact s.chunk τ (L.push p) → L.Ready → i.toNat < L.height → Ran (f (.slot i)) s () s' →
        ∃ τ', At exact s'.chunk τ' (L.push q) ∧ KeepsScopes s τ s' τ')
    (hupvalue : ∀ i, Turns exact p q (f (.upvalue i))) (hglobal : Turns exact p q (f .global)) :
    Turns exact p q (resolve name pos >>= f) := by
  intro s s' τ L u hat hL hreach hr
  obtain ⟨a, t, hres, hrf⟩ := ran_bind.1 hr
  obtain ⟨-, -, hlt⟩ := ran_resolve hres
  obtain ⟨υ, hat', hk⟩ := turns_resolve name pos hat hL hreach hres
  have hreach' : reach t.current.locals ≤ L.height := hk.reach ▸ hreach
  have rest : ∃ τ', At exact s'.chunk τ' (L.push q) ∧ KeepsScopes t υ s' τ' := by
    cases a with
    | slot i => exact hslot i hat' hL (Nat.lt_of_lt_of_le (hlt i rfl) hreach) hrf
    | upvalue i => exact hupvalue i hat' hL hreach' hrf
    | global => exact hglobal hat' hL hreach' hrf
  obtain ⟨τ', hat'', hk'⟩ := rest
  exact ⟨τ', hat'', hk.trans hk'⟩

/-- Reading a variable pushes its value. -/
theorem turns_getVariable (name : String) (pos : Position) :
    Turns exact 0 1 (getVariable name pos) := by
  refine turns_access ?_ (fun i => turns_emit _ rfl rfl)
    (.bind (turns_addName name pos) fun _ => turns_emit _ rfl rfl)
  intro i s s' τ L hat hL hi hr
  obtain rfl := ran_emit.1 hr
  exact typed_getLocal hat hL hi _

/-- Assigning to a variable leaves the value. -/
theorem turns_setVariable (name : String) (pos : Position) :
    Turns exact 1 1 (setVariable name pos) := by
  refine turns_access ?_ (fun i => turns_emit _ rfl rfl)
    (.bind (turns_addName name pos) fun _ => turns_emit _ rfl rfl)
  intro i s s' τ L hat hL hi hr
  obtain rfl := ran_emit.1 hr
  exact typed_setLocal hat hL hi _

end Variables

/-! ## Operators -/

section Operators

variable {exact : Bool}

/-- A binary operator takes two values and leaves one. -/
theorem turns_emitBinary (op : BinaryOp) (line : Nat) : Turns exact 2 1 (emitBinary op line) := by
  cases op with
  | notEqual =>
    exact .bind (turns_emit line rfl rfl) fun _ => .bind (turns_emit line rfl rfl) fun _ => .pure ()
  | _ => exact .bind (turns_emit line rfl rfl) fun _ => .pure ()

/-- A unary operator replaces a value. -/
theorem turns_emitUnary (op : UnaryOp) (pos : Position) : Turns exact 1 1 (emitUnary op pos) := by
  have invoked : ∀ name, Turns exact 1 1
      (addName name pos >>= fun i => emit (.invoke 0 i) pos.line) := fun name =>
    .bind (turns_addName name pos) fun i =>
      turns_emit pos.line (Op.isPlain_invoke 0 i) (Op.effect_invoke 0 i)
  cases op with
  | length => exact invoked _
  | stringify => exact invoked _
  | _ => exact turns_emit pos.line rfl rfl

end Operators

end ScriptEngine.Compile
