import ScriptEngine.Machine.Instructions
import ScriptEngine.Proofs.Raising

/-!
# Executing the code of the core

The machine executes an instruction of the core as the steps on data do: where the step goes on, the
machine stands at the next configuration, and where the step refuses, the machine raises an
exception of the same class.
-/

namespace ScriptEngine.State

open Bytecode Reference Source

section Operators

variable {s : State} {p : Proto} {i : Image} {k : Config} {a b d : Datum} {data rest : List Datum}
variable {pc : Nat} {globals : String → Option Datum}

/-- The operator of the machine for an operator of the core that is left to numbers. -/
def operatorOf? : BinaryOp → Option Operator
  | .add => some .add
  | .subtract => some .subtract
  | .multiply => some .multiply
  | .divide => some .divide
  | .less => some .less
  | .lessEqual => some .lessEqual
  | .greater => some .greater
  | .greaterEqual => some .greaterEqual
  | _ => none

/-- What the machine executes for a binary operator. -/
theorem execute_binary {o : Op} {op : BinaryOp} (h : binaryOf? o = some op) :
    (o = .equal ∧ op = .equal) ∨ ∃ m, operatorOf? op = some m ∧ Act.execute o = Act.binary m := by
  cases o <;> simp only [binaryOf?, Option.some.injEq, reduceCtorEq] at h <;> subst h
  case equal => exact .inl ⟨rfl, rfl⟩
  all_goals exact .inr ⟨_, rfl, rfl⟩

/-- The operators of the reference semantics and of the machine agree on numbers. -/
theorem onNumbers_value {op : BinaryOp} {m : Operator} (h : operatorOf? op = some m) (x y : Number) :
    ∃ d, Reference.onNumbers op x y = some d ∧ m.onNumbers x y = some d.value := by
  cases op <;> simp only [operatorOf?, Option.some.injEq, reduceCtorEq] at h <;> subst h
  all_goals exact ⟨_, rfl, rfl⟩

/-- The reference semantics applies an operator to two numbers, joins two strings and refuses all
else. -/
theorem applyBinary_eq {op : BinaryOp} {m : Operator} (h : operatorOf? op = some m) (a b : Datum) :
    applyBinary op a b =
      match a, b with
      | .number x, .number y => Reference.onNumbers op x y
      | _, _ => none := by
  cases op <;> first | rfl | cases h

/-- The method of an operator is an overload. -/
theorem isOverload_method (m : Operator) : isOverload m.method = true := by
  cases m <;> decide

/-- The method of an operator for a value on its right is an overload. -/
theorem isOverload_reflected {m : Operator} {name : Special} (h : m.reflected? = some name) :
    isOverload name = true := by
  cases m <;> simp only [Operator.reflected?, Option.some.injEq, reduceCtorEq] at h <;> subst h <;>
    decide

/-- Data overload no operator. -/
theorem overload_refuses (he : s.Equipped) (m : Operator) (a b : Datum) :
    ∃ message, Act.overload m a.value b.value s =
      (Act.fail .typeException message : Act Control) s := by
  unfold Act.overload
  simp only [Act.bind_run, he.noMethod a (isOverload_method m), Proc.bind_done]
  cases hr : m.reflected? with
  | none => exact ⟨_, rfl⟩
  | some name =>
    simp only [Act.bind_run, he.noMethod b (isOverload_reflected hr), Proc.bind_done]
    exact ⟨_, rfl⟩

/-- Data of the core is no string object of the heap. -/
theorem string?_value (s : State) (d : Datum) : s.string? d.value = none := by
  cases d <;> rfl

/-- Operands that are not both numbers. -/
theorem At.binary_refuses (h : s.At p i ⟨pc, b :: a :: rest, globals⟩) (m : Operator)
    (hab : ∀ x y, a = .number x → b ≠ .number y) :
    ∃ message, Act.binary m s = (Act.fail .typeException message : Act Control) s := by
  have hstrings : Act.bothStrings a.value b.value s = .done none s := by
    unfold Act.bothStrings
    rw [Act.gets_run, string?_value, string?_value]
  obtain ⟨message, hm⟩ := overload_refuses h.toEquipped m a b
  refine ⟨message, ?_⟩
  unfold Act.binary
  simp only [Act.bind_run, h.peek (n := 0) rfl, h.peek (n := 1) rfl, Proc.bind_done]
  have hne : ∀ x y, a.value = .number x → b.value = .number y → False := by
    intro x y hx hy
    cases a <;> cases hx
    cases b <;> cases hy
    exact hab x y rfl rfl
  by_cases hadd : m = .add
  · simp only [if_pos hadd, Act.bind_run, hstrings, Proc.bind_done, hm]
  · simp only [if_neg hadd, Act.bind_run, Act.pure_run, Proc.bind_done, hm]

/-- Replacing the two values on top puts the machine at the configuration with one value in their
place. -/
theorem At.replaceTop₂ (h : s.At p i ⟨pc, b :: a :: rest, globals⟩) (d : Datum) :
    ∃ s', Act.replaceTop 2 d.value s = .done () s' ∧ s'.At p i ⟨pc, d :: rest, globals⟩ :=
  ⟨_, rfl, h.drop.drop.push d⟩

/-- Replacing the value on top puts the machine at the configuration with the new value. -/
theorem At.replaceTop₁ (h : s.At p i ⟨pc, a :: rest, globals⟩) (d : Datum) :
    ∃ s', Act.replaceTop 1 d.value s = .done () s' ∧ s'.At p i ⟨pc, d :: rest, globals⟩ :=
  ⟨_, rfl, h.drop.push d⟩

/-- Operands that are numbers. -/
theorem At.binary_numbers {x y : Number} (h : s.At p i ⟨pc, .number y :: .number x :: rest, globals⟩)
    {m : Operator} (hd : m.onNumbers x y = some d.value) :
    ∃ s', Act.binary m s = .done .next s' ∧ s'.At p i ⟨pc, d :: rest, globals⟩ := by
  obtain ⟨s', hrun, hat⟩ := h.replaceTop₂ d
  refine ⟨s', ?_, hat⟩
  unfold Act.binary
  simp only [Act.bind_run, h.peek (n := 0) rfl, h.peek (n := 1) rfl, Proc.bind_done, value_number,
    hd, hrun, Act.pure_run]

/-- Equality of data is their identity. -/
theorem At.equal (h : s.At p i ⟨pc, b :: a :: rest, globals⟩) :
    ∃ s', Act.execute .equal s = .done .next s' ∧
      s'.At p i ⟨pc, .bool (a.same b) :: rest, globals⟩ := by
  obtain ⟨s', hrun, hat⟩ := h.replaceTop₂ (.bool (a.same b))
  have hequal : Act.equal a.value b.value s = .done (a.same b) s := by
    rw [← same_value]
    cases a <;> rfl
  refine ⟨s', ?_, hat⟩
  unfold Act.execute Act.thenNext
  rw [value_bool] at hrun
  simp only [Act.bind_run, h.peek (n := 0) rfl, h.peek (n := 1) rfl, Proc.bind_done, hequal, hrun,
    Act.pure_run]

/-- Arithmetic negation of a number. -/
theorem At.negate_number {x : Number} (h : s.At p i ⟨pc, .number x :: rest, globals⟩) :
    ∃ s', Act.negate s = .done .next s' ∧ s'.At p i ⟨pc, .number x.negate :: rest, globals⟩ := by
  obtain ⟨s', hrun, hat⟩ := h.replaceTop₁ (.number x.negate)
  refine ⟨s', ?_, hat⟩
  unfold Act.negate Act.unary
  rw [value_number] at hrun
  simp only [Act.bind_run, h.peek (n := 0) rfl, Proc.bind_done, value_number, hrun, Act.pure_run]

/-- Arithmetic negation of anything else. -/
theorem At.negate_refuses (h : s.At p i ⟨pc, a :: rest, globals⟩) (ha : ∀ x, a ≠ .number x) :
    ∃ message, Act.negate s = (Act.fail .typeException message : Act Control) s := by
  have hnone := h.noMethod a (show State.isOverload .neg = true by decide)
  unfold Act.negate Act.unary
  simp only [Act.bind_run, h.peek (n := 0) rfl, Proc.bind_done]
  cases a with
  | number x => exact absurd rfl (ha x)
  | bool x =>
    rw [value_bool] at hnone
    simp only [value_bool, Act.bind_run, hnone, Proc.bind_done]
    exact ⟨_, rfl⟩
  | null =>
    rw [value_null] at hnone
    simp only [value_null, Act.bind_run, hnone, Proc.bind_done]
    exact ⟨_, rfl⟩

end Operators

/-! ## One instruction -/

section Instructions

variable {s : State} {p : Proto} {i : Image} {k k' : Config} {op : Op} {reason : Refusal}

/-- What the machine does at a configuration whose step goes on. -/
def Executes (s : State) (p : Proto) (i : Image) (op : Op) (k' : Config) : Prop :=
  ∃ s', Act.execute op s = .done .next s' ∧ s'.At p i k'

/-- An instruction that goes on after an action executes as that action does. -/
theorem executes_of_thenNext {x : Act Unit} (hop : Act.execute op = Act.thenNext x) {s' : State}
    (hx : x s = .done () s') (hat : s'.At p i k') : s.Executes p i op k' := by
  refine ⟨s', ?_, hat⟩
  rw [hop]
  unfold Act.thenNext
  rw [Act.bind_run, hx]
  rfl

/-- What the machine executes for a unary operator. -/
theorem unaryOf?_cases {op' : UnaryOp} (h : unaryOf? op = some op') :
    (op = .negate ∧ op' = .negate) ∨ (op = .not ∧ op' = .not) := by
  cases op <;> simp only [unaryOf?, Option.some.injEq, reduceCtorEq] at h <;> subst h
  · exact .inl ⟨rfl, rfl⟩
  · exact .inr ⟨rfl, rfl⟩

/-- Where the step of an operator goes on, the machine stands at the next configuration. -/
theorem At.operate (h : s.At p i ⟨k.pc + 1, k.stack, k.globals⟩) (hk : k.operate op = .next k') :
    s.Executes p i op k' := by
  obtain ⟨pc, data, globals⟩ := k
  unfold Config.operate Config.goOn at hk
  split at hk
  · next op' b a rest hb hstack =>
    obtain rfl : data = b :: a :: rest := hstack
    split at hk
    · next d hd =>
      cases hk
      obtain ⟨rfl, rfl⟩ | ⟨m, hm, hrun⟩ := execute_binary hb
      · cases hd
        exact h.equal
      · rw [applyBinary_eq hm] at hd
        split at hd
        · next x y =>
          obtain ⟨d', hd', hv⟩ := onNumbers_value hm x y
          obtain rfl := Option.some.inj (hd.symm.trans hd')
          obtain ⟨s', hs', hat⟩ := h.binary_numbers hv
          exact ⟨s', hrun ▸ hs', hat⟩
        · cases hd
    · cases hk
  · next op' a rest hu hstack _ =>
    obtain rfl : data = a :: rest := hstack
    split at hk
    · next d hd =>
      cases hk
      obtain ⟨rfl, rfl⟩ | ⟨rfl, rfl⟩ := unaryOf?_cases hu
      · cases a with
        | number x =>
          cases hd
          exact h.negate_number
        | bool b => cases hd
        | null => cases hd
      · cases hd
        refine executes_of_thenNext rfl ?_ (h.drop.push (.bool !a.isTruthy))
        simp only [Act.bind_run, h.pop, Proc.bind_done, Act.push_run, isTruthy_value, value_bool]
    · cases hk
  · cases hk

/-- What the machine does at a configuration whose step refuses. -/
def Refuses (s : State) (op : Op) (reason : Refusal) : Prop :=
  ∃ message, ∀ s', (∀ α, (Act.fail reason.coreClass message : Act α) s = .raised s') →
    Act.execute op s = .raised s'

/-- An instruction that fails with the class of a reason refuses for it. -/
theorem refuses_of_eq {message : String}
    (h : Act.execute op s = (Act.fail reason.coreClass message : Act Control) s) :
    s.Refuses op reason :=
  ⟨message, fun _ hs => h.trans (hs Control)⟩

/-- An instruction that goes on after an action refuses where that action fails. -/
theorem refuses_of_thenNext {x : Act Unit} (hop : Act.execute op = Act.thenNext x)
    (hx : ∃ message, x s = (Act.fail reason.coreClass message : Act Unit) s) :
    s.Refuses op reason := by
  obtain ⟨message, hx⟩ := hx
  refine ⟨message, fun s' hs => ?_⟩
  rw [hop]
  unfold Act.thenNext
  rw [Act.bind_run, hx, hs Unit]
  rfl

/-- Where the step of an operator refuses, the machine raises. -/
theorem At.operate_refuses (h : s.At p i ⟨k.pc + 1, k.stack, k.globals⟩)
    (hk : k.operate op = .refuse reason) : s.Refuses op reason := by
  obtain ⟨pc, data, globals⟩ := k
  unfold Config.operate Config.goOn at hk
  split at hk
  · next op' b a rest hb hstack =>
    obtain rfl : data = b :: a :: rest := hstack
    split at hk
    · cases hk
    · next hd =>
      cases hk
      obtain ⟨rfl, rfl⟩ | ⟨m, hm, hrun⟩ := execute_binary hb
      · cases hd
      · rw [applyBinary_eq hm] at hd
        obtain ⟨message, hs⟩ := h.binary_refuses m (a := a) (b := b) (by
          rintro x y rfl rfl
          obtain ⟨d, hd', -⟩ := onNumbers_value hm x y
          cases hd.symm.trans hd')
        exact refuses_of_eq (hrun ▸ hs)
  · next op' a rest hu hstack _ =>
    obtain rfl : data = a :: rest := hstack
    split at hk
    · cases hk
    · next hd =>
      cases hk
      obtain ⟨rfl, rfl⟩ | ⟨rfl, rfl⟩ := unaryOf?_cases hu
      · obtain ⟨message, hs⟩ := h.negate_refuses (a := a) (by
          rintro x rfl
          cases hd)
        exact refuses_of_eq hs
      · cases hd
  · cases hk

/-- A name among the constants that a step looks up. -/
theorem ownName?_iff {c : Chunk} {j : UInt16} {x : String} :
    ownName? c j = some x ↔ c.string? j = some x ∧ isOwnName x = true :=
  Option.filter_eq_some_iff

/-- Where a step goes on, the machine stands at the next configuration. -/
theorem At.executes (h : s.At p i ⟨k.pc + 1, k.stack, k.globals⟩)
    (hk : perform p.chunk k op = .next k') : s.Executes p i op k' := by
  obtain ⟨pc, data, globals⟩ := k
  unfold perform Config.push Config.goOn Config.define at hk
  cases op <;> dsimp only at hk
  case constant i =>
    -- a constant
    split at hk
    · next n hn =>
      cases hk
      refine executes_of_thenNext rfl ?_ (h.push (.number n))
      simp only [Act.bind_run, h.number hn, Proc.bind_done, Act.push_run, value_number]
    · cases hk
  case null =>
    cases hk
    exact executes_of_thenNext rfl rfl (h.push .null)
  case true =>
    cases hk
    exact executes_of_thenNext rfl rfl (h.push (.bool true))
  case false =>
    cases hk
    exact executes_of_thenNext rfl rfl (h.push (.bool false))
  case pop =>
    -- `pop`
    split at hk
    · next d rest =>
      cases hk
      exact executes_of_thenNext rfl rfl h.drop
    · cases hk
  case dup =>
    -- `dup`
    split at hk
    · next d rest =>
      cases hk
      refine executes_of_thenNext rfl ?_ (h.push d)
      simp only [Act.bind_run, h.peek (n := 0) rfl, Proc.bind_done, Act.push_run]
    · cases hk
  case getLocal slot =>
    -- reading a local variable
    split at hk
    · next d hd =>
      cases hk
      refine executes_of_thenNext rfl ?_ (h.push d)
      simp only [Act.bind_run, h.frame, Proc.bind_done, h.slotAt hd, Act.push_run]
    · cases hk
  case setLocal slot =>
    -- assigning one
    split at hk
    · next d rest j hj =>
      cases hk
      obtain ⟨hlt, hat⟩ := h.setLocal hj d
      refine executes_of_thenNext rfl ?_ hat
      simp only [Act.bind_run, h.frame, Proc.bind_done, h.peek (n := 0) rfl, Act.setSlotAt, hlt,
        if_true]
    · cases hk
  case getGlobal _ =>
    -- reading a global variable
    split at hk
    · next x hx =>
      split at hk
      · next d hd =>
        cases hk
        obtain ⟨hstr, hown⟩ := ownName?_iff.1 hx
        obtain ⟨key, hname, hkey⟩ := h.name hstr
        refine executes_of_thenNext rfl ?_ (h.push d)
        have hglobal : s.global? i.module key = some d.value := by
          rw [h.global? hown hkey]
          exact congrArg _ hd
        simp only [Act.bind_run, hname, Proc.bind_done, Act.gets_run, h.currentModule,
          Act.pushModuleGlobal, hglobal, Act.push_run]
      · cases hk
    · cases hk
  case setGlobal _ =>
    -- assigning one
    split at hk
    · next x d rest hx =>
      split at hk
      · next hd =>
        cases hk
        obtain ⟨hstr, hown⟩ := ownName?_iff.1 hx
        obtain ⟨key, hname, hkey⟩ := h.name hstr
        refine executes_of_thenNext rfl ?_ (h.setGlobal hkey d)
        have hglobal : (s.global? i.module key).isSome = true := by
          rw [h.global? hown hkey, Option.isSome_map]
          exact hd
        simp only [Act.bind_run, hname, Proc.bind_done, Act.assignGlobal, Act.gets_run,
          h.currentModule, h.peek (n := 0) rfl, hglobal, if_true, Act.modify_run]
      · cases hk
    · cases hk
  case defineGlobal _ =>
    -- declaring one
    split at hk
    · next x d rest hx =>
      cases hk
      obtain ⟨hstr, hown⟩ := ownName?_iff.1 hx
      obtain ⟨key, hname, hkey⟩ := h.name hstr
      refine executes_of_thenNext rfl ?_ (h.drop.setGlobal hkey d)
      simp only [Act.bind_run, hname, Proc.bind_done, h.pop, Act.modify_run, h.drop.currentModule]
    · cases hk
  case jump distance =>
    -- jumps
    cases hk
    obtain ⟨s', hs', hat⟩ := h.jumpBy distance
    refine executes_of_thenNext rfl ?_ hat
    simp only [Act.bind_run, hs', Proc.bind_done, hat.checkInterrupt]
  case loop distance =>
    cases hk
    obtain ⟨s', hs', hat⟩ := h.jumpBack distance
    refine executes_of_thenNext rfl ?_ hat
    simp only [Act.bind_run, hs', Proc.bind_done, hat.checkInterrupt]
  case jumpIfFalse distance =>
    split at hk
    · next d rest =>
      obtain ⟨s', hs', hat⟩ := h.drop.jumpBy distance
      split at hk
      · next hd =>
        cases hk
        refine executes_of_thenNext rfl ?_ h.drop
        simp only [Act.bind_run, h.pop, Proc.bind_done, isTruthy_value, hd, if_true, Act.pure_run]
      · next hd =>
        cases hk
        refine executes_of_thenNext rfl ?_ hat
        simp only [Act.bind_run, h.pop, Proc.bind_done, isTruthy_value, hd, hs', Bool.false_eq_true,
          if_false]
    · cases hk
  case jumpIfTrue distance =>
    split at hk
    · next d rest =>
      obtain ⟨s', hs', hat⟩ := h.drop.jumpBy distance
      split at hk
      · next hd =>
        cases hk
        refine executes_of_thenNext rfl ?_ hat
        simp only [Act.bind_run, h.pop, Proc.bind_done, isTruthy_value, hd, hs', if_true]
      · next hd =>
        cases hk
        refine executes_of_thenNext rfl ?_ h.drop
        simp only [Act.bind_run, h.pop, Proc.bind_done, isTruthy_value, hd, Bool.false_eq_true,
          if_false, Act.pure_run]
    · cases hk
  case unpack _ =>
    split at hk <;> cases hk
  case «return» =>
    cases hk
  all_goals exact h.operate hk

/-- Where a step refuses, the machine raises an exception of the same class. -/
theorem At.refuses (h : s.At p i ⟨k.pc + 1, k.stack, k.globals⟩)
    (hk : perform p.chunk k op = .refuse reason) : s.Refuses op reason := by
  obtain ⟨pc, data, globals⟩ := k
  unfold perform Config.push Config.goOn Config.define at hk
  cases op <;> dsimp only at hk
  case constant i =>
    split at hk <;> cases hk
  case null =>
    cases hk
  case true =>
    cases hk
  case false =>
    cases hk
  case pop =>
    split at hk <;> cases hk
  case dup =>
    split at hk <;> cases hk
  case getLocal slot =>
    split at hk <;> cases hk
  case setLocal slot =>
    split at hk <;> cases hk
  case getGlobal _ =>
    -- a global variable that is not there
    split at hk
    · next x hx =>
      split at hk
      · cases hk
      · next hd =>
        cases hk
        obtain ⟨hstr, hown⟩ := ownName?_iff.1 hx
        obtain ⟨key, hname, hkey⟩ := h.name hstr
        have hglobal : s.global? i.module key = none := by
          rw [h.global? hown hkey]
          exact congrArg _ hd
        refine refuses_of_thenNext rfl ?_
        simp only [Act.bind_run, hname, Proc.bind_done, Act.gets_run, h.currentModule,
          Act.pushModuleGlobal, hglobal]
        exact ⟨_, rfl⟩
    · cases hk
  case setGlobal _ =>
    split at hk
    · next x d rest hx =>
      split at hk
      · cases hk
      · next hd =>
        cases hk
        obtain ⟨hstr, hown⟩ := ownName?_iff.1 hx
        obtain ⟨key, hname, hkey⟩ := h.name hstr
        have hglobal : (s.global? i.module key).isSome = false := by
          rw [h.global? hown hkey, Option.isSome_map]
          exact Bool.eq_false_iff.2 hd
        refine refuses_of_thenNext rfl ?_
        simp only [Act.bind_run, hname, Proc.bind_done, Act.assignGlobal, Act.gets_run,
          h.currentModule, h.peek (n := 0) rfl, hglobal, Bool.false_eq_true, if_false]
        exact ⟨_, rfl⟩
    · cases hk
  case defineGlobal _ =>
    split at hk <;> cases hk
  case jump distance =>
    cases hk
  case loop distance =>
    cases hk
  case jumpIfFalse distance =>
    split at hk
    · split at hk <;> cases hk
    · cases hk
  case jumpIfTrue distance =>
    split at hk
    · split at hk <;> cases hk
    · cases hk
  case unpack _ =>
    -- a value that cannot be unpacked
    split at hk
    · next d rest =>
      cases hk
      have hitems : (s.list? d.value).or (s.tuple? d.value) = none := by cases d <;> rfl
      refine refuses_of_thenNext rfl ?_
      simp only [Act.unpack, Act.bind_run, h.peek (n := 0) rfl, Proc.bind_done, Act.gets_run, hitems]
      exact ⟨_, rfl⟩
    · cases hk
  case «return» =>
    cases hk
  all_goals exact h.operate_refuses hk

end Instructions

end ScriptEngine.State
