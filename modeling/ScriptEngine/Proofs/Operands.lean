import ScriptEngine.Proofs.Acceptance
import ScriptEngine.Proofs.Siting

/-!
# Operands that are exact

Slots, indices and numbers of things are natural numbers until an instruction is made of them, which
has eight or sixteen bits for each. `FunctionState.Sized` bounds what is numbered in a function
under construction, and the generators check the other numbers against limits, so that nothing is
cut off. There is one exception. A function may capture as many variables as there are indices,
which is one more than its prototype can count.
-/

namespace ScriptEngine.Bytecode

/-- How many values or names an instruction says it is about. -/
def Op.count? : Op → Option Nat
  | .callShort n | .invokeShort n _ => some n
  | .callLong n | .invokeLong n _ | .superCall n _ | .unpack n => some n.toNat
  | .newList n | .newTuple n | .newTable n => some n.toNat
  | _ => none

@[simp] theorem Op.count?_call (n : UInt8) : (call n).count? = some n.toNat := by
  unfold call
  split <;> rfl

@[simp] theorem Op.count?_invoke (n : UInt8) (name : UInt16) :
    (invoke n name).count? = some n.toNat := by
  unfold invoke
  split <;> rfl

/-- Sixteen bits count up to one less than there are indices. -/
theorem toNat_count {n : Nat} (h : n ≤ 65536) : (UInt16.ofNat n).toNat = n ↔ n ≠ 65536 := by
  rw [UInt16.toNat_ofNat']
  omega

end ScriptEngine.Bytecode

namespace ScriptEngine.Compile

open Bytecode Source

/-! ## Functions under construction -/

namespace FunctionState

/-- What is numbered in a function under construction has numbers of sixteen bits. -/
structure Sized (f : FunctionState) : Prop where
  /-- Slots fit. -/
  locals : f.locals.length ≤ maxLocals
  /-- Indices of captures fit. -/
  upvalues : f.upvalues.size ≤ maxUpvalues
  /-- Indices of constants fit. -/
  constants : f.chunk.constants.size ≤ Chunk.maxConstants

/-- Functions that declarations, captures and new constants lead to, and whatever else makes no
local, no capture and no constant. -/
inductive Reached : FunctionState → Prop
  | start (slotZero : String) : Reached (.start slotZero)
  | declare {f f' : FunctionState} {name : String} {pos : Position} :
      Reached f → f.declare name pos = .ok f' → Reached f'
  | capture {f f' : FunctionState} {c : Capture} {pos : Position} {i : UInt16} :
      Reached f → f.addUpvalue c pos = .ok (i, f') → Reached f'
  | constant {f : FunctionState} {k : Constant} {i : UInt16} {c : Chunk} :
      Reached f → f.chunk.addConstant? k = some (i, c) → Reached { f with chunk := c }
  | other {f f' : FunctionState} :
      Reached f → f'.locals.length ≤ f.locals.length → f'.upvalues = f.upvalues →
        f'.chunk.constants = f.chunk.constants → Reached f'

/-- Operands that refer to something in a function under construction are its numbers, and what has
no number is refused. -/
structure Exact (f : FunctionState) : Prop where
  /-- A local that is found has its slot. -/
  slots : ∀ (name : String) (pos : Position) (i : UInt16), f.resolveLocal name pos = .ok (some i) →
    ∃ l, findLocal name f.locals = some (i.toNat, l)
  /-- A captured variable has its index. -/
  captures : ∀ (c : Capture) (pos : Position) (i : UInt16) (f' : FunctionState),
    f.addUpvalue c pos = .ok (i, f') → f'.upvalues[i.toNat]? = some c
  /-- A constant has its index. -/
  constants : ∀ (k : Constant) (i : UInt16) (c : Chunk), f.chunk.addConstant? k = some (i, c) →
    c.constants[i.toNat]? = some k
  /-- A capture is refused where there is no index left, and not before. -/
  refused : ∀ (c : Capture) (pos : Position) (d : Diagnostic), f.addUpvalue c pos = .error d ↔
    c ∉ f.upvalues ∧ f.upvalues.size = 65536 ∧ d = ⟨.tooManyUpvalues, pos⟩
  /-- The prototype counts the parameters. -/
  arity : ∀ (sig : Signature) (defaults : Array Constant),
    parameterDefaults sig.params sig.pos = .ok defaults →
      (sig.proto defaults f).arity.toNat = sig.params.length
  /-- It counts the captures, unless there is no index left. -/
  counted : ∀ (sig : Signature) (defaults : Array Constant),
    (sig.proto defaults f).upvalueCount.toNat = f.upvalues.size ↔ f.upvalues.size ≠ 65536

variable {f f' : FunctionState} {pos : Position}

/-- Declaring a name keeps what is numbered within its bounds. -/
theorem Sized.declare (h : f.Sized) {name : String} (hd : f.declare name pos = .ok f') :
    f'.Sized := by
  have hlt := declare_lt hd
  rw [declare_eq] at hd
  split at hd <;> cases hd
  exact ⟨hlt, h.upvalues, h.constants⟩

/-- Adding a capture keeps what is numbered within its bounds. -/
theorem Sized.addUpvalue (h : f.Sized) {c : Capture} {i : UInt16}
    (ha : f.addUpvalue c pos = .ok (i, f')) : f'.Sized := by
  obtain ⟨hw, hlimit, -, -⟩ := addUpvalue_spec ha h.upvalues
  have hlocals : f'.locals = f.locals := by
    rw [addUpvalue_eq] at ha
    split at ha
    · cases ha
      rfl
    · split at ha <;> cases ha
      rfl
  refine ⟨?_, hlimit, ?_⟩
  · rw [hlocals]
    exact h.locals
  · rw [hw.chunk]
    exact h.constants

/-- What is numbered in a function the generators have reached lies within its bounds. -/
theorem Reached.sized (h : f.Reached) : f.Sized := by
  induction h with
  | start slotZero =>
    exact ⟨(by decide : 1 ≤ maxLocals), Nat.zero_le _, Nat.zero_le _⟩
  | declare _ hd ih => exact ih.declare hd
  | capture _ ha ih => exact ih.addUpvalue ha
  | constant _ hk ih => exact ⟨ih.locals, ih.upvalues, (Chunk.addConstant?_get hk ih.constants).2⟩
  | other _ hl hu hc ih =>
    refine ⟨Nat.le_trans hl ih.locals, ?_, ?_⟩
    · rw [hu]
      exact ih.upvalues
    · rw [hc]
      exact ih.constants

/-- The slot found for a local is the one it has in the list of locals. -/
theorem Sized.resolveLocal (h : f.Sized) {name : String} {i : UInt16}
    (hr : f.resolveLocal name pos = .ok (some i)) :
    ∃ l, findLocal name f.locals = some (i.toNat, l) := by
  unfold FunctionState.resolveLocal at hr
  split at hr
  · cases hr
  · next slot l hfind =>
    split at hr <;> cases hr
    refine ⟨l, ?_⟩
    rw [hfind, toNat_word (Nat.lt_of_lt_of_le (findLocal_lt_length hfind) h.locals)]

/-- A capture is refused exactly if it is new and there is no index left for it. -/
theorem Sized.addUpvalue_eq_error (h : f.Sized) {c : Capture} {d : Diagnostic} :
    f.addUpvalue c pos = .error d ↔
      c ∉ f.upvalues ∧ f.upvalues.size = maxUpvalues ∧ d = ⟨.tooManyUpvalues, pos⟩ := by
  rw [addUpvalue_eq]
  cases hfind : f.upvalues.findIdx? (· == c) with
  | some n =>
    obtain ⟨hlt, heq, -⟩ := Array.findIdx?_eq_some_iff_getElem.1 hfind
    have hmem : c ∈ f.upvalues := beq_iff_eq.1 heq ▸ Array.getElem_mem hlt
    simp [hmem]
  | none =>
    have hnot : c ∉ f.upvalues := fun hmem => by
      simpa using Array.findIdx?_eq_none_iff.1 hfind c hmem
    have hle := h.upvalues
    dsimp only
    split
    · next hlt => simp [Nat.ne_of_lt hlt]
    · next hge =>
      have heq : f.upvalues.size = maxUpvalues := by omega
      simp [hnot, heq, eq_comm]

/-- What lies within its bounds is an exact operand. -/
theorem Sized.exact (h : f.Sized) : f.Exact where
  slots _ _ _ := h.resolveLocal
  captures _ _ _ _ ha := getElem?_addUpvalue ha h.upvalues
  constants _ _ _ hk := (Chunk.addConstant?_get hk h.constants).1
  refused _ _ _ := h.addUpvalue_eq_error
  arity _ _ hd := toNat_arguments (parameterDefaults_ok hd)
  counted _ _ := toNat_count h.upvalues

/-- Whatever a function under construction holds, the operands made of it are exact. -/
theorem Reached.exact (h : f.Reached) : f.Exact := h.sized.exact

/-- A function can capture as many variables as there are indices. -/
theorem exists_reached {n : Nat} (hn : n ≤ maxUpvalues) :
    ∃ f : FunctionState, f.Reached ∧ f.upvalues.size = n ∧ ∀ c ∈ f.upvalues, c.index.toNat < n := by
  induction n with
  | zero => exact ⟨.start "", .start _, rfl, fun c hc => absurd hc (Array.not_mem_empty c)⟩
  | succ n ih =>
    obtain ⟨f, hf, hsize, hbelow⟩ := ih (Nat.le_of_succ_le hn)
    have hnew : f.upvalues.findIdx? (· == ⟨true, UInt16.ofNat n⟩) = none := by
      refine Array.findIdx?_eq_none_iff.2 fun c hc => beq_eq_false_iff_ne.2 ?_
      rintro rfl
      have hlt := hbelow _ hc
      rw [toNat_word hn] at hlt
      exact Nat.lt_irrefl n hlt
    have hadd : f.addUpvalue ⟨true, UInt16.ofNat n⟩ ⟨1, 1⟩ = .ok (UInt16.ofNat f.upvalues.size,
        { f with captures := f.captures.push ⟨true, UInt16.ofNat n⟩ }) := by
      rw [addUpvalue_eq, hnew]
      exact if_pos (hsize ▸ hn)
    refine ⟨_, .capture hf hadd, ?_, fun c hc => ?_⟩
    · rw [upvalues_push, Array.size_push, hsize]
    · rw [upvalues_push, Array.mem_push] at hc
      rcases hc with hc | rfl
      · exact Nat.lt_succ_of_lt (hbelow c hc)
      · exact Nat.lt_succ_of_le (Nat.le_of_eq (toNat_word hn))

end FunctionState

/-! ## Instructions that count -/

/-- A generator that ends with an instruction of some kind. -/
def Ends {α : Type} (P : Op → Prop) (m : Gen α) : Prop :=
  ∀ s a s', Ran m s a s' → ∃ op, s'.chunk.code.back? = some op ∧ P op

section Ends

variable {α β : Type} {P : Op → Prop}

/-- The last instruction of code is the one emitted last. -/
theorem back?_emit (s : CompilerState) (op : Op) (line : Nat) :
    (s.withCurrent (s.current.emit op line)).chunk.code.back? = some op := by
  rw [CompilerState.chunk, withCurrent_current, FunctionState.emit_chunk, Chunk.emit_code,
    Array.back?_push]

/-- What code ends with is decided by the second part. -/
theorem Ends.bind (m : Gen α) {f : α → Gen β} (hf : ∀ a, Ends P (f a)) : Ends P (m >>= f) := by
  intro s b s' hr
  obtain ⟨a, t, -, hr⟩ := ran_bind.1 hr
  exact hf a t b s' hr

/-- Code that was emitted ends with the instruction. -/
theorem Ends.emit {op : Op} (line : Nat) (h : P op) : Ends P (emit op line) := by
  intro s u s' hr
  obtain rfl := ran_emit.1 hr
  exact ⟨op, back?_emit s op line, h⟩

/-- A check that must not fail decides nothing about the end of the code. -/
theorem Ends.unless {p : Prop} [Decidable p] {cause : Cause} {pos : Position} {f : β → Gen α}
    {m : Gen α} (hm : ¬ p → Ends P m) :
    Ends P (if p then (fail cause pos : Gen β) >>= f else m) := by
  split
  · intro s a s' hr
    obtain ⟨_, _, hfail, -⟩ := ran_bind.1 hr
    exact absurd hfail ran_fail
  · next h => exact hm h

end Ends

/-- How many values the last instruction of an expression is about: arguments of a call, elements or
entries. With an expansion among them, the number is known at run time only. -/
def counted? : Expr → Option Nat
  | .call _ _ items | .superCall _ _ items | .list _ items | .tuple _ items =>
    if hasSpread items then none else some items.length
  | .table _ entries => some entries.length
  | _ => none

/-- The code of a call of something that is no method ends with the number of its arguments. -/
theorem ends_call (ctx : Context) {pos : Position} {callee : Expr} {items : List Expr}
    (hplain : hasSpread items = false)
    (hmethod : ∀ pos object name, callee = .member pos object name → False) :
    Ends (·.count? = some items.length) (compileExpr ctx (.call pos callee items)) := by
  rw [compileExpr, hplain]
  · refine .bind _ fun _ => .unless fun hlimit => .bind _ fun _ => .emit _ ?_
    rw [Op.count?_call, toNat_arguments hlimit]
  · exact hmethod

/-- The code of an expression ends with the number of its arguments or elements. -/
theorem ends_compileExpr (ctx : Context) {e : Expr} {n : Nat} (h : counted? e = some n) :
    Ends (·.count? = some n) (compileExpr ctx e) := by
  have hitems {items : List Expr} (hn : (if hasSpread items then none else some items.length) =
      some n) : hasSpread items = false ∧ n = items.length := by
    split at hn <;> cases hn
    exact ⟨Bool.eq_false_iff.2 ‹_›, rfl⟩
  cases e with
  | call pos callee items =>
    obtain ⟨hplain, rfl⟩ := hitems h
    cases callee with
    | member mpos object name =>
      rw [compileExpr, hplain]
      refine .bind _ fun _ => .unless fun hlimit => .bind _ fun _ => .bind _ fun _ => .emit _ ?_
      rw [Op.count?_invoke, toNat_arguments hlimit]
    | _ => exact ends_call ctx hplain (by rintro _ _ _ ⟨⟩)
  | superCall pos method items =>
    obtain ⟨hplain, rfl⟩ := hitems h
    rw [compileExpr, hplain]
    exact .bind _ fun _ => .bind _ fun _ => .unless fun hlimit => .bind _ fun _ => .bind _ fun _ =>
      .bind _ fun _ => .emit _ (congrArg some (toNat_arguments hlimit))
  | list pos items =>
    obtain ⟨hplain, rfl⟩ := hitems h
    rw [compileExpr, hplain]
    exact .unless fun hlimit => .bind _ fun _ => .emit _ (congrArg some (toNat_elements hlimit))
  | tuple pos items =>
    obtain ⟨hplain, rfl⟩ := hitems h
    rw [compileExpr, hplain]
    exact .unless fun hlimit => .bind _ fun _ => .emit _ (congrArg some (toNat_elements hlimit))
  | table pos entries =>
    cases h
    rw [compileExpr]
    exact .unless fun hlimit => .bind _ fun _ => .emit _ (congrArg some (toNat_elements hlimit))
  | _ => cases h

/-- Names that share a value are unpacked by their number. -/
theorem ends_emitUnpack {pos : Position} {names : List String} (h : 1 < names.length) :
    Ends (·.count? = some names.length) (emitUnpack pos names) := by
  unfold emitUnpack
  rw [if_pos h]
  exact .unless fun hlimit => .emit _ (congrArg some (toNat_arguments hlimit))

/-- So are the names of a parameter. -/
theorem count?_unpackParameters {pos : Position} {i : Nat} {params : List Parameter}
    {s s' : CompilerState} {u : Unit} (hr : Ran (unpackParameters pos i params) s u s') :
    ∀ p ∈ params, (Op.unpack (UInt8.ofNat p.pattern.length)).count? = some p.pattern.length := by
  induction params generalizing i s u with
  | nil => nofun
  | cons p params ih =>
    rw [List.forall_mem_cons]
    simp only [unpackParameters] at hr
    split at hr
    · split at hr
      · obtain ⟨_, _, hfail, -⟩ := ran_bind.1 hr
        exact absurd hfail ran_fail
      · next hlimit =>
        simp only [ran_bind] at hr
        obtain ⟨_, _, -, _, _, -, _, t, -, hrest⟩ := hr
        exact ⟨congrArg some (toNat_arguments hlimit), ih hrest⟩
    · next hnone =>
      have hempty : p.pattern = [] := by simpa using hnone
      exact ⟨by rw [hempty]; rfl, ih hr⟩

/-- A jump back has its distance for an operand. -/
theorem ends_emitLoop {start : Nat} {pos : Position} {s s' : CompilerState} {u : Unit}
    (hr : Ran (emitLoop start pos) s u s') :
    ∃ d : UInt16, s'.chunk.code.back? = some (.loop d) ∧ d.toNat = s.size - start + 1 := by
  obtain ⟨hd, rfl⟩ := ran_emitLoop.1 hr
  exact ⟨_, back?_emit s _ _, toNat_word (Nat.lt_succ_of_le hd)⟩

/-! ## Captures -/

/-- A closure in the code of a program is made of a function among the constants, which counts the
captures it is made with unless there are as many as there are indices. -/
theorem closures_counted {program : Program} {m : Module} (h : compile program = .ok m) {p : Proto}
    (hp : m.main.Nested p) {i : UInt16} {cs : List Capture} (hop : .closure i cs ∈ p.chunk.code) :
    ∃ q, p.chunk.constants[i.toNat]? = some (.function q) ∧
      (q.upvalueCount.toNat = cs.length ↔ cs.length ≠ 65536) := by
  obtain ⟨hmain, hserved⟩ := finished_compile h
  obtain ⟨n, hfin, -⟩ := hmain.nested hserved hp
  obtain ⟨g, hreg⟩ := hfin.regular
  obtain ⟨offset, hlt, hat⟩ := Array.mem_iff_getElem.1 hop
  obtain ⟨k, hk, hadmits⟩ := (hreg.code offset _ (Array.getElem?_eq_some_iff.2 ⟨hlt, hat⟩)).operands
    (i, .function) List.mem_cons_self
  cases k with
  | function q =>
    have hcounts := hreg.counts i cs q hop hk
    exact ⟨q, hk, hcounts.count ▸ toNat_count hcounts.limit⟩
  | _ => cases hadmits

/-- A function with as many captures as there are indices counts none. -/
theorem captures_uncounted : ∃ f : FunctionState, f.Reached ∧ f.upvalues.size = 65536 ∧
    ∀ (sig : Signature) (defaults : Array Constant), (sig.proto defaults f).upvalueCount = 0 := by
  obtain ⟨f, hf, hsize, -⟩ := FunctionState.exists_reached (Nat.le_refl _)
  refine ⟨f, hf, hsize, fun sig defaults => ?_⟩
  rw [Signature.proto, hsize]
  rfl

end ScriptEngine.Compile
