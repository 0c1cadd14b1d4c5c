import ScriptEngine.Bytecode.Verify
import ScriptEngine.Proofs.Levels

/-!
# What the structural checks accept

`Proto.Fits` states what the checks ask of one prototype without saying how they go about it, and
`verify_iff` says that a prototype passes if and only if it and all prototypes nested in it fit.
-/

namespace ScriptEngine.Bytecode

/-- An instruction fits into code: the code has `size` instructions and the given constants, and the
function captures `captured` variables. -/
structure FitsAt (constants : Array Constant) (size captured : Nat) (isGenerator : Bool)
    (offset : Nat) (op : Op) : Prop where
  /-- Only generators yield. -/
  yields : op = .yield ∨ op = .generatorClose → isGenerator = true
  /-- Operands refer to constants of the right kind. -/
  operands : ∀ r ∈ op.constantOperands, ∃ c, constants[r.1.toNat]? = some c ∧ r.2.admits c = true
  /-- A forward jump does not pass the end of the code. -/
  forward : ∀ target, op.forwardTarget? offset = some target → target ≤ size
  /-- A backward jump does not pass its beginning. -/
  backward : ∀ distance, op = .loop distance → distance.toNat ≤ offset + 1
  /-- Captured variables that are read and written exist. -/
  upvalue : ∀ i, op = .getUpvalue i ∨ op = .setUpvalue i → i.toNat < captured
  /-- So do those that are handed on to a nested function. -/
  captures : ∀ i cs, op = .closure i cs → ∀ c ∈ cs, c.isLocal = false → c.index.toNat < captured

/-- What the checks ask of a prototype, those nested in it aside. -/
structure Proto.Fits (p : Proto) : Prop where
  /-- The line table covers the code. -/
  lines : p.chunk.lines.size = p.chunk.code.size
  /-- There are no more defaults than parameters. -/
  defaults : p.defaults.size ≤ p.arity.toNat
  /-- The code ends in a return. -/
  final : p.chunk.code.back? = some .return
  /-- Every instruction fits. -/
  code : ∀ (offset : Nat) (op : Op), p.chunk.code[offset]? = some op →
    FitsAt p.chunk.constants p.chunk.code.size p.upvalueCount.toNat
      (p.chunk.code.contains .generator) offset op
  /-- A closure is made with as many captures as its function counts. -/
  counts : ∀ (offset : Nat) (i : UInt16) (cs : List Capture) (q : Proto),
    p.chunk.code[offset]? = some (.closure i cs) →
    p.chunk.constants[i.toNat]? = some (.function q) → q.upvalueCount.toNat = cs.length

/-! ## One instruction -/

section Instructions

variable {constants : Array Constant} {size offset : Nat} {count : UInt16} {op : Op}

/-- Operands pass if and only if each constant an instruction names is there and is of the kind it
needs. -/
theorem operandOffence?_eq_none : operandOffence? constants op = none ↔
    ∀ r ∈ op.constantOperands, ∃ c, constants[r.1.toNat]? = some c ∧ r.2.admits c = true := by
  unfold operandOffence?
  rw [List.findSome?_eq_none_iff]
  refine forall₂_congr fun r _ => ?_
  dsimp only
  cases constants[r.1.toNat]? with
  | none => simp
  | some c => by_cases h : r.2.admits c = true <;> simp [h]

/-- A jump passes if and only if it goes no further than the end of the code. -/
theorem jumpOffence?_eq_none : jumpOffence? size op offset = none ↔
    ∀ target, op.forwardTarget? offset = some target → target ≤ size := by
  unfold jumpOffence?
  cases op.forwardTarget? offset with
  | none => simp
  | some target => simp

/-- Whether a closure has another number of captures than its function counts. -/
def closureMismatch (constants : Array Constant) (i : UInt16) (cs : List Capture) : Prop :=
  ∃ q, constants[i.toNat]? = some (.function q) ∧ q.upvalueCount.toNat ≠ cs.length

/-- A list of captures passes if and only if each capture of a capture is one the function has. -/
theorem capturesOffence?_eq_none {cs : List Capture} :
    cs.findSome? (fun c => if !c.isLocal && c.index ≥ count then
      some (Offence.unknownUpvalue c.index) else none) = none ↔
    ∀ c ∈ cs, c.isLocal = false → c.index.toNat < count.toNat := by
  rw [List.findSome?_eq_none_iff]
  refine forall₂_congr fun c _ => ?_
  rw [ite_eq_right_iff]
  simp only [Bool.and_eq_true, Bool.not_eq_true', decide_eq_true_eq, reduceCtorEq, imp_false,
    not_and, ge_iff_le, UInt16.not_le, UInt16.lt_iff_toNat_lt]

/-- The shape of an instruction passes if and only if it jumps back no further than the start,
touches captures the function has, and makes closures that fit their prototypes. -/
theorem shapeOffence?_eq_none : shapeOffence? constants count op offset = none ↔
    (∀ distance, op = .loop distance → distance.toNat ≤ offset + 1) ∧
      (∀ i, op = .getUpvalue i ∨ op = .setUpvalue i → i.toNat < count.toNat) ∧
      ∀ i cs, op = .closure i cs → ¬ closureMismatch constants i cs ∧
        ∀ c ∈ cs, c.isLocal = false → c.index.toNat < count.toNat := by
  unfold shapeOffence?
  split
  · simp [ite_eq_right_iff]
  · simp [ite_eq_right_iff, UInt16.le_iff_toNat_le]
  · simp [ite_eq_right_iff, UInt16.le_iff_toNat_le]
  · next i cs =>
    simp only [reduceCtorEq, false_implies, implies_true, Op.closure.injEq, and_imp, or_self,
      true_and, forall_eq', forall_apply_eq_imp_iff]
    split
    · next q hq =>
      have hmismatch : closureMismatch constants i cs ↔ q.upvalueCount.toNat ≠ cs.length := by
        simp [closureMismatch, hq]
      rw [hmismatch]
      split
      · next h => simp [bne_iff_ne.1 h]
      · next h => rw [capturesOffence?_eq_none, and_iff_right (by simpa using h)]
    · next hother =>
      have hmismatch : ¬ closureMismatch constants i cs := fun ⟨q, hq, _⟩ => hother q hq
      rw [if_neg Bool.false_ne_true, capturesOffence?_eq_none, and_iff_right hmismatch]
  · next hloop hget hset hclosure =>
    simp only [true_iff]
    refine ⟨fun d hd => absurd hd (hloop d), ?_, fun i cs hc => absurd hc (hclosure i cs)⟩
    rintro i (hi | hi)
    · exact absurd hi (hget i)
    · exact absurd hi (hset i)

/-- Yielding passes if and only if it happens in a generator. -/
theorem yieldOffence_iff {isGenerator : Bool} :
    ((op == .yield || op == .generatorClose) && !isGenerator) = true ↔
      ¬ (op = .yield ∨ op = .generatorClose → isGenerator = true) := by
  simp

/-- An instruction without offence fits, and makes closures with the right number of captures. -/
theorem instructionOffence?_eq_none {p : Proto} {isGenerator : Bool} :
    instructionOffence? p isGenerator op offset = none ↔
      FitsAt p.chunk.constants p.chunk.code.size p.upvalueCount.toNat isGenerator offset op ∧
        ∀ i cs, op = .closure i cs → ¬ closureMismatch p.chunk.constants i cs := by
  unfold instructionOffence?
  split
  · next h =>
    simp only [reduceCtorEq, false_iff, not_and]
    exact fun hfits => absurd hfits.yields (yieldOffence_iff.1 h)
  · next h =>
    simp only [Option.or_eq_none_iff, operandOffence?_eq_none, jumpOffence?_eq_none,
      shapeOffence?_eq_none]
    constructor
    · rintro ⟨hoperands, hforward, hback, hup, hclosure⟩
      have hyields := Decidable.not_not.1 (mt yieldOffence_iff.2 h)
      exact ⟨⟨hyields, hoperands, hforward, hback, hup, fun i cs hc => (hclosure i cs hc).2⟩,
        fun i cs hc => (hclosure i cs hc).1⟩
    · rintro ⟨hfits, hcounts⟩
      exact ⟨hfits.operands, hfits.forward, hfits.backward, hfits.upvalue,
        fun i cs hc => ⟨hcounts i cs hc, hfits.captures i cs hc⟩⟩

end Instructions

/-! ## Prototypes -/

/-- Code passes if and only if each of its instructions does at its offset. -/
theorem codeOffence?_eq_none {p : Proto} {isGenerator : Bool} {offset : Nat} {ops : List Op} :
    codeOffence? p isGenerator offset ops = none ↔
      ∀ (i : Nat) (op : Op), ops[i]? = some op →
        instructionOffence? p isGenerator op (offset + i) = none := by
  induction ops generalizing offset with
  | nil => simp [codeOffence?]
  | cons op ops ih =>
    rw [codeOffence?]
    constructor
    · intro h i op' hop
      split at h
      · cases h
      · next hnone =>
        cases i with
        | zero =>
          cases hop
          exact hnone
        | succ i =>
          rw [List.getElem?_cons_succ] at hop
          have := ih.1 h i op' hop
          rwa [Nat.add_assoc, Nat.add_comm 1 i] at this
    · intro h
      have hop : instructionOffence? p isGenerator op offset = none := h 0 op rfl
      rw [hop]
      refine ih.2 fun i op' hop => ?_
      have := h (i + 1) op' (by rwa [List.getElem?_cons_succ])
      rwa [Nat.add_assoc, Nat.add_comm 1 i]

/-- A prototype passes by itself if and only if it fits. -/
theorem ownOffence?_eq_none {p : Proto} : p.ownOffence? = none ↔ p.Fits := by
  unfold Proto.ownOffence?
  constructor
  · intro h
    split at h
    · cases h
    next hlines =>
    split at h
    · cases h
    next hdefaults =>
    split at h
    · cases h
    next hfinal =>
    rw [codeOffence?_eq_none] at h
    have hop : ∀ (offset : Nat) (op : Op), p.chunk.code[offset]? = some op →
        FitsAt p.chunk.constants p.chunk.code.size p.upvalueCount.toNat
            (p.chunk.code.contains .generator) offset op ∧
          ∀ i cs, op = .closure i cs → ¬ closureMismatch p.chunk.constants i cs := by
      intro offset op hop
      refine instructionOffence?_eq_none.1 ?_
      simpa using h offset op (by rwa [Array.getElem?_toList])
    refine ⟨Decidable.of_not_not hlines, Nat.le_of_not_lt hdefaults, ?_,
      fun offset op hcode => (hop offset op hcode).1, ?_⟩
    · simpa using hfinal
    · intro offset i cs q hcode hq
      have := (hop offset _ hcode).2 i cs rfl
      unfold closureMismatch at this
      simpa [hq] using this
  · intro hfits
    rw [if_neg (by simp [hfits.lines]), if_neg (by simp [hfits.defaults]),
      if_neg (by simp [hfits.final]), codeOffence?_eq_none]
    intro offset op hop
    rw [Array.getElem?_toList] at hop
    rw [Nat.zero_add]
    refine instructionOffence?_eq_none.2 ⟨hfits.code offset op hop, ?_⟩
    rintro i cs rfl ⟨q, hq, hne⟩
    exact hne (hfits.counts offset i cs q hop hq)

/-- Nested prototypes pass if and only if each prototype among the constants does. -/
theorem verifyNested_eq_ok {constants : List Constant} : verifyNested constants = .ok () ↔
    ∀ q, .function q ∈ constants → q.verify = .ok () := by
  induction constants with
  | nil => simp [verifyNested]
  | cons c constants ih =>
    cases c with
    | function q =>
      simp only [verifyNested, List.mem_cons, Constant.function.injEq, forall_eq_or_imp]
      rw [← ih]
      cases hq : q.verify with
      | error e => simp
      | ok u => simp
    | _ => simp [verifyNested, ih]

/-- A prototype passes if and only if it fits and the prototypes among its constants pass. -/
theorem verify_eq_ok {p : Proto} : p.verify = .ok () ↔
    p.Fits ∧ ∀ q, .function q ∈ p.chunk.constants → q.verify = .ok () := by
  obtain ⟨name, arity, defaults, vararg, upvalueCount, ⟨code, ⟨constants⟩, lines⟩⟩ := p
  rw [← ownOffence?_eq_none, Proto.verify]
  simp only [List.mem_toArray, ← verifyNested_eq_ok]
  split
  · next h => simp [h]
  · next h => simp [h]

/-- What is nested in a constant of a prototype is nested in the prototype. -/
theorem Proto.Nested.of_inner {p q r : Proto} (hq : .function q ∈ p.chunk.constants)
    (hr : q.Nested r) : p.Nested r := by
  induction hr with
  | self => exact .inner .self hq
  | inner _ hm ih => exact .inner ih hm

/-- A prototype passes if everything nested in it fits. -/
theorem verify_of_fits (p : Proto) (h : ∀ q, p.Nested q → q.Fits) : p.verify = .ok () := by
  refine verify_eq_ok.2 ⟨h p .self, fun q hq => ?_⟩
  have hsize : sizeOf q < sizeOf p := by
    obtain ⟨name, arity, defaults, vararg, upvalueCount, ⟨code, constants, lines⟩⟩ := p
    have hlt := Array.sizeOf_lt_of_mem hq
    simp only [Constant.function.sizeOf_spec] at hlt
    simp only [Proto.mk.sizeOf_spec, Chunk.mk.sizeOf_spec]
    omega
  exact verify_of_fits q fun r hr => h r (.of_inner hq hr)
termination_by sizeOf p

/-- A prototype passes the checks just in case it and all prototypes nested in it fit. -/
theorem verify_iff {p : Proto} : p.verify = .ok () ↔ ∀ q, p.Nested q → q.Fits := by
  constructor
  · intro h q hq
    have hq' : q.verify = .ok () := by
      induction hq with
      | self => exact h
      | inner _ hm ih => exact (verify_eq_ok.1 ih).2 _ hm
    exact (verify_eq_ok.1 hq').1
  · exact verify_of_fits p

/-! ## Prototypes one by one -/

mutual

/-- Whether a prototype and all prototypes nested in it have a property. -/
def Proto.all (check : Proto → Bool) : Proto → Bool
  | ⟨name, arity, defaults, vararg, upvalueCount, ⟨code, ⟨constants⟩, lines⟩⟩ =>
    check ⟨name, arity, defaults, vararg, upvalueCount, ⟨code, ⟨constants⟩, lines⟩⟩ &&
      allIn check constants

/-- Whether the prototypes among some constants have a property, nested ones included. -/
def allIn (check : Proto → Bool) : List Constant → Bool
  | [] => true
  | .function p :: rest => p.all check && allIn check rest
  | _ :: rest => allIn check rest

end

/-- A check of all constants holds of each prototype among them. -/
theorem all_of_mem {check : Proto → Bool} {constants : List Constant} {q : Proto}
    (h : allIn check constants = true) (hq : .function q ∈ constants) : q.all check = true := by
  induction constants with
  | nil => cases hq
  | cons c constants ih =>
    cases c with
    | function p =>
      simp only [allIn, Bool.and_eq_true] at h
      rcases List.mem_cons.1 hq with ⟨⟨⟩⟩ | hq
      · exact h.1
      · exact ih h.2 hq
    | _ => exact ih h ((List.mem_cons.1 hq).resolve_left nofun)

/-- A check of all prototypes holds of each nested one. -/
theorem all_nested {check : Proto → Bool} {p q : Proto} (h : p.all check = true) (hq : p.Nested q) :
    check q = true := by
  have hsplit : ∀ {r : Proto}, r.all check = true →
      check r = true ∧ ∀ q, .function q ∈ r.chunk.constants → q.all check = true := by
    rintro ⟨name, arity, defaults, vararg, upvalueCount, ⟨code, ⟨constants⟩, lines⟩⟩ hr
    simp only [Proto.all, Bool.and_eq_true] at hr
    exact ⟨hr.1, fun q hq => all_of_mem hr.2 (List.mem_toArray.1 hq)⟩
  have hall : q.all check = true := by
    induction hq with
    | self => exact h
    | inner _ hm ih => exact (hsplit ih).2 _ hm
  exact (hsplit hall).1

end ScriptEngine.Bytecode
