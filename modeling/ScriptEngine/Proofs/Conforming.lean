import Mathlib.Algebra.Group.Nat.Defs
import ScriptEngine.Proofs.Checking
import ScriptEngine.Proofs.Fixing
import ScriptEngine.Proofs.Functions

/-!
# Code that conforms to the checks

The structural checks look at finished prototypes. `Chunk.Conforming` is what code under
construction keeps to so that the checks pass in the end, and `Fitting` says of a generator that it
keeps code conforming. It is closed under sequencing, so that each generator fits if its parts do.
Two things are known late: the number of captured variables grows while the body of a function is
compiled, and a forward jump gets its distance when its target is the next instruction. The checks
allow for both, since a number that grows bounds what was below it before.
-/

namespace ScriptEngine.Bytecode

/-! ## Chunks -/

/-- The constants an instruction refers to are there, with their kinds. -/
def Holds (constants : Array Constant) (refs : List (UInt16 × ConstantKind)) : Prop :=
  ∀ r ∈ refs, ∃ c, constants[r.1.toNat]? = some c ∧ r.2.admits c = true

/-- Constants stay under their indices. -/
def PoolKept (constants constants' : Array Constant) : Prop :=
  ∀ (i : Nat) (c : Constant), constants[i]? = some c → constants'[i]? = some c

/-- A pool keeps its constants. -/
theorem PoolKept.refl (constants : Array Constant) : PoolKept constants constants := fun _ _ h => h

/-- Pools that grow one after the other. -/
theorem PoolKept.trans {a b c : Array Constant} (h : PoolKept a b) (h' : PoolKept b c) :
    PoolKept a c :=
  fun i k hk => h' i k (h i k hk)

/-- References that a pool holds are held by a pool that keeps its constants. -/
theorem Holds.kept {a b : Array Constant} {refs : List (UInt16 × ConstantKind)} (h : Holds a refs)
    (hk : PoolKept a b) : Holds b refs := by
  intro r hr
  obtain ⟨c, hc, ha⟩ := h r hr
  exact ⟨c, hk _ _ hc, ha⟩

/-- An instruction that fits goes on fitting when constants, instructions and captures are added. -/
theorem FitsAt.mono {constants constants' : Array Constant} {size size' captured captured' : Nat}
    {g : Bool} {offset : Nat} {op : Op} (h : FitsAt constants size captured g offset op)
    (hk : PoolKept constants constants') (hs : size ≤ size') (hc : captured ≤ captured') :
    FitsAt constants' size' captured' g offset op where
  yields := h.yields
  operands := Holds.kept h.operands hk
  forward target ht := Nat.le_trans (h.forward target ht) hs
  backward := h.backward
  upvalue i hi := Nat.lt_of_lt_of_le (h.upvalue i hi) hc
  captures i cs hop c hmem hl := Nat.lt_of_lt_of_le (h.captures i cs hop c hmem hl) hc

/-- A function counts the captures that a closure of it is made with, up to the width of the
counter, and they are no more than a function can have. -/
structure Proto.Counts (q : Proto) (cs : List Capture) : Prop where
  /-- The captures are counted, up to the width of the counter. -/
  count : q.upvalueCount = UInt16.ofNat cs.length
  /-- A function can have as many. -/
  limit : cs.length ≤ Compile.FunctionState.maxUpvalues

/-- Code under construction that will pass the checks, functions nested in it aside. The function
captures `captured` variables so far, and `overflowed` says whether the instructions from one line
have been too many to count. -/
structure Chunk.Regular (captured : Nat) (isGenerator overflowed : Bool) (c : Chunk) : Prop where
  /-- Every instruction fits. -/
  code : ∀ (offset : Nat) (op : Op), c.code[offset]? = some op →
    FitsAt c.constants c.code.size captured isGenerator offset op
  /-- A closure is made with the captures its function counts. -/
  counts : ∀ (i : UInt16) (cs : List Capture) (q : Proto), .closure i cs ∈ c.code →
    c.constants[i.toNat]? = some (.function q) → q.Counts cs
  /-- A generator makes itself known. -/
  marked : isGenerator = true → .generator ∈ c.code
  /-- The line table covers the code as long as its counters do not overflow. -/
  lines : overflowed = false → c.lines.size = c.code.size
  /-- Indices of constants fit. -/
  limit : c.constants.size ≤ maxConstants

/-- The prototype of a function that captures `captured` variables and whose code is complete. -/
structure Proto.Finished (captured : Nat) (p : Proto) : Prop where
  /-- The captures are counted, up to the width of the counter. -/
  count : p.upvalueCount = UInt16.ofNat captured
  /-- There are no more defaults than parameters. -/
  defaults : p.defaults.size ≤ p.arity.toNat
  /-- The code ends in a return. -/
  final : p.chunk.code.back? = some .return
  /-- Forward jumps land on instructions. -/
  inside : ∀ (offset : Nat) (op : Op) (target : Nat), p.chunk.code[offset]? = some op →
    op.forwardTarget? offset = some target → target < p.chunk.code.size
  /-- The code is regular. -/
  regular : ∃ isGenerator, p.chunk.Regular captured isGenerator false

/-- Functions among the constants are finished, and some instruction makes a closure with as many
captures as they have. -/
def Chunk.Served (c : Chunk) : Prop :=
  ∀ q, .function q ∈ c.constants → ∃ i cs, .closure i cs ∈ c.code ∧ q.Finished cs.length

/-- Code under construction that will pass the checks. -/
structure Chunk.Conforming (captured : Nat) (isGenerator overflowed : Bool) (c : Chunk) : Prop extends
    c.Regular captured isGenerator overflowed where
  /-- Functions of the code are finished. -/
  served : c.Served
  /-- So are functions nested in them. -/
  deep : ∀ q, .function q ∈ c.constants → ∀ r, q.Nested r → r.chunk.Served

section Growth

variable {captured : Nat} {g o : Bool} {c c' : Chunk} {op : Op} {line : Nat}

/-- Functions keep their closure instructions as long as no function is added and no closure
instruction is lost. -/
theorem Chunk.Served.grow (h : c.Served) (hpool : ∀ q, .function q ∈ c'.constants →
    .function q ∈ c.constants) (hcode : ∀ i cs, .closure i cs ∈ c.code → .closure i cs ∈ c'.code) :
    c'.Served := by
  intro q hq
  obtain ⟨i, cs, hop, hfin⟩ := h q (hpool q hq)
  exact ⟨i, cs, hcode i cs hop, hfin⟩

/-- Empty code is regular. -/
theorem Chunk.regular_empty (captured : Nat) : Chunk.empty.Regular captured false false where
  code _ _ h := by cases h
  counts _ _ _ h := absurd h (Array.not_mem_empty _)
  marked h := by cases h
  lines _ := rfl
  limit := Nat.zero_le _

/-- Empty code conforms. -/
theorem Chunk.conforming_empty (captured : Nat) : Chunk.empty.Conforming captured false false where
  toRegular := regular_empty captured
  served _ h := absurd h (Array.not_mem_empty _)
  deep _ h := absurd h (Array.not_mem_empty _)

/-- More captures do no harm. -/
theorem Chunk.Regular.widen (h : c.Regular captured g o) {captured' : Nat}
    (hle : captured ≤ captured') : c.Regular captured' g o :=
  { h with code := fun offset op hop => (h.code offset op hop).mono (.refl _) (Nat.le_refl _) hle }

/-- Code conforms with more captures. -/
theorem Chunk.Conforming.widen (h : c.Conforming captured g o) {captured' : Nat}
    (hle : captured ≤ captured') : c.Conforming captured' g o :=
  { h with toRegular := h.toRegular.widen hle }

/-- Code grows by an instruction that fits at its end. -/
theorem Chunk.Regular.emit (h : c.Regular captured g o)
    (hop : FitsAt c.constants (c.code.size + 1) captured g c.code.size op)
    (hcounts : ∀ i cs q, op = .closure i cs → c.constants[i.toNat]? = some (.function q) →
      q.Counts cs) (line : Nat) :
    (c.emit op line).Regular captured g (c.linesFull line || o) where
  code offset o ho := by
    rw [emit_constants, emit_size]
    rw [emit_code, Array.getElem?_push] at ho
    split at ho
    · next heq =>
      cases ho
      rw [heq]
      exact hop
    · exact (h.code offset o ho).mono (.refl _) (Nat.le_succ _) (Nat.le_refl _)
  counts i cs q ho hq := by
    rw [emit_constants] at hq
    rw [emit_code, Array.mem_push] at ho
    rcases ho with ho | ho
    · exact h.counts i cs q ho hq
    · exact hcounts i cs q ho.symm hq
  marked hg := by
    rw [emit_code]
    exact Array.mem_push_of_mem _ (h.marked hg)
  lines hcounted := by
    obtain ⟨hfull, hbefore⟩ := Bool.or_eq_false_iff.1 hcounted
    rw [emit_size, emit_lines, LineTable.size_push hfull, h.lines hbefore]
  limit := by
    rw [emit_constants]
    exact h.limit

/-- Code conforms with one instruction more, if that fits and counts its captures. -/
theorem Chunk.Conforming.emit (h : c.Conforming captured g o)
    (hop : FitsAt c.constants (c.code.size + 1) captured g c.code.size op)
    (hcounts : ∀ i cs q, op = .closure i cs → c.constants[i.toNat]? = some (.function q) →
      q.Counts cs) (line : Nat) :
    (c.emit op line).Conforming captured g (c.linesFull line || o) where
  toRegular := h.toRegular.emit hop hcounts line
  served := h.served.grow (fun q hq => by rwa [emit_constants] at hq) fun i cs ho => by
    rw [emit_code]
    exact Array.mem_push_of_mem _ ho
  deep q hq := h.deep q (by rwa [emit_constants] at hq)

/-- A jump with another distance is a jump with that distance, and nothing else has one. -/
theorem Op.retarget?_cases (op : Op) (d : UInt16) :
    (op.retarget? d).getD op = op ∧ op.forwardDistance? = none ∨
      ((op.retarget? d).getD op).forwardDistance? = some d ∧
        ((op.retarget? d).getD op).constantOperands = [] ∧
        op.forwardDistance?.isSome = Bool.true := by
  cases op <;> simp [retarget?, forwardDistance?, constantOperands]

/-- A forward jump fits if it stays within the code. -/
theorem FitsAt.of_forward {constants : Array Constant} {size offset : Nat} {d : UInt16}
    (hd : op.forwardDistance? = some d) (ho : op.constantOperands = [])
    (hle : offset + 1 + d.toNat ≤ size) : FitsAt constants size captured g offset op where
  yields h := by
    rcases h with rfl | rfl <;> cases hd
  operands r hr := by
    rw [ho] at hr
    cases hr
  forward target ht := by
    rw [Op.forwardTarget?, hd] at ht
    cases ht
    exact hle
  backward _ h := by
    subst h
    cases hd
  upvalue _ h := by
    rcases h with rfl | rfl <;> cases hd
  captures _ _ h := by
    subst h
    cases hd

/-- Patching changes forward jumps only. -/
theorem Chunk.mem_of_patchJump? {j : Nat} (h : c.patchJump? j = some c')
    (hop : op.forwardDistance? = none) : op ∈ c'.code ↔ op ∈ c.code := by
  obtain ⟨-, -, -, hcode⟩ := patchJump?_code h
  rw [hcode, Array.mem_iff_getElem?, Array.mem_iff_getElem?]
  refine exists_congr fun k => ?_
  rw [Array.getElem?_modify]
  split
  · cases hk : c.code[k]? with
    | none => simp
    | some o =>
      rw [Option.map_some, Option.some_inj, Option.some_inj]
      obtain ⟨heq, -⟩ | ⟨hd, -, hsome⟩ := o.retarget?_cases (UInt16.ofNat (c.code.size - j - 1))
      · rw [heq]
      · constructor
        · rintro rfl
          rw [hd] at hop
          cases hop
        · rintro rfl
          rw [hop] at hsome
          cases hsome
  · rfl

/-- A patched jump leaves code regular: it lands on the next instruction, which is still to come. -/
theorem Chunk.Regular.patch {j : Nat} (h : c.Regular captured g o) (hp : c.patchJump? j = some c') :
    c'.Regular captured g o := by
  obtain ⟨hd, hconst, hlines, hcode⟩ := patchJump?_code hp
  have hsize := patchJump?_size hp
  refine ⟨?_, ?_, ?_, ?_, ?_⟩
  · intro offset op hop
    rw [hconst, hsize]
    rw [hcode, Array.getElem?_modify] at hop
    split at hop
    · next heq =>
      subst heq
      obtain ⟨o, ho, rfl⟩ := Option.map_eq_some_iff.1 hop
      have hlt : j < c.code.size := (Array.getElem?_eq_some_iff.1 ho).1
      obtain ⟨hsame, -⟩ | ⟨hdist, hoper, -⟩ :=
        o.retarget?_cases (UInt16.ofNat (c.code.size - j - 1))
      · rw [hsame]
        exact h.code j o ho
      · refine .of_forward hdist hoper ?_
        have hmod := toNat_word (Nat.lt_succ_of_le hd)
        omega
    · exact h.code offset op hop
  · intro i cs q hop hq
    rw [hconst] at hq
    exact h.counts i cs q ((mem_of_patchJump? hp rfl).1 hop) hq
  · exact fun hg => (mem_of_patchJump? hp rfl).2 (h.marked hg)
  · rw [hlines, hsize]
    exact h.lines
  · rw [hconst]
    exact h.limit

/-- Code stays conforming when a jump is patched. -/
theorem Chunk.Conforming.patch {j : Nat} (h : c.Conforming captured g o)
    (hp : c.patchJump? j = some c') : c'.Conforming captured g o := by
  obtain ⟨-, hconst, -, -⟩ := patchJump?_code hp
  refine ⟨h.toRegular.patch hp, ?_, ?_⟩
  · exact h.served.grow (fun q hq => by rwa [hconst] at hq) fun i cs ho =>
      (mem_of_patchJump? hp rfl).2 ho
  · rw [hconst]
    exact h.deep

/-- A new constant leaves the others where they are. -/
theorem Chunk.kept_addConstant {k : Constant} {i : UInt16} (h : c.addConstant? k = some (i, c')) :
    PoolKept c.constants c'.constants := fun j q hq => (grown_addConstant h).pool j q hq

/-- Functions that a constant adds to the pool. -/
theorem Chunk.mem_of_addConstant? {k : Constant} {i : UInt16} (h : c.addConstant? k = some (i, c'))
    {q : Proto} (hq : .function q ∈ c'.constants) :
    .function q ∈ c.constants ∨ k = .function q := by
  obtain ⟨-, -, rfl | hpush⟩ := addConstant?_spec h
  · exact .inl hq
  · rw [hpush, Array.mem_push] at hq
    exact hq.imp_right Eq.symm

/-- A new constant leaves code regular. -/
theorem Chunk.Regular.addConstant {k : Constant} {i : UInt16} (h : c.Regular captured g o)
    (hk : c.addConstant? k = some (i, c')) : c'.Regular captured g o := by
  obtain ⟨hcode, hlines, -⟩ := addConstant?_spec hk
  refine ⟨?_, ?_, ?_, ?_, (addConstant?_get hk h.limit).2⟩
  · rw [hcode]
    exact fun offset op hop =>
      (h.code offset op hop).mono (kept_addConstant hk) (Nat.le_refl _) (Nat.le_refl _)
  · intro j cs q hop hq
    rw [hcode] at hop
    -- the operand was checked when the instruction was emitted, so it is an old constant
    obtain ⟨offset, ho⟩ := Array.mem_iff_getElem?.1 hop
    obtain ⟨old, hold, -⟩ := (h.code offset _ ho).operands (j, .function) (List.mem_singleton.2 rfl)
    have hsame := kept_addConstant hk _ _ hold
    rw [hq] at hsame
    cases hsame
    exact h.counts j cs q hop hold
  · rw [hcode]
    exact h.marked
  · rw [hcode, hlines]
    exact h.lines

/-- Code stays conforming when a constant that is no function is entered. -/
theorem Chunk.Conforming.addConstant {k : Constant} {i : UInt16} (h : c.Conforming captured g o)
    (hk : c.addConstant? k = some (i, c')) (hn : ∀ q, k ≠ .function q) :
    c'.Conforming captured g o := by
  obtain ⟨hcode, -, -⟩ := addConstant?_spec hk
  have hold : ∀ q, .function q ∈ c'.constants → .function q ∈ c.constants := fun q hq =>
    (mem_of_addConstant? hk hq).resolve_right (hn q)
  refine ⟨h.toRegular.addConstant hk, ?_, fun q hq => h.deep q (hold q hq)⟩
  exact h.served.grow hold fun i cs ho => by rwa [hcode]

/-- Code stays conforming when a finished function is entered and a closure of it is made. -/
theorem Chunk.Conforming.closure {q : Proto} {i : UInt16} {cs : List Capture}
    (h : c.Conforming captured g o) (hk : c.addConstant? (.function q) = some (i, c'))
    (hq : q.Finished cs.length) (hlimit : cs.length ≤ Compile.FunctionState.maxUpvalues)
    (hdeep : ∀ r, q.Nested r → r.chunk.Served)
    (hcs : ∀ x ∈ cs, x.isLocal = false → x.index.toNat < captured) (line : Nat) :
    (c'.emit (.closure i cs) line).Conforming captured g (c'.linesFull line || o) := by
  have hreg := h.toRegular.addConstant hk
  have hget := (addConstant?_get hk h.limit).1
  obtain ⟨hcode, -, -⟩ := addConstant?_spec hk
  refine ⟨hreg.emit ?_ ?_ line, ?_, ?_⟩
  · refine ⟨by simp, ?_, by simp [Op.forwardTarget?, Op.forwardDistance?], by simp, by simp, ?_⟩
    · intro r hr
      obtain rfl := List.mem_singleton.1 hr
      exact ⟨_, hget, rfl⟩
    · rintro _ _ ⟨⟩
      exact hcs
  · rintro _ _ q' ⟨⟩ hq'
    rw [hget] at hq'
    cases hq'
    exact ⟨hq.count, hlimit⟩
  · intro q' hq'
    rw [emit_constants] at hq'
    rw [emit_code, hcode]
    rcases mem_of_addConstant? hk hq' with hq' | ⟨⟨⟩⟩
    · obtain ⟨j, ds, hop, hfin⟩ := h.served q' hq'
      exact ⟨j, ds, Array.mem_push_of_mem _ hop, hfin⟩
    · exact ⟨i, cs, Array.mem_push_self, hq⟩
  · intro q' hq'
    rw [emit_constants] at hq'
    rcases mem_of_addConstant? hk hq' with hq' | ⟨⟨⟩⟩
    · exact h.deep q' hq'
    · exact hdeep

/-- Conforming code that ends with a `return` makes a finished prototype. -/
theorem Chunk.Conforming.finished {p : Proto} (h : c.Conforming captured g o)
    (hp : p.chunk = c.emit .return line) (hcounted : (c.linesFull line || o) = false) (hcount : p.upvalueCount = UInt16.ofNat captured)
    (hdefaults : p.defaults.size ≤ p.arity.toNat) :
    p.Finished captured ∧ ∀ r, p.Nested r → r.chunk.Served := by
  have hall : (c.emit .return line).Conforming captured g false :=
    hcounted ▸ h.emit ⟨by simp, by simp [Op.constantOperands],
      by simp [Op.forwardTarget?, Op.forwardDistance?], by simp, by simp, by simp⟩ (by simp) line
  constructor
  · refine ⟨hcount, hdefaults, ?_, ?_, g, hp ▸ hall.toRegular⟩
    · rw [hp, emit_code, Array.back?_push]
    · intro offset op target hop ht
      rw [hp, emit_size]
      rw [hp, emit_code, Array.getElem?_push] at hop
      split at hop
      · cases hop
        cases ht
      · exact Nat.lt_succ_of_le ((h.code offset op hop).forward target ht)
  · have key : ∀ r, p.Nested r → r.chunk.Served ∧
        ∀ q, .function q ∈ r.chunk.constants → ∀ r', q.Nested r' → r'.chunk.Served := by
      intro r hr
      induction hr with
      | self =>
        rw [hp]
        exact ⟨hall.served, hall.deep⟩
      | inner _ hm ih =>
        exact ⟨ih.2 _ hm _ .self, fun q hq r' hr' => ih.2 _ hm r' (.of_inner hq hr')⟩
    exact fun r hr => (key r hr).1

/-! ## Finished prototypes -/

/-- A finished prototype fits if its captures and those of its functions can be counted. -/
theorem Proto.Finished.fits {p : Proto} (h : p.Finished captured) (hcaptured : captured ≤ 65535)
    (hclosures : ∀ i cs, .closure i cs ∈ p.chunk.code → cs.length ≤ 65535) : p.Fits := by
  obtain ⟨g, hreg⟩ := h.regular
  have hcount : p.upvalueCount.toNat = captured := by
    rw [h.count, toNat_word (Nat.lt_succ_of_le hcaptured)]
  refine ⟨hreg.lines rfl, h.defaults, h.final, ?_, ?_⟩
  · intro offset op hop
    rw [hcount]
    refine { hreg.code offset op hop with yields := fun hy => ?_ }
    have hmarked := hreg.marked ((hreg.code offset op hop).yields hy)
    exact Array.contains_iff_mem.2 hmarked
  · intro offset i cs q hop hq
    have hmem : .closure i cs ∈ p.chunk.code := Array.mem_of_getElem? hop
    rw [(hreg.counts i cs q hmem hq).count, toNat_word (Nat.lt_succ_of_le (hclosures i cs hmem))]

/-- Where functions are finished, so is every nested prototype, and unless it is the outermost one
its captures are those of some closure instruction. -/
theorem Proto.Finished.nested {p q : Proto} (h : p.Finished 0)
    (hserved : ∀ r, p.Nested r → r.chunk.Served) (hq : p.Nested q) :
    ∃ n, q.Finished n ∧ (n = 0 ∨ ∃ r i cs, p.Nested r ∧ .closure i cs ∈ r.chunk.code ∧
      cs.length = n) := by
  cases hq with
  | self => exact ⟨0, h, .inl rfl⟩
  | inner hr hm =>
    obtain ⟨i, cs, hop, hfin⟩ := hserved _ hr _ hm
    exact ⟨cs.length, hfin, .inr ⟨_, i, cs, hr, hop, rfl⟩⟩

end Growth

end ScriptEngine.Bytecode

namespace ScriptEngine.Compile

open Bytecode Source

/-! ## Captures -/

/-- What a function captures by way of the function around it is captured there. -/
structure FunctionState.CapturesFrom (f outer : FunctionState) : Prop where
  /-- Indices of captures fit. -/
  limit : f.upvalues.size ≤ maxUpvalues
  /-- Captures of captures exist. -/
  known : ∀ c ∈ f.upvalues, c.isLocal = false → c.index.toNat < outer.upvalues.size

/-- A function under construction and those around it capture what exists. Top-level code captures
nothing. -/
def Chained (f : FunctionState) : List FunctionState → Prop
  | [] => f.upvalues = #[]
  | outer :: rest => f.CapturesFrom outer ∧ Chained outer rest

/-- Only the captures of a function matter for the chain. -/
theorem Chained.congr {f f' : FunctionState} {fs : List FunctionState} (h : Chained f fs)
    (hu : f'.upvalues = f.upvalues) : Chained f' fs := by
  cases fs with
  | nil => exact hu.trans h
  | cons outer rest =>
    refine ⟨⟨?_, ?_⟩, h.2⟩
    · rw [hu]
      exact h.1.limit
    · rw [hu]
      exact h.1.known

/-- A function gains captures and nothing else the checks look at. -/
structure Widened (f f' : FunctionState) : Prop where
  /-- The code is the same. -/
  chunk : f'.chunk = f.chunk
  /-- Captures are only added. -/
  upvalues : f.upvalues.size ≤ f'.upvalues.size
  /-- The counters are the same. -/
  overflowed : f'.overflowed = f.overflowed

/-- A widened function keeps its constants. -/
theorem Widened.kept {f f' : FunctionState} (h : Widened f f') :
    PoolKept f.chunk.constants f'.chunk.constants := by
  rw [h.chunk]
  exact .refl _

/-- A function is as wide as it is. -/
theorem Widened.refl (f : FunctionState) : Widened f f := ⟨rfl, Nat.le_refl _, rfl⟩

/-- Functions that widen one after the other. -/
theorem Widened.trans {f g h : FunctionState} (a : Widened f g) (b : Widened g h) : Widened f h :=
  ⟨b.chunk.trans a.chunk, Nat.le_trans a.upvalues b.upvalues, b.overflowed.trans a.overflowed⟩

/-- Functions are as wide as they are. -/
theorem forall₂_widened_refl (fs : List FunctionState) : List.Forall₂ Widened fs fs :=
  List.forall₂_same.2 fun f _ => .refl f

/-- Lists of functions that widen one after the other. -/
theorem forall₂_widened_trans {fs gs hs : List FunctionState} (a : List.Forall₂ Widened fs gs)
    (b : List.Forall₂ Widened gs hs) : List.Forall₂ Widened fs hs := by
  induction a generalizing hs with
  | nil =>
    cases b
    exact .nil
  | cons h _ ih =>
    cases b with
    | cons h' t => exact .cons (h.trans h') (ih t)

/-- A captured variable is found under its index. -/
theorem getElem?_addUpvalue {f f' : FunctionState} {c : Capture} {pos : Position} {i : UInt16}
    (h : f.addUpvalue c pos = .ok (i, f')) (hf : f.upvalues.size ≤ FunctionState.maxUpvalues) :
    f'.upvalues[i.toNat]? = some c := by
  rw [FunctionState.addUpvalue_eq] at h
  split at h
  · next n hn =>
    cases h
    obtain ⟨hlt, heq, -⟩ := Array.findIdx?_eq_some_iff_getElem.1 hn
    rw [toNat_word (Nat.lt_of_lt_of_le hlt hf), Array.getElem?_eq_getElem hlt, eq_of_beq heq]
  · split at h
    · next hlt =>
      cases h
      rw [toNat_word hlt, FunctionState.upvalues_push, Array.getElem?_push_size]
    · cases h

/-- A captured variable has an index among the captures. -/
theorem addUpvalue_spec {f f' : FunctionState} {c : Capture} {pos : Position} {i : UInt16}
    (h : f.addUpvalue c pos = .ok (i, f')) (hf : f.upvalues.size ≤ FunctionState.maxUpvalues) :
    Widened f f' ∧ f'.upvalues.size ≤ FunctionState.maxUpvalues ∧ i.toNat < f'.upvalues.size ∧
      ∀ x ∈ f'.upvalues, x ∈ f.upvalues ∨ x = c := by
  have hi := (Array.getElem?_eq_some_iff.1 (getElem?_addUpvalue h hf)).1
  rw [FunctionState.addUpvalue_eq] at h
  split at h
  · cases h
    exact ⟨.refl f, hf, hi, fun x hx => .inl hx⟩
  · split at h
    · next hlt =>
      cases h
      refine ⟨⟨rfl, ?_, rfl⟩, ?_, hi, fun x hx => Array.mem_push.1 hx⟩
      · rw [FunctionState.upvalues_push, Array.size_push]
        exact Nat.le_succ _
      · rwa [FunctionState.upvalues_push, Array.size_push]
    · cases h

/-- Resolving a name adds captures that exist to the functions on the way. -/
theorem chained_resolveUpvalue {name : String} {pos : Position} {f f' : FunctionState}
    {fs fs' : List FunctionState} {found : Option UInt16} (hf : Chained f fs)
    (h : resolveUpvalue name pos f fs = .ok (found, f', fs')) :
    Chained f' fs' ∧ Widened f f' ∧ List.Forall₂ Widened fs fs' ∧
      ∀ i, found = some i → i.toNat < f'.upvalues.size := by
  induction fs generalizing f f' fs' found with
  | nil =>
    cases h
    exact ⟨hf, .refl f, .nil, nofun⟩
  | cons outer rest ih =>
    rw [resolveUpvalue] at h
    obtain ⟨slot?, -, h⟩ := except_bind_ok h
    cases slot? with
    | some slot =>
      obtain ⟨⟨i, g⟩, hadd, h⟩ := except_bind_ok h
      cases h
      obtain ⟨hw, hlimit, hi, hmem⟩ := addUpvalue_spec hadd hf.1.limit
      refine ⟨⟨⟨hlimit, ?_⟩, hf.2⟩, hw, forall₂_widened_refl _, ?_⟩
      · intro c hc hl
        rcases hmem c hc with hc | rfl
        · exact hf.1.known c hc hl
        · cases hl
      · rintro _ ⟨⟩
        exact hi
    | none =>
      obtain ⟨⟨found', outer', rest'⟩, hrec, h⟩ := except_bind_ok h
      obtain ⟨hchain, houter, hrest, hfound⟩ := ih hf.2 hrec
      dsimp only at h
      split at h
      · next i =>
        obtain ⟨⟨j, g⟩, hadd, h⟩ := except_bind_ok h
        cases h
        obtain ⟨hw, hlimit, hj, hmem⟩ := addUpvalue_spec hadd hf.1.limit
        refine ⟨⟨⟨hlimit, ?_⟩, hchain⟩, hw, .cons houter hrest, ?_⟩
        · intro c hc hl
          rcases hmem c hc with hc | rfl
          · exact Nat.lt_of_lt_of_le (hf.1.known c hc hl) houter.upvalues
          · exact hfound i rfl
        · rintro _ ⟨⟩
          exact hj
      · cases h
        refine ⟨⟨⟨hf.1.limit, ?_⟩, hchain⟩, .refl f, .cons houter hrest, nofun⟩
        exact fun c hc hl => Nat.lt_of_lt_of_le (hf.1.known c hc hl) houter.upvalues

/-! ## Generators -/

/-- The function under construction has conforming code and captures what exists. -/
structure CompilerState.Conforming (isGenerator : Bool) (s : CompilerState) : Prop where
  /-- The code conforms. -/
  code : s.chunk.Conforming s.current.upvalues.size isGenerator s.current.overflowed
  /-- Captures exist. -/
  chained : Chained s.current s.enclosing

/-- Later in compilation: constants stay, and the functions around gain captures at most. -/
structure Onward (s s' : CompilerState) : Prop where
  /-- Constants stay. -/
  pool : PoolKept s.chunk.constants s'.chunk.constants
  /-- The functions around gain captures at most. -/
  enclosing : List.Forall₂ Widened s.enclosing s'.enclosing

/-- Nothing has changed. -/
theorem Onward.refl (s : CompilerState) : Onward s s := ⟨.refl _, forall₂_widened_refl _⟩

/-- Changes one after the other. -/
theorem Onward.trans {s t s' : CompilerState} (a : Onward s t) (b : Onward t s') : Onward s s' :=
  ⟨a.pool.trans b.pool, forall₂_widened_trans a.enclosing b.enclosing⟩

/-- The generator keeps code conforming, given the constants it refers to. -/
def Fitting {α : Type} (isGenerator : Bool) (refs : List (UInt16 × ConstantKind)) (m : Gen α) :
    Prop :=
  ∀ ⦃s : CompilerState⦄ ⦃a : α⦄ ⦃s' : CompilerState⦄, s.Conforming isGenerator →
    Holds s.chunk.constants refs → Ran m s a s' → s'.Conforming isGenerator ∧ Onward s s'

section Rules

variable {α β : Type} {g : Bool} {refs : List (UInt16 × ConstantKind)}

/-- A value is given without any code. -/
theorem Fitting.pure (a : α) : Fitting g refs (pure a) := by
  intro s b s' hs _ hr
  obtain ⟨-, rfl⟩ := ran_pure.1 hr
  exact ⟨hs, .refl _⟩

/-- What is refused keeps code conforming. -/
theorem Fitting.fail (cause : Cause) (pos : Position) :
    Fitting g refs (fail cause pos : Gen α) := fun _ _ _ _ _ hr => absurd hr ran_fail

/-- A check emits no code. -/
theorem Fitting.lift (x : Except Diagnostic α) : Fitting g refs (liftM x : Gen α) := by
  intro s a s' hs _ hr
  obtain ⟨-, rfl⟩ := ran_lift.1 hr
  exact ⟨hs, .refl _⟩

/-- Reading the state emits no code. -/
theorem Fitting.get : Fitting g refs (get : Gen CompilerState) := by
  intro s a s' hs _ hr
  obtain ⟨-, rfl⟩ := ran_get.1 hr
  exact ⟨hs, .refl _⟩

/-- One generator after another, which may depend on the value of the first. -/
theorem Fitting.bind {m : Gen α} {f : α → Gen β} (hm : Fitting g refs m)
    (hf : ∀ a, Fitting g refs (f a)) : Fitting g refs (m >>= f) := by
  intro s b s' hs hrefs hr
  obtain ⟨a, t, hra, hrb⟩ := ran_bind.1 hr
  obtain ⟨ht, hst⟩ := hm hs hrefs hra
  obtain ⟨hs', hts'⟩ := hf a ht (hrefs.kept hst.pool) hrb
  exact ⟨hs', hst.trans hts'⟩

/-- A value may be changed on the way. -/
theorem Fitting.map {m : Gen α} {f : α → β} (hm : Fitting g refs m) : Fitting g refs (f <$> m) := by
  rw [map_eq_pure_bind]
  exact hm.bind fun a => .pure (f a)

/-- A choice of two that keep code conforming. -/
theorem Fitting.ite {p : Prop} [Decidable p] {m n : Gen α} (hm : Fitting g refs m)
    (hn : Fitting g refs n) : Fitting g refs (if p then m else n) := by
  split
  · exact hm
  · exact hn

/-- One after another for each element of a list. -/
theorem Fitting.forM {f : α → Gen PUnit} (hf : ∀ a, Fitting g refs (f a)) (as : List α) :
    Fitting g refs (as.forM f) := by
  induction as with
  | nil => exact .pure _
  | cons a as ih => exact (hf a).bind fun _ => ih

/-- Constants that are not needed do no harm. -/
theorem Fitting.weaken {m : Gen α} (hm : Fitting g [] m) : Fitting g refs m :=
  fun _ _ _ hs _ hr => hm hs nofun hr

/-- A function under construction goes on: its code still conforms, it captures what it did, and its
constants stay. -/
structure FunctionState.Goes (isGenerator : Bool) (f f' : FunctionState) : Prop where
  /-- The code conforms. -/
  code : f'.chunk.Conforming f.upvalues.size isGenerator f'.overflowed
  /-- Captures stay. -/
  upvalues : f'.upvalues = f.upvalues
  /-- Constants stay. -/
  pool : PoolKept f.chunk.constants f'.chunk.constants

/-- A change that conforms in the function under construction conforms in the whole state. -/
theorem CompilerState.Conforming.goes {s : CompilerState} {f : FunctionState}
    (hs : s.Conforming g) (hf : s.current.Goes g f) :
    (s.withCurrent f).Conforming g ∧ Onward s (s.withCurrent f) := by
  refine ⟨⟨?_, hs.chained.congr hf.upvalues⟩, hf.pool, forall₂_widened_refl _⟩
  rw [withCurrent_current, hf.upvalues]
  exact hf.code

/-- A change of the function under construction that goes through conformingly. -/
theorem Fitting.update {h : FunctionState → FunctionState}
    (hh : ∀ f : FunctionState, f.chunk.Conforming f.upvalues.size g f.overflowed → f.Goes g (h f)) :
    Fitting g refs (updateFunction h) := by
  intro s u s' hs _ hr
  obtain rfl := ran_updateFunction.1 hr
  exact hs.goes (hh _ hs.code)

/-- A change that may be refused and conforms when it is not. -/
theorem Fitting.updateM {h : FunctionState → Except Diagnostic FunctionState}
    (hh : ∀ f f' : FunctionState, h f = .ok f' → f.chunk.Conforming f.upvalues.size g f.overflowed →
      f.Goes g f') :
    Fitting g refs (updateFunctionM h) := by
  intro s u s' hs _ hr
  obtain ⟨f, hf, rfl⟩ := ran_updateFunctionM.1 hr
  exact hs.goes (hh _ f hf hs.code)

/-- A change that concerns neither code nor captures. -/
theorem FunctionState.Goes.of_eq {f f' : FunctionState}
    (hf : f.chunk.Conforming f.upvalues.size g f.overflowed) (hc : f'.chunk = f.chunk)
    (hu : f'.upvalues = f.upvalues) (ho : f'.overflowed = f.overflowed) : f.Goes g f' :=
  ⟨hc ▸ ho ▸ hf, hu, hc ▸ .refl _⟩

/-- Whether an instruction refers to what is there already: captures, or code before it. -/
def refersBack : Op → Bool
  | .loop _ | .getUpvalue _ | .setUpvalue _ | .closure _ _ => true
  | _ => false

/-- An instruction that fits wherever it is appended, given the constants it refers to. A jump has
no distance yet. -/
structure Fresh (isGenerator : Bool) (refs : List (UInt16 × ConstantKind)) (op : Op) : Prop where
  /-- Only generators yield. -/
  yields : op = .yield ∨ op = .generatorClose → isGenerator = true
  /-- Constants are among those given. -/
  operands : ∀ r ∈ op.constantOperands, r ∈ refs
  /-- A jump has no distance. -/
  forward : ∀ d, op.forwardDistance? = some d → d = 0
  /-- It refers to nothing else. -/
  own : refersBack op = false

/-- Neither yields, jumps any distance, nor refers to the code or the upvalues around. -/
def selfContained : Op → Bool
  | .yield | .generatorClose => false
  | op => op.forwardDistance?.all (· == 0) && !refersBack op

/-- An instruction that says nothing about its surroundings is fresh as soon as its constants are
known. -/
theorem fresh_of_operands {op : Op} (h : selfContained op = true)
    (ho : ∀ r ∈ op.constantOperands, r ∈ refs) : Fresh g refs op := by
  have hy : op ≠ .yield ∧ op ≠ .generatorClose := by
    constructor <;> (rintro rfl; cases h)
  have hop : (op.forwardDistance?.all (· == 0) && !refersBack op) = true := by
    unfold selfContained at h
    split at h
    · cases h
    · cases h
    · exact h
  obtain ⟨hdist, hown⟩ := Bool.and_eq_true_iff.1 hop
  refine ⟨fun h => absurd h (not_or.2 hy), ho, ?_, by simpa using hown⟩
  intro d hd
  simpa [hd] using hdist

/-- Without constants. -/
theorem Fresh.bare {op : Op} (h : selfContained op = true) (ho : op.constantOperands = []) :
    Fresh g refs op :=
  fresh_of_operands h (by simp [ho])

/-- With one constant. -/
theorem Fresh.naming {op : Op} {r : UInt16 × ConstantKind} (h : selfContained op = true)
    (ho : op.constantOperands = [r]) (hr : r ∈ refs) : Fresh g refs op :=
  fresh_of_operands h (by simpa [ho] using hr)

/-- A fresh instruction fits wherever its constants are held. -/
theorem Fresh.fits {op : Op} (h : Fresh g refs op) {constants : Array Constant}
    (hrefs : Holds constants refs) (size captured : Nat) :
    FitsAt constants (size + 1) captured g size op where
  yields := h.yields
  operands r hr := hrefs r (h.operands r hr)
  forward target ht := by
    obtain ⟨d, hd, rfl⟩ := Option.map_eq_some_iff.1 ht
    rw [h.forward d hd]
    exact Nat.le_refl _
  backward d hd := by
    subst hd
    cases h.own
  upvalue i hi := by
    rcases hi with rfl | rfl <;> cases h.own
  captures i cs hc := by
    subst hc
    cases h.own

/-- A fresh instruction makes no closure. -/
theorem Fresh.ne_closure {op : Op} (h : Fresh g refs op) (i : UInt16) (cs : List Capture) :
    op ≠ .closure i cs := by
  rintro rfl
  cases h.own

/-- An instruction that fits is emitted. -/
theorem FunctionState.Goes.emit {f : FunctionState} {op : Op}
    (hf : f.chunk.Conforming f.upvalues.size g f.overflowed)
    (hop : FitsAt f.chunk.constants (f.chunk.code.size + 1) f.upvalues.size g f.chunk.code.size op)
    (hn : ∀ i cs, op ≠ .closure i cs) (line : Nat) : f.Goes g (f.emit op line) := by
  refine ⟨hf.emit hop (fun i cs _ h => absurd h (hn i cs)) line, rfl, ?_⟩
  rw [FunctionState.emit_chunk, Chunk.emit_constants]
  exact .refl _

/-- A fresh instruction is emitted. -/
theorem Fitting.emit {op : Op} (line : Nat) (h : Fresh g refs op) :
    Fitting g refs (emit op line) := by
  intro s u s' hs hrefs hr
  obtain rfl := ran_emit.1 hr
  exact hs.goes (.emit hs.code (h.fits hrefs _ _) h.ne_closure line)

/-- A jump that is patched later. -/
theorem Fitting.emitJump {op : Op} (line : Nat) (h : Fresh g refs op) :
    Fitting g refs (emitJump op line) := by
  intro s u s' hs hrefs hr
  obtain ⟨-, rfl⟩ := ran_emitJump.1 hr
  exact hs.goes (.emit hs.code (h.fits hrefs _ _) h.ne_closure line)

/-- Reading the offset of the next instruction. -/
theorem Fitting.offset : Fitting g refs offset := .bind .get fun _ => .pure _

/-- Reading the number of locals. -/
theorem Fitting.localCount : Fitting g refs localCount := .bind .get fun _ => .pure _

/-- Asking whether declarations make globals. -/
theorem Fitting.atTopLevel : Fitting g refs atTopLevel := .bind .get fun _ => .pure _

/-- A jump is patched. -/
theorem Fitting.patchJump (jump : Nat) (pos : Position) : Fitting g refs (patchJump jump pos) := by
  intro s u s' hs _ hr
  obtain ⟨c, hc, rfl⟩ := ran_patchJump.1 hr
  refine hs.goes ⟨hs.code.patch hc, rfl, ?_⟩
  obtain ⟨-, hconst, -, -⟩ := Chunk.patchJump?_code hc
  exact hconst ▸ .refl _

/-- Jumps are patched. -/
theorem Fitting.patchJumps (jumps : List Nat) (pos : Position) :
    Fitting g refs (patchJumps jumps pos) := .forM (.patchJump · pos) jumps

/-- The jump back of a loop, which is never longer than the code so far. -/
theorem Fitting.emitLoop (start : Nat) (pos : Position) : Fitting g refs (emitLoop start pos) := by
  intro s u s' hs _ hr
  obtain ⟨hd, rfl⟩ := ran_emitLoop.1 hr
  refine hs.goes (.emit hs.code ⟨by simp, by simp [Op.constantOperands],
    by simp [Op.forwardTarget?, Op.forwardDistance?], ?_, by simp, by simp⟩ (by simp) pos.line)
  rintro _ ⟨⟩
  rw [UInt16.toNat_ofNat']
  calc (s.size - start + 1) % 2 ^ 16 ≤ s.size - start + 1 := Nat.mod_le _ _
    _ ≤ s.size + 1 := Nat.succ_le_succ (Nat.sub_le _ _)

/-- What follows the entry of a constant may refer to it. -/
theorem Fitting.withConstant {k : Constant} {kind : ConstantKind} {pos : Position}
    {f : UInt16 → Gen α} (hk : ∀ q, k ≠ .function q) (hkind : kind.admits k = true)
    (hf : ∀ i, Fitting g ((i, kind) :: refs) (f i)) : Fitting g refs (addConstant k pos >>= f) := by
  intro s a s' hs hrefs hr
  obtain ⟨i, t, hra, hrf⟩ := ran_bind.1 hr
  obtain ⟨c, hc, rfl⟩ := ran_addConstant.1 hra
  have hpool := Chunk.kept_addConstant hc
  obtain ⟨ht, hst⟩ := hs.goes (f := { s.current with chunk := c })
    ⟨hs.code.addConstant hc hk, rfl, hpool⟩
  have hheld : Holds c.constants ((i, kind) :: refs) := by
    intro r hr
    rcases List.mem_cons.1 hr with rfl | hr
    · exact ⟨k, (Chunk.addConstant?_get hc hs.code.limit).1, hkind⟩
    · exact hrefs.kept hpool r hr
  obtain ⟨hs', hts'⟩ := hf i ht hheld hrf
  exact ⟨hs', hst.trans hts'⟩

/-- A name in the constant pool, with what uses its index. -/
theorem Fitting.withName {name : String} {pos : Position} {f : UInt16 → Gen α}
    (hf : ∀ i, Fitting g ((i, .name) :: refs) (f i)) : Fitting g refs (addName name pos >>= f) :=
  .withConstant nofun rfl hf

/-- A constant that is no function, and the instruction that pushes it. -/
theorem Fitting.emitConstant {k : Constant} (hk : ∀ q, k ≠ .function q) (pos : Position) :
    Fitting g refs (emitConstant k pos) := by
  have hany : ConstantKind.any.admits k = true := by
    cases k <;> rfl
  exact .withConstant hk hany fun _ => .emit pos.line (.naming rfl rfl List.mem_cons_self)

/-! ## Scopes and variables -/

/-- A scope begins. -/
theorem Fitting.beginScope : Fitting g refs beginScope := .update fun _ hf => .of_eq hf rfl rfl rfl

/-- The instruction that drops a local is fresh. -/
theorem fresh_dropOp (l : Local) : Fresh g refs (FunctionState.dropOp l) := by
  unfold FunctionState.dropOp
  split <;> exact .bare rfl rfl

/-- Changes one after the other. -/
theorem FunctionState.Goes.trans {f f' f'' : FunctionState} (a : f.Goes g f') (b : f'.Goes g f'') :
    f.Goes g f'' :=
  ⟨a.upvalues ▸ b.code, b.upvalues.trans a.upvalues, a.pool.trans b.pool⟩

/-- A local is dropped. -/
theorem FunctionState.Goes.drop {f : FunctionState} (hf : f.chunk.Conforming f.upvalues.size g f.overflowed)
    (l : Local) (line : Nat) : f.Goes g (f.emit (dropOp l) line) := by
  have hfresh : Fresh g [] (dropOp l) := fresh_dropOp l
  exact .emit hf (hfresh.fits nofun _ _) hfresh.ne_closure line

/-- The locals of a scope are dropped. -/
theorem goes_dropScope {f : FunctionState} (hf : f.chunk.Conforming f.upvalues.size g f.overflowed) (line : Nat)
    (ls : List Local) : f.Goes g (f.dropScope line ls) := by
  induction ls generalizing f with
  | nil => exact .of_eq hf rfl rfl rfl
  | cons l outer ih =>
    rw [FunctionState.dropScope]
    split
    · have hdrop := FunctionState.Goes.drop hf l line
      exact hdrop.trans (ih hdrop.code)
    · exact .of_eq hf rfl rfl rfl

/-- Locals are dropped one by one. -/
theorem goes_drops {f : FunctionState} (hf : f.chunk.Conforming f.upvalues.size g f.overflowed) (line : Nat)
    (ls : List Local) :
    f.Goes g (ls.foldl (fun f l => f.emit (FunctionState.dropOp l) line) f) := by
  induction ls generalizing f with
  | nil => exact .of_eq hf rfl rfl rfl
  | cons l ls ih =>
    have hdrop := FunctionState.Goes.drop hf l line
    exact hdrop.trans (ih hdrop.code)

/-- A scope ends. -/
theorem Fitting.endScope (line : Nat) : Fitting g refs (endScope line) := by
  refine .update fun f hf => ?_
  have houter : f.Goes g { f with depth := f.depth - 1 } := .of_eq hf rfl rfl rfl
  exact houter.trans
    (goes_dropScope (f := { f with depth := f.depth - 1 }) houter.code line f.locals)

/-- Something in a scope of its own. -/
theorem Fitting.inScope {body : Gen Unit} (line : Nat) (h : Fitting g refs body) :
    Fitting g refs (inScope line body) :=
  .bind .beginScope fun _ => h.bind fun _ => .endScope line

/-- Locals are dropped, but not forgotten. -/
theorem Fitting.discardLocals (count line : Nat) :
    Fitting g refs (updateFunction (·.discardLocals count line)) :=
  .update fun _ hf => goes_drops hf line _

/-- A local is declared. -/
theorem Fitting.declare (name : String) (pos : Position) :
    Fitting g refs (updateFunctionM (·.declare name pos)) := by
  refine .updateM fun f f' h hf => ?_
  rw [FunctionState.declare_eq] at h
  split at h
  · cases h
  · split at h
    · cases h
      exact .of_eq hf rfl rfl rfl
    · cases h

/-- A local is declared and has its value. -/
theorem Fitting.defineLocal (name : String) (pos : Position) :
    Fitting g refs (defineLocal name pos) := by
  refine .updateM fun f f' h hf => ?_
  unfold FunctionState.define FunctionState.declare at h
  split at h
  · cases h
  · split at h
    · cases h
      exact .of_eq hf rfl rfl rfl
    · cases h

/-- Locals have their values now. -/
theorem Fitting.markInitialized (count : Nat) :
    Fitting g refs (updateFunction (·.markInitialized count)) :=
  .update fun _ hf => .of_eq hf rfl rfl rfl

/-- A value is bound to a variable. -/
theorem Fitting.defineVariable (name : String) (pos : Position) :
    Fitting g refs (defineVariable name pos) :=
  .bind .atTopLevel fun _ => .ite (.withName fun _ =>
  .emit pos.line (.naming rfl rfl List.mem_cons_self)) (.defineLocal name pos)

/-- A name is resolved to a captured variable that exists. -/
theorem conforming_resolve {s s' : CompilerState} {name : String} {pos : Position} {a : Access}
    (hs : s.Conforming g) (h : Ran (resolve name pos) s a s') :
    s'.Conforming g ∧ Onward s s' ∧ ∀ i, a = .upvalue i → i.toNat < s'.current.upvalues.size := by
  simp only [resolve, ran_bind, ran_get, ran_lift] at h
  obtain ⟨_, _, ⟨rfl, rfl⟩, slot?, _, ⟨-, rfl⟩, h⟩ := h
  cases slot? with
  | some slot =>
    obtain ⟨rfl, rfl⟩ := ran_pure.1 h
    exact ⟨hs, .refl _, fun _ ha => by cases ha⟩
  | none =>
    simp only [ran_bind, ran_lift, ran_set] at h
    obtain ⟨⟨found, current, enclosing⟩, _, ⟨hup, rfl⟩, _, _, rfl, h⟩ := h
    obtain ⟨hchain, hcur, henc, hfound⟩ := chained_resolveUpvalue hs.chained hup
    have hcode : current.chunk.Conforming current.upvalues.size g current.overflowed :=
      hcur.chunk ▸ hcur.overflowed ▸ hs.code.widen hcur.upvalues
    have honward : Onward _ ⟨current, enclosing⟩ := ⟨hcur.kept, henc⟩
    cases found with
    | some i =>
      obtain ⟨rfl, rfl⟩ := ran_pure.1 h
      refine ⟨⟨hcode, hchain⟩, honward, ?_⟩
      rintro _ ⟨⟩
      exact hfound i rfl
    | none =>
      obtain ⟨rfl, rfl⟩ := ran_pure.1 h
      exact ⟨⟨hcode, hchain⟩, honward, fun _ ha => by cases ha⟩

/-- What follows a resolution may refer to the captured variable it gives. -/
theorem Fitting.withAccess {name : String} {pos : Position} {f : Access → Gen Unit}
    (hslot : ∀ i, Fitting g refs (f (.slot i)))
    (hup : ∀ i, ∃ op, f (.upvalue i) = Compile.emit op pos.line ∧
      (op = .getUpvalue i ∨ op = .setUpvalue i))
    (hglobal : Fitting g refs (f .global)) : Fitting g refs (resolve name pos >>= f) := by
  intro s u s' hs hrefs hr
  obtain ⟨a, t, hra, hrf⟩ := ran_bind.1 hr
  obtain ⟨ht, hst, hindex⟩ := conforming_resolve hs hra
  have hrefs' := hrefs.kept hst.pool
  have hdone : t.Conforming g → s'.Conforming g ∧ Onward t s' := by
    intro ht
    cases a with
    | slot i => exact hslot i ht hrefs' hrf
    | global => exact hglobal ht hrefs' hrf
    | upvalue i =>
      obtain ⟨op, hf, hop⟩ := hup i
      rw [hf] at hrf
      obtain rfl := ran_emit.1 hrf
      refine ht.goes (.emit ht.code ⟨?_, ?_, ?_, ?_, ?_, ?_⟩ ?_ pos.line)
      all_goals rcases hop with rfl | rfl
      all_goals simp [Op.constantOperands, Op.forwardTarget?, Op.forwardDistance?, hindex i rfl]
  obtain ⟨hs', hts'⟩ := hdone ht
  exact ⟨hs', hst.trans hts'⟩

/-- A variable is read. -/
theorem Fitting.getVariable (name : String) (pos : Position) :
    Fitting g refs (getVariable name pos) :=
  .withAccess (fun _ => .emit pos.line (.bare rfl rfl)) (fun i => ⟨.getUpvalue i, rfl, .inl rfl⟩)
    (.withName fun _ => .emit pos.line (.naming rfl rfl List.mem_cons_self))

/-- A variable is written. -/
theorem Fitting.setVariable (name : String) (pos : Position) :
    Fitting g refs (setVariable name pos) :=
  .withAccess (fun _ => .emit pos.line (.bare rfl rfl)) (fun i => ⟨.setUpvalue i, rfl, .inr rfl⟩)
    (.withName fun _ => .emit pos.line (.naming rfl rfl List.mem_cons_self))

/-- The instructions of a binary operator are fresh. -/
theorem fresh_binaryOps (op : BinaryOp) : ∀ o ∈ binaryOps op, Fresh g refs o := by
  intro o ho
  have hplain : selfContained o = true ∧ o.constantOperands = [] := by
    revert o
    cases op <;> decide
  exact .bare hplain.1 hplain.2

end Rules

end ScriptEngine.Compile
