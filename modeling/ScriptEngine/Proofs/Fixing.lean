import Mathlib.Algebra.Group.Nat.Defs
import Mathlib.Tactic.Common
import ScriptEngine.Proofs.Growth

/-!
# Code that is fixed

Code under construction only grows, except that a forward jump is changed once more when its target
is known. `Grown` says so for two chunks, apart from the jumps that were patched in between, and
`Fixed` says that what a run has emitted is the code of a later chunk, apart from jumps that the run
has left open. The line table of the later chunk is exact if it has as many lines as instructions,
which is what a chunk is checked for before it is run.
-/

namespace ScriptEngine.Bytecode

namespace LineTable

/-- How many instructions some runs cover. -/
def covered (runs : List LineRun) : Nat := runs.foldr (fun run n => run.count.toNat + n) 0

/-- What runs cover, one after the other. -/
theorem covered_append (xs ys : List LineRun) : covered (xs ++ ys) = covered xs + covered ys := by
  induction xs with
  | nil => exact (Nat.zero_add _).symm
  | cons run xs ih =>
    change run.count.toNat + covered (xs ++ ys) = run.count.toNat + covered xs + covered ys
    rw [ih, Nat.add_assoc]

/-- What one run covers. -/
theorem covered_single (run : LineRun) : covered [run] = run.count.toNat := rfl

/-- The line of an instruction in runs one after the other. -/
theorem lineIn_append (xs ys : List LineRun) (i : Nat) :
    lineIn (xs ++ ys) i = if i < covered xs then lineIn xs i else lineIn ys (i - covered xs) := by
  induction xs generalizing i with
  | nil => simp [covered]
  | cons run xs ih =>
    have hc : covered (run :: xs) = run.count.toNat + covered xs := rfl
    rw [List.cons_append, lineIn, lineIn, ih, hc]
    split
    · rw [if_pos (by omega)]
    · by_cases h : i - run.count.toNat < covered xs
      · rw [if_pos h, if_pos (by omega)]
      · rw [if_neg h, if_neg (by omega), Nat.sub_sub]

/-- The runs of a table before its last one. -/
theorem runs_back {t : LineTable} {run : LineRun} (h : t.runs.back? = some run) :
    t.runs.toList = t.runs.toList.dropLast ++ [run] := by
  rw [← Array.getLast?_toList] at h
  exact (List.dropLast_append_getLast? run h).symm

/-- The size of a table with a last run. -/
theorem size_of_runs {t : LineTable} {runs : List LineRun} {run : LineRun}
    (h : t.runs.toList = runs ++ [run]) : t.size = covered runs + run.count.toNat := by
  change covered t.runs.toList = _
  rw [h, covered_append, covered_single]

/-- The runs after one more line: the last run is longer, or there is one run more. -/
theorem push_cases (t : LineTable) (line : Nat) :
    (∃ runs run, t.runs.toList = runs ++ [run] ∧ run.line = UInt32.ofNat line ∧
        (t.push line).runs.toList = runs ++ [⟨run.line, run.count + 1⟩]) ∨
      ((∀ run ∈ t.runs.toList.getLast?, run.line ≠ UInt32.ofNat line) ∧
        (t.push line).runs.toList = t.runs.toList ++ [⟨UInt32.ofNat line, 1⟩]) := by
  have hlast : t.runs.toList.getLast? = t.runs.back? := Array.getLast?_toList _
  cases hb : t.runs.back? with
  | none =>
    refine .inr ⟨fun run hrun => ?_, by simp [push, hb]⟩
    rw [hlast, hb] at hrun
    cases hrun
  | some run =>
    by_cases hl : run.line = UInt32.ofNat line
    · exact .inl ⟨_, run, runs_back hb, hl, by simp [push, hb, hl]⟩
    · refine .inr ⟨fun other hother => ?_, by simp [push, hb, hl]⟩
      rw [hlast, hb] at hother
      cases hother
      exact hl

/-- A counter that does not overflow. -/
theorem toNat_count_succ {n : UInt32} (h : n.toNat + 1 < 2 ^ 32) : (n + 1).toNat = n.toNat + 1 := by
  rw [UInt32.toNat_add]
  exact Nat.mod_eq_of_lt h

/-- A line table whose counter does not overflow covers one more instruction. -/
theorem size_push {t : LineTable} {line : Nat} (h : t.isFull line = false) :
    (t.push line).size = t.size + 1 := by
  obtain ⟨runs, run, hruns, hline, hpush⟩ | ⟨-, hpush⟩ := t.push_cases line
  · have hback : t.runs.back? = some run := by
      rw [← Array.getLast?_toList, hruns, List.getLast?_append, List.getLast?_singleton]
      rfl
    have hcount : run.count.toNat + 1 < 2 ^ 32 := by
      have hne : run.count + 1 ≠ 0 := by simpa [isFull, hback, hline] using h
      have hlt := run.count.toNat_lt
      by_contra hfull
      refine hne (UInt32.toNat_inj.1 ?_)
      rw [UInt32.toNat_add, show run.count.toNat = 2 ^ 32 - 1 by omega]
      rfl
    have hold := size_of_runs hruns
    rw [size_of_runs hpush, toNat_count_succ hcount, hold, Nat.add_assoc]
  · rw [size_of_runs hpush]
    rfl

/-- Recording a line covers at most one more instruction. If it does cover one more, that one has
the line, and the others have those they had. -/
theorem push_spec (t : LineTable) (line : Nat) :
    (t.push line).size ≤ t.size + 1 ∧
      ((t.push line).size = t.size + 1 →
        (t.push line).lineAt? t.size = some (UInt32.ofNat line).toNat ∧
          ∀ i < t.size, (t.push line).lineAt? i = t.lineAt? i) := by
  unfold lineAt?
  obtain ⟨runs, run, hruns, hline, hpush⟩ | ⟨-, hpush⟩ := t.push_cases line
  · have hold := size_of_runs hruns
    have hnew : (t.push line).size = covered runs + (run.count + 1).toNat := size_of_runs hpush
    have hcount : (run.count + 1).toNat ≤ run.count.toNat + 1 := by
      rw [UInt32.toNat_add]
      exact Nat.mod_le _ _
    refine ⟨by omega, fun hs => ?_⟩
    have hone : (run.count + 1).toNat = run.count.toNat + 1 := by omega
    refine ⟨?_, fun i hi => ?_⟩
    · rw [hpush, lineIn_append, if_neg (by omega), hline]
      exact if_pos (show t.size - covered runs < (run.count + 1).toNat by omega)
    · rw [hpush, hruns, lineIn_append, lineIn_append]
      split
      · rfl
      · simp only [lineIn]
        rw [if_pos (by omega), if_pos (by omega)]
  · have hsize : t.size = covered t.runs.toList := rfl
    have hnew : (t.push line).size = t.size + 1 := size_of_runs hpush
    refine ⟨Nat.le_of_eq hnew, fun _ => ⟨?_, fun i hi => ?_⟩⟩
    · rw [hpush, lineIn_append, ← hsize, if_neg (Nat.lt_irrefl _), Nat.sub_self]
      rfl
    · rw [hpush, lineIn_append, ← hsize, if_pos hi]

end LineTable

/-- One chunk has grown into another: what was there is still there, apart from some jumps. -/
structure Chunk.Grown (jumps : List Nat) (c c' : Chunk) : Prop where
  /-- Code is only added. -/
  size : c.code.size ≤ c'.code.size
  /-- Instructions stay, apart from the jumps. -/
  code : ∀ pc < c.code.size, pc ∉ jumps → c'.code[pc]? = c.code[pc]?
  /-- Constants stay. -/
  pool : ∀ (i : Nat) (k : Constant), c.constants[i]? = some k → c'.constants[i]? = some k
  /-- The line table never covers more than the code. -/
  covered : c.lines.size ≤ c.code.size → c'.lines.size ≤ c'.code.size
  /-- Where it covers all of the code, it did before, with the same lines. -/
  lines : c.lines.size ≤ c.code.size → c'.lines.size = c'.code.size →
    c.lines.size = c.code.size ∧ ∀ pc < c.code.size, c'.lineAt? pc = c.lineAt? pc

namespace Chunk.Grown

variable {js js' : List Nat} {c c' c'' : Chunk}

/-- A chunk has grown from itself. -/
theorem refl (c : Chunk) : Grown [] c c :=
  ⟨Nat.le_refl _, fun _ _ _ => rfl, fun _ _ h => h, fun h => h, fun _ h => ⟨h, fun _ _ => rfl⟩⟩

/-- Chunks that grow one after the other. -/
theorem trans (a : Grown js c c') (b : Grown js' c' c'') : Grown (js ++ js') c c'' where
  size := Nat.le_trans a.size b.size
  code pc hpc hj := by
    rw [List.mem_append, not_or] at hj
    rw [b.code pc (Nat.lt_of_lt_of_le hpc a.size) hj.2, a.code pc hpc hj.1]
  pool i k h := b.pool i k (a.pool i k h)
  covered h := b.covered (a.covered h)
  lines h h' := by
    obtain ⟨hs, hl⟩ := b.lines (a.covered h) h'
    obtain ⟨hs', hl'⟩ := a.lines h hs
    exact ⟨hs', fun pc hpc => (hl pc (Nat.lt_of_lt_of_le hpc a.size)).trans (hl' pc hpc)⟩

/-- Jumps that are not among the old instructions do not matter. -/
theorem narrow (h : Grown js c c') (hj : ∀ j ∈ js, j < c.code.size → j ∈ js') :
    Grown js' c c' where
  size := h.size
  code pc hpc hn := h.code pc hpc fun hmem => hn (hj pc hmem hpc)
  pool := h.pool
  covered := h.covered
  lines := h.lines

end Chunk.Grown

@[simp] theorem Chunk.emit_lines (c : Chunk) (op : Op) (line : Nat) :
    (c.emit op line).lines = c.lines.push line := by
  cases c
  rfl

/-- An instruction grows the code, and has its line if the lines cover the code. -/
theorem Chunk.grown_emit (c : Chunk) (op : Op) (line : Nat) : Grown [] c (c.emit op line) where
  size := by
    rw [c.emit_size]
    omega
  code pc hpc _ := by rw [c.emit_code, Array.getElem?_push_lt hpc, Array.getElem?_eq_getElem hpc]
  pool i k h := by rwa [c.emit_constants]
  covered h := by
    have := (c.lines.push_spec line).1
    rw [c.emit_size, c.emit_lines]
    omega
  lines h h' := by
    have hspec := c.lines.push_spec line
    rw [c.emit_size, c.emit_lines] at h'
    have hs : c.lines.size = c.code.size := by omega
    refine ⟨hs, fun pc hpc => ?_⟩
    unfold Chunk.lineAt?
    rw [c.emit_lines]
    exact (hspec.2 (by omega)).2 pc (by omega)

/-- The line of an instruction that has just been emitted. -/
theorem Chunk.lineAt?_emit {c : Chunk} {op : Op} {line : Nat} (h : c.lines.size ≤ c.code.size)
    (h' : (c.emit op line).lines.size = (c.emit op line).code.size) :
    (c.emit op line).lineAt? c.code.size = some (UInt32.ofNat line).toNat := by
  have hspec := c.lines.push_spec line
  rw [c.emit_size, c.emit_lines] at h'
  have hs : c.lines.size = c.code.size := by omega
  unfold Chunk.lineAt?
  rw [c.emit_lines, ← hs]
  exact (hspec.2 (by omega)).1

/-- A patched jump. -/
theorem Chunk.grown_patchJump {c c' : Chunk} {j : Nat} (h : c.patchJump? j = some c') :
    Grown [j] c c' := by
  obtain ⟨-, hconst, hlines, hcode⟩ := Chunk.patchJump?_code h
  have hsize := Chunk.patchJump?_size h
  refine ⟨Nat.le_of_eq hsize.symm, ?_, ?_, ?_, ?_⟩
  · intro pc _ hn
    have hne : j ≠ pc := fun heq => hn (List.mem_singleton.2 heq.symm)
    rw [hcode, Array.getElem?_modify, if_neg hne]
  · intro i k hk
    rwa [hconst]
  · intro hc
    rwa [hlines, hsize]
  · intro _ hc
    rw [hlines, hsize] at hc
    refine ⟨hc, fun pc _ => ?_⟩
    unfold Chunk.lineAt?
    rw [hlines]

/-- A new constant. -/
theorem Chunk.grown_addConstant {c c' : Chunk} {k : Constant} {i : UInt16}
    (h : c.addConstant? k = some (i, c')) : Grown [] c c' := by
  obtain ⟨hcode, hlines, hpool⟩ := Chunk.addConstant?_spec h
  refine ⟨Nat.le_of_eq (by rw [hcode]), fun _ _ _ => by rw [hcode], ?_, ?_, ?_⟩
  · intro j q hq
    rcases hpool with rfl | hpush
    · exact hq
    · have hlt : j < c.constants.size := (Array.getElem?_eq_some_iff.1 hq).1
      rw [hpush, Array.getElem?_push_lt hlt, ← Array.getElem?_eq_getElem hlt]
      exact hq
  · intro hc
    rwa [hlines, hcode]
  · intro _ hc
    rw [hlines, hcode] at hc
    refine ⟨hc, fun pc _ => ?_⟩
    unfold Chunk.lineAt?
    rw [hlines]

/-- A constant that was entered is found under its index. -/
theorem Chunk.addConstant?_get {c c' : Chunk} {k : Constant} {i : UInt16}
    (h : c.addConstant? k = some (i, c')) (hc : c.constants.size ≤ maxConstants) :
    c'.constants[i.toNat]? = some k ∧ c'.constants.size ≤ maxConstants := by
  obtain ⟨code, constants, lines⟩ := c
  simp only [Chunk.addConstant?] at h
  split at h
  · next j hj =>
    cases h
    -- an entry that stands for the constant is equal to it
    have hshared : isShared k = true := by
      by_contra hn
      simp [hn] at hj
    rw [if_pos hshared] at hj
    obtain ⟨hlt, hs, -⟩ := Array.findIdx?_eq_some_iff_getElem.1 hj
    refine ⟨?_, hc⟩
    rw [toNat_word (Nat.lt_of_lt_of_le hlt hc), Array.getElem?_eq_getElem hlt]
    cases hk : constants[j] <;> cases k <;> simp_all [shares, isShared]
    next a b =>
      cases a
      cases b
      simp_all
  · split at h
    · next hlt =>
      cases h
      refine ⟨?_, ?_⟩
      · rw [toNat_word hlt]
        exact Array.getElem?_push_size
      · rw [Array.size_push]
        exact hlt
    · cases h

end ScriptEngine.Bytecode

namespace ScriptEngine.Compile

open Bytecode Source

/-! ## Runs that emit code -/

/-- What a run emits: code, and jumps recorded for the innermost loop, which are among it. -/
structure Emits (s s' : CompilerState) (breaks continues : List Nat) : Prop where
  /-- The code grows. -/
  grown : s.chunk.Grown [] s'.chunk
  /-- The jumps are recorded. -/
  loops : s'.current.loops = addJumps breaks continues s.current.loops
  /-- They are new, and have no distance yet. -/
  jump : ∀ j ∈ breaks ++ continues, s.size ≤ j ∧ s'.chunk.code[j]? = some (.jump 0)
  /-- Nothing is recorded without a loop. -/
  empty : s.current.loops = [] → breaks ++ continues = []
  /-- A `continue` is recorded only where its target is not known yet. -/
  targeted : ∀ l ls, s.current.loops = l :: ls → l.continueTarget ≠ none → continues = []
  /-- No jump is recorded as both. -/
  apart : ∀ j ∈ breaks, j ∉ continues

/-- What two runs record is recorded by one or the other. -/
theorem mem_opens {bs cs bs' cs' : List Nat} {j : Nat} :
    j ∈ (bs ++ bs') ++ (cs ++ cs') ↔ j ∈ bs ++ cs ∨ j ∈ bs' ++ cs' := by
  simp only [List.mem_append]
  tauto

section Emits

variable {s t s' t' : CompilerState} {bs cs bs' cs' : List Nat}

/-- Code does not get shorter. -/
theorem Emits.size (h : Emits s s' bs cs) : s.size ≤ s'.size := h.grown.size

/-- Jumps that are left open are in the code. -/
theorem Emits.lt_size (h : Emits s s' bs cs) {j : Nat} (hj : j ∈ bs ++ cs) : j < s'.size :=
  (Array.getElem?_eq_some_iff.1 (h.jump j hj).2).1

/-- Nothing is emitted. -/
theorem Emits.refl (s : CompilerState) : Emits s s [] [] :=
  ⟨.refl _, (addJumps_nil _).symm, nofun, fun _ => rfl, fun _ _ _ _ => rfl, nofun⟩

/-- A run that only grows the code records nothing. -/
theorem emits_of_grown (h : s.chunk.Grown [] s'.chunk) (hl : s'.current.loops = s.current.loops) :
    Emits s s' [] [] :=
  ⟨h, by rw [addJumps_nil, hl], nofun, fun _ => rfl, fun _ _ _ _ => rfl, nofun⟩

/-- Runs one after the other. -/
theorem Emits.trans (a : Emits s t bs cs) (b : Emits t s' bs' cs') :
    Emits s s' (bs ++ bs') (cs ++ cs') where
  grown := a.grown.trans b.grown
  loops := by rw [b.loops, a.loops, addJumps_addJumps]
  jump j hj := by
    rcases mem_opens.1 hj with h | h
    · refine ⟨(a.jump j h).1, ?_⟩
      rw [b.grown.code j (a.lt_size h) List.not_mem_nil]
      exact (a.jump j h).2
    · exact ⟨Nat.le_trans a.size (b.jump j h).1, (b.jump j h).2⟩
  empty h := by
    have ha := List.append_eq_nil_iff.1 (a.empty h)
    have hb := List.append_eq_nil_iff.1 (b.empty (by rw [a.loops, h]; rfl))
    simp [ha, hb]
  targeted l ls hl ht := by
    have hl' : t.current.loops = addJumps bs cs (l :: ls) := by rw [a.loops, hl]
    rw [a.targeted l ls hl ht, b.targeted _ _ hl' ht]
    rfl
  apart j hj hj' := by
    rcases List.mem_append.1 hj with h | h
    · have hlt := a.lt_size (List.mem_append_left _ h)
      rcases List.mem_append.1 hj' with h' | h'
      · exact a.apart j h h'
      · exact absurd (b.jump j (List.mem_append_right _ h')).1 (Nat.not_le.2 hlt)
    · have hle := (b.jump j (List.mem_append_left _ h)).1
      rcases List.mem_append.1 hj' with h' | h'
      · exact absurd (a.lt_size (List.mem_append_right _ h')) (Nat.not_lt.2 hle)
      · exact b.apart j h h'

/-- What a run records is determined by the states. -/
theorem Emits.unique (h : Emits s s' bs cs) (h' : Emits s s' bs' cs') : bs' = bs ∧ cs' = cs := by
  cases hl : s.current.loops with
  | nil =>
    have h₁ := List.append_eq_nil_iff.1 (h.empty hl)
    have h₂ := List.append_eq_nil_iff.1 (h'.empty hl)
    simp [h₁, h₂]
  | cons l ls =>
    have heq := h.loops.symm.trans h'.loops
    rw [hl] at heq
    simp only [addJumps, List.cons.injEq, LoopRecord.mk.injEq, List.append_cancel_left_eq, true_and,
      and_true] at heq
    exact ⟨heq.2.symm, heq.1.symm⟩

/-- An instruction is emitted. -/
theorem emits_emit (s : CompilerState) (op : Op) (line : Nat) :
    Emits s (s.withCurrent (s.current.emit op line)) [] [] :=
  emits_of_grown (Chunk.grown_emit _ op line) rfl

/-- An instruction is emitted after a run. -/
theorem Emits.emit (h : Emits s t bs cs) (op : Op) (line : Nat) :
    Emits s (t.withCurrent (t.current.emit op line)) bs cs := by
  have := h.trans (emits_emit t op line)
  rwa [List.append_nil, List.append_nil] at this

/-- The instruction is the last one. -/
theorem code_emit (s : CompilerState) (op : Op) (line : Nat) :
    (s.withCurrent (s.current.emit op line)).chunk.code[s.size]? = some op := by
  change (s.chunk.emit op line).code[s.size]? = some op
  rw [Chunk.emit_code]
  exact Array.getElem?_push_size

/-- Patching a jump emits nothing. -/
theorem size_patchJump {j : Nat} {pos : Position} {u : Unit} (hr : Ran (patchJump j pos) t u t') :
    t'.size = t.size := by
  obtain ⟨c, hc, rfl⟩ := ran_patchJump.1 hr
  exact Chunk.patchJump?_size hc

/-- A patched jump lands where the code ends. -/
theorem ran_patchJump_code {j : Nat} {op : Op} {pos : Position} {u : Unit}
    (hr : Ran (patchJump j pos) t u t') (hop : t.chunk.code[j]? = some op)
    (hf : op.forwardDistance?.isSome = true) :
    ∃ d : UInt16, j + 1 + d.toNat = t.size ∧ t'.chunk.code[j]? = op.retarget? d := by
  obtain ⟨c', hc, rfl⟩ := ran_patchJump.1 hr
  obtain ⟨hd, -, -, hcode⟩ := Chunk.patchJump?_code hc
  have hjlt : j < t.size := (Array.getElem?_eq_some_iff.1 hop).1
  have hmod : (UInt16.ofNat (t.chunk.code.size - j - 1)).toNat = t.chunk.code.size - j - 1 :=
    toNat_word (Nat.lt_succ_of_le hd)
  refine ⟨UInt16.ofNat (t.chunk.code.size - j - 1), ?_, ?_⟩
  · rw [hmod]
    change j < t.chunk.code.size at hjlt
    change _ = t.chunk.code.size
    omega
  · obtain ⟨new, hnew, -⟩ := Op.retarget?_spec hf (UInt16.ofNat (t.chunk.code.size - j - 1))
    rw [hnew]
    change c'.code[j]? = some new
    rw [hcode, Array.getElem?_modify, if_pos rfl, hop, Option.map_some, hnew, Option.getD_some]

/-- Jumps of the run that are not recorded may be given distances. -/
theorem Emits.retarget (h : Emits s t bs cs) {js : List Nat} (hg : t.chunk.Grown js t'.chunk)
    (hl : t'.current.loops = t.current.loops) (hjs : ∀ j ∈ js, s.size ≤ j ∧ j ∉ bs ++ cs) :
    Emits s t' bs cs := by
  refine ⟨?_, hl.trans h.loops, ?_, h.empty, h.targeted, h.apart⟩
  · refine (h.grown.trans hg).narrow ?_
    intro i hi hlt
    exact absurd hlt (Nat.not_lt.2 (hjs i hi).1)
  · intro i hi
    refine ⟨(h.jump i hi).1, ?_⟩
    rw [hg.code i (h.lt_size hi) fun hmem => (hjs i hmem).2 hi]
    exact (h.jump i hi).2

/-- A jump of the run that is not recorded may be patched. -/
theorem Emits.patch (h : Emits s t bs cs) {j : Nat} {pos : Position} {u : Unit}
    (hr : Ran (patchJump j pos) t u t') (hj : s.size ≤ j) (hn : j ∉ bs ++ cs) :
    Emits s t' bs cs ∧ t.chunk.Grown [j] t'.chunk := by
  obtain ⟨c, hc, rfl⟩ := ran_patchJump.1 hr
  have hg : t.chunk.Grown [j] c := Chunk.grown_patchJump hc
  refine ⟨h.retarget hg rfl ?_, hg⟩
  intro i hi
  obtain rfl := List.mem_singleton.1 hi
  exact ⟨hj, hn⟩

/-- The run of a statement that sees the loops of the state before it as they were. -/
theorem Emits.congr (h : Emits s t bs cs) (hs : s'.chunk = s.chunk) (ht : t'.chunk = t.chunk)
    (hl : s'.current.loops = s.current.loops) (hl' : t'.current.loops = t.current.loops) :
    Emits s' t' bs cs where
  grown := by
    rw [hs, ht]
    exact h.grown
  loops := by rw [hl', hl, h.loops]
  jump j hj := by
    change s'.chunk.code.size ≤ j ∧ _
    rw [hs, ht]
    exact h.jump j hj
  empty := by
    rw [hl]
    exact h.empty
  targeted := by
    rw [hl]
    exact h.targeted
  apart := h.apart

end Emits

/-! ## Code that a later chunk has -/

/-- The chunk is complete in its lines, and has what a run emitted apart from jumps left open. -/
structure Fixed (c : Chunk) (s s' : CompilerState) (opens : List Nat) : Prop where
  /-- Every instruction has its line. -/
  full : c.lines.size = c.code.size
  /-- The chunk has grown from the code of the run. -/
  grown : ∃ js, s'.chunk.Grown js c ∧ ∀ j ∈ js, s.size ≤ j → j < s'.size → j ∈ opens

section Fixed

variable {c : Chunk} {s t r s' : CompilerState} {opens opens' : List Nat}

/-- An instruction of the run is in the code, unless it is a jump that is still open. -/
theorem Fixed.code (h : Fixed c s s' opens) {pc : Nat} {op : Op} (hpc : s.size ≤ pc)
    (hop : s'.chunk.code[pc]? = some op) (hn : pc ∉ opens) : c.code[pc]? = some op := by
  obtain ⟨js, hg, hjs⟩ := h.grown
  have hlt : pc < s'.size := (Array.getElem?_eq_some_iff.1 hop).1
  rw [hg.code pc hlt fun hmem => hn (hjs pc hmem hpc hlt), hop]

/-- A constant of the run is in the pool. -/
theorem Fixed.pool (h : Fixed c s s' opens) {i : Nat} {k : Constant}
    (hk : s'.chunk.constants[i]? = some k) : c.constants[i]? = some k := by
  obtain ⟨js, hg, -⟩ := h.grown
  exact hg.pool i k hk

/-- A chunk that has what a run emitted has what a part of the run emitted. -/
theorem Fixed.part (h : Fixed c s s' opens) {js : List Nat} (hg : t.chunk.Grown js s'.chunk)
    (hs : s.size ≤ r.size) (hjs : ∀ j ∈ js, r.size ≤ j → j < t.size → j ∈ opens')
    (ho : ∀ j ∈ opens, r.size ≤ j → j < t.size → j ∈ opens') : Fixed c r t opens' := by
  obtain ⟨ks, hg', hks⟩ := h.grown
  refine ⟨h.full, js ++ ks, hg.trans hg', ?_⟩
  intro j hj hr ht
  rcases List.mem_append.1 hj with hj | hj
  · exact hjs j hj hr ht
  · exact ho j (hks j hj (Nat.le_trans hs hr) (Nat.lt_of_lt_of_le ht hg.size)) hr ht

/-- A run one part of which records some jumps and the other part records others. -/
theorem Fixed.split {bs cs bs' cs' : List Nat} (h : Fixed c s s' ((bs ++ bs') ++ (cs ++ cs')))
    (a : Emits s t bs cs) (b : Emits t s' bs' cs') :
    Fixed c s t (bs ++ cs) ∧ Fixed c t s' (bs' ++ cs') := by
  refine ⟨h.part b.grown (Nat.le_refl _) nofun ?_, h.part (.refl _) a.size nofun ?_⟩
  · intro j hj _ hlt
    rcases mem_opens.1 hj with h | h
    · exact h
    · exact absurd (b.jump j h).1 (Nat.not_le.2 hlt)
  · intro j hj hle _
    rcases mem_opens.1 hj with h | h
    · exact absurd (a.lt_size h) (Nat.not_lt.2 hle)
    · exact h

/-- The instruction a run ends with is at its offset, with its line. -/
theorem Fixed.emitted {op : Op} {line : Nat}
    (h : Fixed c s (t.withCurrent (t.current.emit op line)) opens) (hst : s.size ≤ t.size)
    (hn : t.size ∉ opens) (hl : t.chunk.lines.size ≤ t.chunk.code.size) :
    c.code[t.size]? = some op ∧ c.lineAt? t.size = some (UInt32.ofNat line).toNat := by
  refine ⟨h.code hst (code_emit t op line) hn, ?_⟩
  obtain ⟨js, hg, -⟩ := h.grown
  have hcov := (t.chunk.grown_emit op line).covered hl
  obtain ⟨hs, hlines⟩ := hg.lines hcov h.full
  rw [hlines t.size (by rw [← CompilerState.size, size_emit]; omega)]
  exact Chunk.lineAt?_emit hl hs

/-- A jump that was patched where a run ends lands there. -/
theorem Fixed.patched {j : Nat} {op : Op} {pos : Position} {u : Unit} {t' : CompilerState}
    (h : Fixed c s t' opens) (hr : Ran (patchJump j pos) t u t') (hj : s.size ≤ j)
    (hop : t.chunk.code[j]? = some op) (hf : op.forwardDistance?.isSome = true)
    (hn : j ∉ opens) :
    ∃ d : UInt16, j + 1 + d.toNat = t.size ∧ c.code[j]? = op.retarget? d := by
  obtain ⟨d, hd, hcode⟩ := ran_patchJump_code hr hop hf
  obtain ⟨new, hnew, -⟩ := Op.retarget?_spec hf d
  rw [hnew] at hcode
  exact ⟨d, hd, (h.code hj hcode hn).trans hnew.symm⟩

end Fixed

end ScriptEngine.Compile
