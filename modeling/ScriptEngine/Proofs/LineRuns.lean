import Mathlib.Algebra.Group.Nat.Defs
import Mathlib.Data.List.Chain
import ScriptEngine.Proofs.Fixing

/-!
# Lines of instructions

A chunk under construction has its instructions and, run-length encoded, their lines. The two are
kept apart: a forward jump is patched in the code alone, and a constant enters neither. `Records`
says that a table stands for a list of lines in the shortest way, and `Attributed` that a chunk has
the instructions that were emitted, each with the line it was emitted with.

Counters of runs have thirty-two bits, so that all of this is about fewer than `2 ^ 32`
instructions. That the line of a faulting instruction reaches the stack trace is not treated here.
-/

namespace ScriptEngine.Bytecode

/-! ## Tables -/

namespace LineTable

variable {t : LineTable} {lines : List UInt32} {line : Nat}

/-- The lines of some runs, one for each instruction. -/
def expand (runs : List LineRun) : List Nat :=
  runs.flatMap fun run => List.replicate run.count.toNat run.line.toNat

/-- Runs put together list the lines of both. -/
theorem expand_append (xs ys : List LineRun) : expand (xs ++ ys) = expand xs ++ expand ys :=
  List.flatMap_append

/-- One run lists its line as often as it counts. -/
theorem expand_single (run : LineRun) :
    expand [run] = List.replicate run.count.toNat run.line.toNat := List.append_nil _

/-- Runs list as many lines as they cover. -/
theorem length_expand (runs : List LineRun) : (expand runs).length = covered runs := by
  induction runs with
  | nil => rfl
  | cons run runs ih =>
    have hcons : expand (run :: runs) = expand [run] ++ expand runs := expand_append [run] runs
    rw [hcons, expand_single, List.length_append, List.length_replicate, ih]
    rfl

/-- Looking an offset up among the runs is looking it up among the lines. -/
theorem lineIn_eq (runs : List LineRun) (i : Nat) : lineIn runs i = (expand runs)[i]? := by
  induction runs generalizing i with
  | nil => rfl
  | cons run runs ih =>
    have hcons : expand (run :: runs) = expand [run] ++ expand runs := expand_append [run] runs
    rw [hcons, expand_single, List.getElem?_append, List.length_replicate, lineIn, ih]
    split
    · next h => exact (List.getElem?_replicate_of_lt h).symm
    · rfl

/-- The line looked up for an instruction is the one listed at its index. -/
theorem lineAt?_eq (t : LineTable) (i : Nat) : t.lineAt? i = t.toList[i]? :=
  lineIn_eq t.runs.toList i

/-- The lines listed are as many as the size says. -/
theorem length_toList (t : LineTable) : t.toList.length = t.size := length_expand t.runs.toList

/-- One more line comes after the others. -/
theorem toList_push (h : t.size + 1 < 2 ^ 32) :
    (t.push line).toList = t.toList ++ [(UInt32.ofNat line).toNat] := by
  change expand (t.push line).runs.toList = expand t.runs.toList ++ _
  obtain ⟨runs, run, hruns, hline, hpush⟩ | ⟨-, hpush⟩ := t.push_cases line
  · have hcovered := size_of_runs hruns
    have hcount : (run.count + 1).toNat = run.count.toNat + 1 := toNat_count_succ (by omega)
    rw [hpush, hruns, expand_append, expand_append, expand_single, expand_single, hcount,
      List.replicate_succ', hline, List.append_assoc]
  · rw [hpush, expand_append, expand_single]
    rfl

/-- What a table stands for: a list of lines, in maximal runs. -/
structure Records (t : LineTable) (lines : List UInt32) : Prop where
  /-- There is a line for every instruction. -/
  size : t.size = lines.length
  /-- Adjacent runs differ in their lines. -/
  apart : t.runs.toList.IsChain fun run next => run.line ≠ next.line
  /-- No run is empty. -/
  counted : ∀ run ∈ t.runs, 0 < run.count
  /-- An instruction has its line, and where there is none, none is found. -/
  lineAt : ∀ i, t.lineAt? i = lines[i]?.map UInt32.toNat

/-- A table that records lines lists them. -/
theorem Records.toList (h : t.Records lines) : t.toList = lines.map UInt32.toNat := by
  refine List.ext_getElem? fun i => ?_
  rw [← lineAt?_eq, h.lineAt, List.getElem?_map]

theorem records_empty : empty.Records [] where
  size := rfl
  apart := .nil
  counted _ h := absurd h (Array.not_mem_empty _)
  lineAt _ := rfl

/-- One more line is recorded. -/
theorem Records.push (h : t.Records lines) (hlt : lines.length + 1 < 2 ^ 32) (line : Nat) :
    (t.push line).Records (lines ++ [UInt32.ofNat line]) := by
  have hroom : t.size + 1 < 2 ^ 32 := by rwa [h.size]
  have hlist : (t.push line).toList = (lines ++ [UInt32.ofNat line]).map UInt32.toNat := by
    rw [toList_push hroom, h.toList, List.map_append, List.map_singleton]
  have hsize : (t.push line).size = (lines ++ [UInt32.ofNat line]).length := by
    rw [← length_toList, hlist, List.length_map]
  have hlineAt : ∀ i, (t.push line).lineAt? i =
      (lines ++ [UInt32.ofNat line])[i]?.map UInt32.toNat := by
    intro i
    rw [lineAt?_eq, hlist, List.getElem?_map]
  have hcounted : ∀ run ∈ t.runs.toList, 0 < run.count := fun run hrun =>
    h.counted run (Array.mem_toList_iff.1 hrun)
  obtain ⟨runs, run, hruns, -, hpush⟩ | ⟨hnew, hpush⟩ := t.push_cases line
  · refine ⟨hsize, ?_, fun other hother => ?_, hlineAt⟩
    · -- The last run has the line it had.
      have hchain := h.apart
      rw [hruns, List.isChain_append] at hchain
      rw [hpush, List.isChain_append]
      refine ⟨hchain.1, .singleton _, fun before hbefore next hnext => ?_⟩
      cases hnext
      exact hchain.2.2 before hbefore run rfl
    · rw [← Array.mem_toList_iff, hpush, List.mem_append, List.mem_singleton] at hother
      obtain hold | rfl := hother
      · exact hcounted other (hruns ▸ List.mem_append_left _ hold)
      · have hcovered := size_of_runs hruns
        rw [UInt32.lt_iff_toNat_lt, toNat_count_succ (by omega)]
        exact Nat.succ_pos _
  · refine ⟨hsize, ?_, fun other hother => ?_, hlineAt⟩
    · rw [hpush, List.isChain_append]
      refine ⟨h.apart, .singleton _, fun run hrun next hnext => ?_⟩
      cases hnext
      exact hnew run hrun
    · rw [← Array.mem_toList_iff, hpush, List.mem_append, List.mem_singleton] at hother
      obtain hold | rfl := hother
      · exact hcounted other hold
      · exact Nat.one_pos

/-- A table that lines are pushed to one after another. -/
theorem Records.foldl {pushed : List Nat} (h : t.Records lines)
    (hlt : lines.length + pushed.length < 2 ^ 32) :
    (pushed.foldl LineTable.push t).Records (lines ++ pushed.map UInt32.ofNat) := by
  induction pushed generalizing t lines with
  | nil => simpa using h
  | cons line pushed ih =>
    rw [List.length_cons] at hlt
    have hstep := h.push (by omega) line
    have hrest := ih hstep (by rw [List.length_append, List.length_singleton]; omega)
    rwa [List.append_assoc, List.singleton_append] at hrest

end LineTable

/-! ## Code -/

/-- An instruction up to its distance, if it is a forward jump. -/
def Op.Aims (op op' : Op) : Prop := op' = op ∨ ∃ distance, op.retarget? distance = some op'

/-- A jump whose distance changes once more is still the jump it was. -/
theorem Op.Aims.retarget {op op' : Op} (h : op.Aims op') (distance : UInt16) :
    op.Aims ((op'.retarget? distance).getD op') := by
  obtain rfl | ⟨before, h⟩ := h
  · cases hr : op'.retarget? distance with
    | none => exact .inl rfl
    | some new => exact .inr ⟨distance, hr⟩
  · refine .inr ⟨distance, ?_⟩
    cases op <;> cases h <;> rfl

/-- Items that are related one by one still are when one on the right is changed so that it keeps
its relations. -/
theorem forall₂_modify {α β : Type} {r : α → β → Prop} {f : β → β} {xs : List α} {ys : List β}
    (h : List.Forall₂ r xs ys) (hf : ∀ x y, r x y → r x (f y)) (i : Nat) :
    List.Forall₂ r xs (ys.modify i f) := by
  induction h generalizing i with
  | nil =>
    rw [List.modify_nil]
    exact .nil
  | cons hxy hrest ih =>
    cases i with
    | zero => exact .cons (hf _ _ hxy) hrest
    | succ i => exact .cons hxy (ih i)

namespace Chunk

/-- A change to code under construction. -/
inductive Edit
  /-- An instruction is emitted for a source line. -/
  | emit (op : Op) (line : Nat)
  /-- A forward jump is patched. -/
  | patch (offset : Nat)
  /-- A constant is entered. -/
  | constant (c : Constant)

/-- The instruction a change emits, with the line as it is stored. -/
def Edit.emitted? : Edit → Option (Op × UInt32)
  | .emit op line => some (op, UInt32.ofNat line)
  | .patch _ | .constant _ => none

/-- The chunk after a change. One that is refused leaves the chunk as it is. -/
def edit (c : Chunk) : Edit → Chunk
  | .emit op line => c.emit op line
  | .patch offset => (c.patchJump? offset).getD c
  | .constant k => ((c.addConstant? k).map Prod.snd).getD c

variable {c : Chunk} {emitted : List (Op × UInt32)}

/-- A chunk has the instructions that were emitted, up to the distances of jumps, and their
lines. -/
structure Attributed (c : Chunk) (emitted : List (Op × UInt32)) : Prop where
  /-- The instructions are there, in order. -/
  code : List.Forall₂ (fun e op => e.1.Aims op) emitted c.code.toList
  /-- Their lines are recorded. -/
  lines : c.lines.Records (emitted.map Prod.snd)

/-- Every instruction has the line it was emitted with. -/
theorem Attributed.lineAt (h : c.Attributed emitted) (i : Nat) :
    c.lineAt? i = emitted[i]?.map fun e => e.2.toNat := by
  change c.lines.lineAt? i = _
  rw [h.lines.lineAt, List.getElem?_map, Option.map_map]
  rfl

theorem attributed_empty : empty.Attributed [] := ⟨.nil, LineTable.records_empty⟩

/-- What a change does to the instructions and their lines. -/
theorem Attributed.changed (h : c.Attributed emitted) (e : Edit)
    (hlt : (emitted ++ e.emitted?.toList).length < 2 ^ 32) :
    (c.edit e).Attributed (emitted ++ e.emitted?.toList) := by
  cases e with
  | emit op line =>
    have hroom : (emitted.map Prod.snd).length + 1 < 2 ^ 32 := by
      rw [List.length_map]
      exact (List.length_append ▸ hlt :)
    refine ⟨?_, ?_⟩
    · change List.Forall₂ _ _ (c.emit op line).code.toList
      rw [c.emit_code, Array.toList_push]
      exact List.rel_append h.code (.cons (.inl rfl) .nil)
    · change (c.emit op line).lines.Records _
      rw [c.emit_lines, List.map_append]
      exact h.lines.push hroom line
  | patch offset =>
    change ((c.patchJump? offset).getD c).Attributed (emitted ++ [])
    rw [List.append_nil]
    cases hp : c.patchJump? offset with
    | none => exact h
    | some patched =>
      obtain ⟨-, -, hlines, hcode⟩ := patchJump?_code hp
      refine ⟨?_, hlines ▸ h.lines⟩
      rw [Option.getD_some, hcode, Array.toList_modify]
      exact forall₂_modify h.code (fun _ _ haims => haims.retarget _) offset
  | constant k =>
    change (((c.addConstant? k).map Prod.snd).getD c).Attributed (emitted ++ [])
    rw [List.append_nil]
    cases hk : c.addConstant? k with
    | none => exact h
    | some entered =>
      obtain ⟨hcode, hlines, -⟩ := addConstant?_spec hk
      exact ⟨hcode ▸ h.code, hlines ▸ h.lines⟩

/-- A chunk that is built by changes one after another. -/
theorem Attributed.built {edits : List Edit} (h : c.Attributed emitted)
    (hlt : (emitted ++ edits.filterMap Edit.emitted?).length < 2 ^ 32) :
    (edits.foldl edit c).Attributed (emitted ++ edits.filterMap Edit.emitted?) := by
  induction edits generalizing c emitted with
  | nil =>
    rw [List.filterMap_nil, List.append_nil]
    exact h
  | cons e edits ih =>
    have hsplit : emitted ++ (e :: edits).filterMap Edit.emitted? =
        emitted ++ e.emitted?.toList ++ edits.filterMap Edit.emitted? := by
      rw [List.append_assoc, List.filterMap_cons]
      cases e.emitted? <;> rfl
    rw [hsplit] at hlt ⊢
    refine ih (h.changed e ?_) hlt
    rw [List.length_append] at hlt
    omega

/-- Lines are not lost in the encoding: a table that lines are pushed to stands for them, and a chunk
that is built by emitting instructions, patching jumps and entering constants in any order has every
instruction with the line it was emitted with. -/
theorem lines_kept (pushed : List Nat) (edits : List Edit) (hpushed : pushed.length < 2 ^ 32)
    (hedits : (edits.filterMap Edit.emitted?).length < 2 ^ 32) :
    let emitted := edits.filterMap Edit.emitted?
    let c := edits.foldl edit empty
    (pushed.foldl LineTable.push .empty).Records (pushed.map UInt32.ofNat) ∧ c.Attributed emitted ∧
      ∀ i, c.lineAt? i = emitted[i]?.map fun e => e.2.toNat := by
  intro emitted c
  have htable : (pushed.foldl LineTable.push .empty).Records ([] ++ pushed.map UInt32.ofNat) :=
    LineTable.records_empty.foldl (by rwa [List.length_nil, Nat.zero_add])
  have hchunk : c.Attributed ([] ++ emitted) :=
    attributed_empty.built (by rwa [List.nil_append])
  exact ⟨htable, hchunk, hchunk.lineAt⟩

/-- Runs of one line, and a jump that is patched after the lines have changed. -/
theorem lines_kept_patched :
    let edits : List Edit := [.emit .null 1, .emit (.jump 0) 1, .constant (.string "x"),
      .emit .pop 2, .patch 1, .emit .null 5, .emit .return 5]
    (edits.foldl edit empty).code = #[.null, .jump 1, .pop, .null, .return] ∧
      (edits.foldl edit empty).lines = ⟨#[⟨1, 2⟩, ⟨2, 1⟩, ⟨5, 2⟩]⟩ ∧
      ([1, 1, 2, 5, 5].foldl LineTable.push .empty).Records [1, 1, 2, 5, 5] ∧
      (edits.foldl edit empty).lineAt? 2 = some 2 ∧ (edits.foldl edit empty).lineAt? 5 = none := by
  intro edits
  obtain ⟨htable, -, hlines⟩ := lines_kept [1, 1, 2, 5, 5] edits (by decide) (by decide)
  exact ⟨by decide +kernel, by decide +kernel, htable, hlines 2, hlines 5⟩

end Chunk

end ScriptEngine.Bytecode
