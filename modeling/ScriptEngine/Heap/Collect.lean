import ScriptEngine.Heap.Basic

/-!
# Collecting garbage

A collection marks every object that can be reached from the roots along references, drops the
interned strings that are not marked from the set of interned strings, and frees every object that is
not marked. The marks of the others are cleared again. Roots may repeat and may be handles that are
not live.
-/

namespace ScriptEngine

/-- What one collection freed. -/
structure Collection where
  /-- Objects. -/
  freed : Nat
  /-- Interned strings among them. -/
  internedFreed : Nat
  deriving DecidableEq, Inhabited, Repr

namespace Heap

/-- The handles kept alive by the object of a slot. -/
def slotReferences (cells : Array (Option Cell)) (i : Nat) : Option (List Handle) :=
  (cells[i]?.join).map (·.object.references)

/-- Whether the object of a slot is marked. -/
def isMarked (cells : Array (Option Cell)) (i : Nat) : Bool := (cells[i]?.join).any (·.marked)

/-- Marks the object of a slot. -/
def setMark (cells : Array (Option Cell)) (i : Nat) : Array (Option Cell) :=
  cells.modify i (Option.map fun c => { c with marked := true })

/-- Marks from a worklist: a handle that is live and not marked yet is marked, and the handles it
keeps alive join the worklist. Takes at most `steps` handles from the worklist. -/
def markFrom : Nat → Array (Option Cell) → List Handle → Array (Option Cell)
  | 0, cells, _ => cells
  | _ + 1, cells, [] => cells
  | steps + 1, cells, h :: rest =>
    if isMarked cells h.index then markFrom steps cells rest
    else
      match slotReferences cells h.index with
      | none => markFrom steps cells rest
      | some refs => markFrom steps (setMark cells h.index) (refs ++ rest)

/-- No worklist gets longer than this in total: each object adds its references once. -/
def markSteps (cells : Array (Option Cell)) (roots : List Handle) : Nat :=
  cells.foldl (fun n c => n + (c.map (·.object.references.length)).getD 0) (roots.length + 1)

/-- The slots with the objects marked that are reached from the roots. -/
def mark (cells : Array (Option Cell)) (roots : List Handle) : Array (Option Cell) :=
  markFrom (markSteps cells roots) cells roots

/-- Whether a slot holds an object that is not marked. -/
def isGarbage (c : Option Cell) : Bool := c.any (!·.marked)

/-- The slots to be freed, in increasing order. -/
def garbage (cells : Array (Option Cell)) : List Nat :=
  (cells.toList.zipIdx.filter fun (c, _) => isGarbage c).map (·.2)

/-- What sweeping leaves of a slot: an object that is marked loses its mark, any other is freed. -/
def sweepCell : Option Cell → Option Cell
  | some c => if c.marked then some c.unmark else none
  | none => none

/-- The slots after sweeping. -/
def sweepCells (cells : Array (Option Cell)) : Array (Option Cell) :=
  ⟨cells.toList.map sweepCell⟩

/-- Sweeping treats every cell on its own. -/
theorem getElem?_sweepCells (cells : Array (Option Cell)) (i : Nat) :
    (sweepCells cells)[i]? = cells[i]?.map sweepCell := by
  simp [sweepCells]

/-- Sweeping clears all marks. -/
theorem clear_sweepCells (cells : Array (Option Cell)) : Cell.Clear (sweepCells cells) := by
  intro i c hc
  rw [getElem?_sweepCells] at hc
  obtain ⟨cell, -, hcell⟩ := Option.map_eq_some_iff.1 hc
  unfold sweepCell at hcell
  split at hcell
  · split at hcell
    · cases hcell
      rfl
    · cases hcell
  · cases hcell

/-- Frees every object that is not marked and clears the marks of the others. The freed slot of
greatest index is used next. `cells` are the slots of the heap, marked. -/
def sweep (heap : Heap) (cells : Array (Option Cell)) : Heap × Nat :=
  let dead := garbage cells
  let bytes := dead.foldl (fun n i => n + ((cells[i]?.join).map (·.bytes)).getD 0) 0
  ({ heap with
      cells := sweepCells cells
      free := dead.reverse ++ heap.free
      bytes := heap.bytes - bytes
      clear := clear_sweepCells cells }, dead.length)

/-- The bound for the next collection. -/
def nextBound (heap : Heap) : Nat :=
  let scaled := Number.ofFloat ((Number.ofNat heap.bytes).toFloat * heap.growRate.toFloat)
  max scaled.clampWord heap.firstThreshold

/-- Runs a collection from the given roots. -/
def collect (heap : Heap) (roots : List Handle) : Heap × Collection :=
  let cells := mark heap.cells roots
  let (strings, internedFreed) := heap.strings.retain fun h => isMarked cells h.index
  let (heap, freed) := { heap with strings := strings }.sweep cells
  let stats := heap.stats
  ({ heap with
      nextCollection := heap.nextBound
      stats :=
        { stats with
          collections := stats.collections + 1
          freed := stats.freed + freed
          internedFreed := stats.internedFreed + internedFreed } },
    ⟨freed, internedFreed⟩)

end Heap

end ScriptEngine
