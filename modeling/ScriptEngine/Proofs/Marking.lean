import Mathlib.Algebra.Order.BigOperators.Group.Finset
import Mathlib.Algebra.Ring.Nat
import Mathlib.Tactic.Common
import ScriptEngine.Heap.Collect

/-!
# Marking

Marking from a worklist finds just the objects that can be reached from the roots. The argument has
three parts: what is marked is reached, the bound on the steps suffices because every object adds
its references to the worklist once, and when the worklist is empty the marks are closed under
references, so that nothing that is reached is left out.
-/

namespace ScriptEngine.Heap

/-- Handles that can be reached from the roots along the references of objects. -/
inductive Reaches (cells : Array (Option Cell)) (roots : List Handle) : Handle → Prop
  | root {h : Handle} (hr : h ∈ roots) : Reaches cells roots h
  | step {h h' : Handle} {refs : List Handle} (hr : Reaches cells roots h)
    (hrefs : slotReferences cells h.index = some refs) (hmem : h' ∈ refs) : Reaches cells roots h'

/-- Marking under way: the slots as they were and as marked so far, and the handles still to be
looked at. -/
structure Underway (before cells : Array (Option Cell)) (roots work : List Handle) : Prop where
  /-- Nothing but marks changes. -/
  frame : ∀ i : Nat, cells[i]?.map (Option.map Cell.unmark) = before[i]?
  /-- What is marked is reached. -/
  sound : ∀ {i : Nat}, isMarked cells i = true → Reaches before roots ⟨i⟩
  /-- What is to be looked at is reached. -/
  pending : ∀ {h : Handle}, h ∈ work → Reaches before roots h
  /-- Roots that hold objects are marked or to be looked at. -/
  started : ∀ {h : Handle}, h ∈ roots → (slotReferences before h.index).isSome →
    isMarked cells h.index = true ∨ h ∈ work
  /-- So are the references of marked objects. -/
  closed : ∀ {i : Nat} {refs : List Handle} {h : Handle}, isMarked cells i = true →
    slotReferences before i = some refs → h ∈ refs → (slotReferences before h.index).isSome →
      isMarked cells h.index = true ∨ h ∈ work

section Marking

variable {before cells : Array (Option Cell)} {roots work rest refs : List Handle} {h : Handle}
variable {i j : Nat}

/-- Only a cell of the arena has references. -/
theorem lt_size_of_slotReferences (hs : slotReferences cells i = some refs) : i < cells.size := by
  unfold slotReferences at hs
  by_contra hn
  rw [Array.getElem?_eq_none_iff.2 (by omega)] at hs
  cases hs

/-! ### One mark -/

@[simp] theorem size_setMark (cells : Array (Option Cell)) (i : Nat) :
    (setMark cells i).size = cells.size := Array.size_modify

/-- Setting a mark changes that cell alone. -/
theorem getElem?_setMark : (setMark cells j)[i]? =
    if j = i then cells[i]?.map (Option.map fun c => { c with marked := true }) else cells[i]? :=
  Array.getElem?_modify

/-- A mark changes no references. -/
@[simp] theorem slotReferences_setMark (cells : Array (Option Cell)) (j i : Nat) :
    slotReferences (setMark cells j) i = slotReferences cells i := by
  unfold slotReferences
  rw [getElem?_setMark]
  split
  · cases cells[i]? with
    | none => rfl
    | some c => cases c <;> rfl
  · rfl

/-- The slot of an object gets marked, and no other slot does. -/
theorem isMarked_setMark (hrefs : slotReferences cells j = some refs) :
    isMarked (setMark cells j) i = true ↔ i = j ∨ isMarked cells i = true := by
  unfold isMarked
  rw [getElem?_setMark]
  split
  · next heq =>
    subst heq
    unfold slotReferences at hrefs
    cases hc : cells[j]? with
    | none =>
      rw [hc] at hrefs
      cases hrefs
    | some c => cases c <;> simp_all
  · next hne => simp [Ne.symm hne]

/-- Setting a mark changes nothing but marks. -/
theorem unmark_setMark : (setMark cells j)[i]?.map (Option.map Cell.unmark) =
    cells[i]?.map (Option.map Cell.unmark) := by
  rw [getElem?_setMark]
  split
  · cases cells[i]? with
    | none => rfl
    | some c => cases c <;> rfl
  · rfl

/-! ### Many marks -/

/-- While marking is underway, references are those from before. -/
theorem Underway.slotReferences_eq (hu : Underway before cells roots work) (i : Nat) :
    slotReferences cells i = slotReferences before i := by
  unfold slotReferences
  rw [← hu.frame]
  cases cells[i]? with
  | none => rfl
  | some c => cases c <;> rfl

/-- A handle that is marked already, or holds no object, is passed over. -/
theorem Underway.skip (hu : Underway before cells roots (h :: rest))
    (hskip : (slotReferences before h.index).isSome → isMarked cells h.index = true) :
    Underway before cells roots rest where
  frame := hu.frame
  sound := hu.sound
  pending hmem := hu.pending (List.mem_cons_of_mem _ hmem)
  started hr hs := by
    rcases hu.started hr hs with hm | hw
    · exact .inl hm
    · rcases List.mem_cons.1 hw with rfl | hw
      · exact .inl (hskip hs)
      · exact .inr hw
  closed hm hrefs hmem hs := by
    rcases hu.closed hm hrefs hmem hs with hm | hw
    · exact .inl hm
    · rcases List.mem_cons.1 hw with rfl | hw
      · exact .inl (hskip hs)
      · exact .inr hw

/-- A handle that holds an object is marked, and its references are to be looked at. -/
theorem Underway.mark (hu : Underway before cells roots (h :: rest))
    (hrefs : slotReferences cells h.index = some refs) :
    Underway before (setMark cells h.index) roots (refs ++ rest) := by
  have hh : Reaches before roots h := hu.pending (List.mem_cons_self ..)
  have hmoved : ∀ {x : Handle}, isMarked cells x.index = true ∨ x ∈ h :: rest →
      isMarked (setMark cells h.index) x.index = true ∨ x ∈ refs ++ rest := by
    rintro x (hm | hw)
    · exact .inl ((isMarked_setMark hrefs).2 (.inr hm))
    · rcases List.mem_cons.1 hw with rfl | hw
      · exact .inl ((isMarked_setMark hrefs).2 (.inl rfl))
      · exact .inr (List.mem_append_right _ hw)
  refine ⟨fun i => unmark_setMark.trans (hu.frame i), ?_, ?_, ?_, ?_⟩
  · intro i hi
    rcases (isMarked_setMark hrefs).1 hi with rfl | hi
    · exact hh
    · exact hu.sound hi
  · intro x hx
    rcases List.mem_append.1 hx with hx | hx
    · exact hh.step ((hu.slotReferences_eq _).symm.trans hrefs) hx
    · exact hu.pending (List.mem_cons_of_mem _ hx)
  · exact fun hr hs => hmoved (hu.started hr hs)
  · intro i refs' x hi hrefs' hx hs
    rcases (isMarked_setMark hrefs).1 hi with rfl | hi
    · rw [← hu.slotReferences_eq, hrefs] at hrefs'
      cases hrefs'
      exact .inr (List.mem_append_left _ hx)
    · exact hmoved (hu.closed hi hrefs' hx hs)

/-- References of the objects that are not marked. -/
def unmarkedReferences (cells : Array (Option Cell)) : Nat :=
  ∑ i ∈ Finset.range cells.size,
    if isMarked cells i then 0 else ((slotReferences cells i).map List.length).getD 0

/-- Marking an object takes its references out of the sum. -/
theorem unmarkedReferences_setMark (hrefs : slotReferences cells j = some refs)
    (hm : isMarked cells j = false) :
    unmarkedReferences (setMark cells j) + refs.length = unmarkedReferences cells := by
  have hmem : j ∈ Finset.range cells.size := Finset.mem_range.2 (lt_size_of_slotReferences hrefs)
  have hothers : ∀ i ∈ (Finset.range cells.size).erase j,
      isMarked (setMark cells j) i = isMarked cells i := by
    intro i hi
    rw [Bool.eq_iff_iff, isMarked_setMark hrefs, or_iff_right (Finset.ne_of_mem_erase hi)]
  unfold unmarkedReferences
  simp only [size_setMark, slotReferences_setMark]
  rw [← Finset.add_sum_erase _ _ hmem, ← Finset.add_sum_erase _ _ hmem, hm, hrefs,
    (isMarked_setMark hrefs).2 (.inl rfl), Finset.sum_congr rfl fun i hi => by rw [hothers i hi]]
  simp
  omega

/-- Marking with enough steps ends with an empty worklist. -/
theorem Underway.finish {steps : Nat} (hu : Underway before cells roots work)
    (hsteps : work.length + unmarkedReferences cells < steps) :
    Underway before (markFrom steps cells work) roots [] := by
  induction steps generalizing cells work with
  | zero => omega
  | succ steps ih =>
    cases work with
    | nil => exact hu
    | cons h rest =>
      rw [List.length_cons] at hsteps
      rw [markFrom]
      by_cases hm : isMarked cells h.index = true
      · rw [if_pos hm]
        exact ih (hu.skip fun _ => hm) (by omega)
      rw [if_neg hm]
      cases hrefs : slotReferences cells h.index with
      | none =>
        refine ih (hu.skip ?_) (by omega)
        rw [← hu.slotReferences_eq, hrefs]
        nofun
      | some refs =>
        refine ih (hu.mark hrefs) ?_
        have := unmarkedReferences_setMark hrefs (Bool.eq_false_iff.2 hm)
        rw [List.length_append]
        omega

/-- The references of all objects, summed over the list of slots. -/
theorem sum_slotReferences (cells : Array (Option Cell)) :
    ∑ i ∈ Finset.range cells.size, ((slotReferences cells i).map List.length).getD 0 =
      (cells.toList.map fun c => (c.map (·.object.references.length)).getD 0).sum := by
  unfold slotReferences
  simp only [← Array.getElem?_toList, ← Array.length_toList]
  induction cells.toList with
  | nil => rfl
  | cons c rest ih =>
    rw [List.length_cons, Finset.sum_range_succ', List.map_cons, List.sum_cons, Nat.add_comm]
    simp only [List.getElem?_cons_succ, List.getElem?_cons_zero]
    rw [ih]
    cases c <;> rfl

/-- The steps allowed for marking exceed the roots and all references together. -/
theorem markSteps_eq (cells : Array (Option Cell)) (roots : List Handle) :
    markSteps cells roots = roots.length + 1 +
      ∑ i ∈ Finset.range cells.size, ((slotReferences cells i).map List.length).getD 0 := by
  have hfold : ∀ (l : List (Option Cell)) (n : Nat),
      l.foldl (fun n c => n + (c.map (·.object.references.length)).getD 0) n =
        n + (l.map fun c => (c.map (·.object.references.length)).getD 0).sum := by
    intro l
    induction l with
    | nil => exact fun _ => rfl
    | cons c rest ih =>
      intro n
      rw [List.foldl_cons, ih, List.map_cons, List.sum_cons, Nat.add_assoc]
  rw [sum_slotReferences, markSteps, ← Array.foldl_toList, hfold]

/-- Before a collection no object is marked. -/
theorem isMarked_of_clear (clear : Cell.Clear cells) (i : Nat) : isMarked cells i = false := by
  unfold isMarked
  cases hc : cells[i]? with
  | none => rfl
  | some c =>
    cases c with
    | none => rfl
    | some c => exact clear i c hc

/-- Marking from the roots of slots without marks is finished when it stops. -/
theorem underway_mark (clear : Cell.Clear cells) (roots : List Handle) :
    Underway cells (mark cells roots) roots [] := by
  have hnone : ∀ {i : Nat}, isMarked cells i ≠ true :=
    fun {i} => Bool.eq_false_iff.1 (isMarked_of_clear clear i)
  have hstart : Underway cells cells roots roots :=
    { frame := fun i => by
        cases hc : cells[i]? with
        | none => rfl
        | some c =>
          cases c with
          | none => rfl
          | some c =>
            have hclear : c.marked = false := clear i c hc
            obtain ⟨bytes, object, marked⟩ := c
            cases hclear
            rfl
      sound := fun h => absurd h hnone
      pending := .root
      started := fun h _ => .inr h
      closed := fun h => absurd h hnone }
  refine hstart.finish ?_
  rw [markSteps_eq]
  have hle : unmarkedReferences cells ≤
      ∑ j ∈ Finset.range cells.size, ((slotReferences cells j).map List.length).getD 0 := by
    refine Finset.sum_le_sum fun j _ => ?_
    split
    · exact Nat.zero_le _
    · exact Nat.le_refl _
  omega

/-- Marking changes nothing but marks. -/
theorem unmark_mark (clear : Cell.Clear cells) (roots : List Handle) (i : Nat) :
    (mark cells roots)[i]?.map (Option.map Cell.unmark) = cells[i]? :=
  (underway_mark clear roots).frame i

/-- The objects that are marked are those that are reached. -/
theorem isMarked_mark (clear : Cell.Clear cells) (roots : List Handle)
    (hi : (slotReferences cells i).isSome) :
    isMarked (mark cells roots) i = true ↔ Reaches cells roots ⟨i⟩ := by
  have hfinished := underway_mark clear roots
  constructor
  · exact hfinished.sound
  · -- the marks contain the roots and are closed under references
    have hall : ∀ {h : Handle}, Reaches cells roots h →
        (slotReferences cells h.index).isSome → isMarked (mark cells roots) h.index = true := by
      intro h hr
      induction hr with
      | root hr => exact fun hs => (hfinished.started hr hs).resolve_right List.not_mem_nil
      | step _ hrefs hmem ih =>
        intro hs
        have hmarked := ih (by rw [hrefs]; rfl)
        exact (hfinished.closed hmarked hrefs hmem hs).resolve_right List.not_mem_nil
    exact fun hr => hall hr hi

end Marking

end ScriptEngine.Heap
