import ScriptEngine.Proofs.Marking
import ScriptEngine.Proofs.NameMap

/-!
# Exactness of collections

`Made` lists the heaps that allocation, interning, changes in place and collections make from an
empty one, and `Tidy` is their invariant: the free list has the empty slots, each once, and the set
of interned strings has live handles only. `Exact` says what a collection does to such a heap: it
keeps the objects that can be reached from the roots, with their handles and contents, frees all
others, drops the freed ones from the set of interned strings, and leaves no mark behind.
-/

namespace ScriptEngine.Heap

open NameTable (Represents Map)

/-- The heaps that the operations make. Changes in place may do anything to the object of a slot. -/
inductive Made : Heap → Prop
  | create (firstThreshold : Nat) (growRate : Number) (maxBytes : Option Nat) :
    Made (create firstThreshold growRate maxBytes)
  | insert {heap : Heap} (o : Object) (hm : Made heap) : Made (heap.insert o).1
  | newString {heap : Heap} (data : ByteArray) (hm : Made heap) : Made (heap.newString data).1
  | intern {heap : Heap} (data : ByteArray) (hm : Made heap) : Made (heap.intern data).1
  | update {heap : Heap} (h : Handle) (f : Object → Object) (hm : Made heap) :
    Made (heap.update h f)
  | resize {heap : Heap} (h : Handle) (hm : Made heap) : Made (heap.resize h)
  | collect {heap : Heap} (roots : List Handle) (hm : Made heap) : Made (heap.collect roots).1

/-- The invariant of heaps. -/
structure Tidy (heap : Heap) : Prop where
  /-- No slot is listed as free twice. -/
  nodup : heap.free.Nodup
  /-- The free slots are the empty ones. -/
  free : ∀ {i : Nat}, i ∈ heap.free ↔ heap.cells[i]? = some none
  /-- The interned strings are a table of live handles. -/
  strings : ∃ (hashOf : Handle → UInt32) (m : Map), Represents hashOf heap.strings m ∧
    ∀ h, (m h).isSome → heap.isLive h = true

section Slots

variable {heap : Heap} {h : Handle} {i : Nat}

/-- A handle is live if its slot is taken. -/
theorem isLive_iff : heap.isLive h = true ↔ ∃ c, heap.cells[h.index]? = some (some c) := by
  unfold isLive get?
  cases heap.cells[h.index]? with
  | none => simp
  | some c => cases c <;> simp

/-- A handle is live if its slot has references, maybe none. -/
theorem isLive_iff_slotReferences :
    heap.isLive h = true ↔ (slotReferences heap.cells h.index).isSome := by
  unfold isLive get? slotReferences
  cases heap.cells[h.index]?.join <;> rfl

/-- What an object is depends on its slot alone. -/
theorem get?_congr {heap' : Heap} (hc : heap'.cells[h.index]? = heap.cells[h.index]?) :
    heap'.get? h = heap.get? h := by
  unfold get?
  rw [hc]

/-- Entries of the set of interned strings are live. -/
theorem Tidy.isLive_of_mem (ht : Tidy heap) {e : Key × Value} (he : e ∈ heap.strings.toList) :
    heap.isLive e.1.handle = true := by
  obtain ⟨hashOf, m, hr, hlive⟩ := ht.strings
  exact hlive _ (by rw [(hr.mem_toList.1 he).2]; rfl)

end Slots

/-! ## Allocation and changes in place -/

section Allocation

variable {heap : Heap}

/-- What an allocation does: it takes the first free slot, or a new one. -/
theorem insert_cases (heap : Heap) (o : Object) : ∃ c : Cell, c.object = o ∧
    ((∃ rest, heap.free = (heap.insert o).2.index :: rest ∧ (heap.insert o).1.free = rest ∧
        (heap.insert o).1.cells = heap.cells.setIfInBounds (heap.insert o).2.index (some c)) ∨
      (heap.free = [] ∧ (heap.insert o).1.free = [] ∧
        (heap.insert o).2.index = heap.cells.size ∧
        (heap.insert o).1.cells = heap.cells.push (some c))) := by
  obtain ⟨cells, free, strings, bytes, next, first, rate, limit, disabled, stats, clear⟩ := heap
  refine ⟨⟨o.estimatedBytes, o, false⟩, rfl, ?_⟩
  cases free with
  | nil => exact .inr ⟨rfl, rfl, rfl, rfl⟩
  | cons i rest => exact .inl ⟨rest, rfl, rfl, rfl⟩

@[simp] theorem insert_strings (heap : Heap) (o : Object) :
    (heap.insert o).1.strings = heap.strings := by
  obtain ⟨cells, free, strings, bytes, next, first, rate, limit, disabled, stats, clear⟩ := heap
  cases free <;> rfl

/-- The slot of a new object was empty or did not exist, and no other slot changes. -/
theorem Tidy.insert_cells (ht : Tidy heap) (o : Object) :
    heap.isLive (heap.insert o).2 = false ∧
      ∃ c : Cell, c.object = o ∧ ∀ i : Nat, (heap.insert o).1.cells[i]? =
        if i = (heap.insert o).2.index then some (some c) else heap.cells[i]? := by
  obtain ⟨c, hc, ⟨rest, hfree, -, hcells⟩ | ⟨-, -, hindex, hcells⟩⟩ := insert_cases heap o
  · have hempty : heap.cells[(heap.insert o).2.index]? = some none :=
      ht.free.1 (by rw [hfree]; exact List.mem_cons_self ..)
    refine ⟨?_, c, hc, ?_⟩
    · rw [Bool.eq_false_iff]
      intro hlive
      obtain ⟨c', hc'⟩ := isLive_iff.1 hlive
      rw [hempty] at hc'
      cases hc'
    · intro i
      rw [hcells, Array.getElem?_setIfInBounds]
      split
      · next heq => simp [← heq, (Array.getElem?_eq_some_iff.1 hempty).1]
      · next hne => rw [if_neg (Ne.symm hne)]
  · refine ⟨?_, c, hc, ?_⟩
    · rw [Bool.eq_false_iff]
      intro hlive
      obtain ⟨c', hc'⟩ := isLive_iff.1 hlive
      rw [hindex, Array.getElem?_eq_none_iff.2 (Nat.le_refl _)] at hc'
      cases hc'
    · intro i
      rw [hcells, hindex, Array.getElem?_push]

/-- An allocation keeps every object there was, and the new one is live. -/
theorem Tidy.isLive_insert (ht : Tidy heap) (o : Object) {h : Handle} :
    (heap.insert o).1.isLive h = true ↔ h = (heap.insert o).2 ∨ heap.isLive h = true := by
  obtain ⟨-, c, -, hcells⟩ := ht.insert_cells o
  rw [isLive_iff, isLive_iff, hcells]
  by_cases heq : h = (heap.insert o).2
  · simp [heq]
  · rw [if_neg fun hi => heq (congrArg Handle.mk hi)]
    simp [heq]

/-- A new object takes a slot of the free list, or a new one. -/
theorem Tidy.insert (ht : Tidy heap) (o : Object) : Tidy (heap.insert o).1 where
  nodup := by
    obtain ⟨c, -, ⟨rest, hfree, hrest, -⟩ | ⟨-, hnil, -, -⟩⟩ := insert_cases heap o
    · have := ht.nodup
      rw [hfree] at this
      rw [hrest]
      exact this.of_cons
    · rw [hnil]
      exact List.nodup_nil
  free := by
    intro i
    obtain ⟨-, c, -, hcells⟩ := ht.insert_cells o
    rw [hcells]
    obtain ⟨c', -, ⟨rest, hfree, hrest, -⟩ | ⟨hfree, hnil, hindex, -⟩⟩ := insert_cases heap o
    · have hnodup := ht.nodup
      rw [hfree, List.nodup_cons] at hnodup
      rw [hrest]
      split
      · next heq =>
        subst heq
        simpa using hnodup.1
      · next hne => rw [← ht.free, hfree, List.mem_cons, or_iff_right hne]
    · rw [hnil]
      have hnone := ht.free (i := i)
      rw [hfree] at hnone
      split
      · simp
      · exact hnone
  strings := by
    obtain ⟨hashOf, m, hr, hlive⟩ := ht.strings
    refine ⟨hashOf, m, by rwa [insert_strings], fun h hm => ?_⟩
    exact (ht.isLive_insert o).2 (.inr (hlive h hm))

/-- A change in place keeps slots empty or occupied as they were. -/
theorem Tidy.of_occupied {heap' : Heap} (ht : Tidy heap) (hfree : heap'.free = heap.free)
    (hstrings : heap'.strings = heap.strings)
    (hcells : ∀ i : Nat, ∃ g : Cell → Cell,
      heap'.cells[i]? = heap.cells[i]?.map fun c => c.map g) : Tidy heap' where
  nodup := hfree ▸ ht.nodup
  free := by
    intro i
    obtain ⟨g, hg⟩ := hcells i
    rw [hfree, ht.free, hg]
    cases heap.cells[i]? with
    | none => simp
    | some c => cases c <;> simp
  strings := by
    obtain ⟨hashOf, m, hr, hlive⟩ := ht.strings
    refine ⟨hashOf, m, hstrings ▸ hr, fun h hm => ?_⟩
    obtain ⟨c, hc⟩ := isLive_iff.1 (hlive h hm)
    obtain ⟨g, hg⟩ := hcells h.index
    exact isLive_iff.2 ⟨g c, by rw [hg, hc]; rfl⟩

/-- A change of one slot, seen from any slot. -/
theorem modify_eq_map {cells : Array (Option Cell)} {j i : Nat} (g : Cell → Cell) :
    ∃ g', (cells.modify j fun c => c.map g)[i]? = cells[i]?.map fun c => c.map g' := by
  rw [Array.getElem?_modify]
  split
  · exact ⟨g, rfl⟩
  · exact ⟨id, by simp⟩

/-- A change in place. -/
theorem Tidy.update (ht : Tidy heap) (h : Handle) (f : Object → Object) :
    Tidy (heap.update h f) := by
  obtain ⟨cells, free, strings, bytes, next, first, rate, limit, disabled, stats, clear⟩ := heap
  exact ht.of_occupied rfl rfl fun i => modify_eq_map _

/-- A new size. -/
theorem Tidy.resize (ht : Tidy heap) (h : Handle) : Tidy (heap.resize h) := by
  obtain ⟨cells, free, strings, bytes, next, first, rate, limit, disabled, stats, clear⟩ := heap
  unfold Heap.resize
  split
  next heq =>
    cases heq
    split
    · exact ht.of_occupied rfl rfl fun i => modify_eq_map _
    · exact ht

/-- A text is found, or made and entered. -/
theorem Tidy.intern (ht : Tidy heap) (data : ByteArray) : Tidy (heap.intern data).1 := by
  unfold Heap.intern
  simp only
  split
  · exact ht
  · generalize hnew : Object.string ⟨data, Text.fnv1a data, true⟩ = o
    have hinsert := ht.insert o
    refine ⟨hinsert.nodup, hinsert.free, ?_⟩
    obtain ⟨hashOf, m, hr, hlive⟩ := ht.strings
    let h := (heap.insert o).2
    let hashOf' : Handle → UInt32 := fun x => if x = h then Text.fnv1a data else hashOf x
    have hr' : Represents hashOf' heap.strings m := by
      refine hr.rehash fun x hx => if_neg ?_
      rintro rfl
      have hfresh := (ht.insert_cells o).1
      rw [hlive _ hx] at hfresh
      cases hfresh
    have hput := (hr'.put h .null).1
    have hkey : NameTable.keyWith hashOf' h = ⟨h, Text.fnv1a data⟩ := by
      simp [NameTable.keyWith, hashOf']
    rw [hkey] at hput
    refine ⟨hashOf', m.set h .null, by rw [insert_strings]; exact hput, fun x hx => ?_⟩
    change (heap.insert o).1.isLive x = true
    rw [ht.isLive_insert]
    by_cases heq : x = h
    · exact .inl heq
    · rw [NameTable.Map.set, if_neg heq] at hx
      exact .inr (hlive x hx)

end Allocation

/-! ## Collections -/

section Collection

variable {heap : Heap} {roots : List Handle} {h : Handle} {i : Nat}

/-- The slots a collection frees. -/
def dead (heap : Heap) (roots : List Handle) : List Nat := garbage (mark heap.cells roots)

/-- Collecting marks and sweeps. -/
theorem collect_cells : (heap.collect roots).1.cells = sweepCells (mark heap.cells roots) := rfl

/-- The slots that were swept become free. -/
theorem collect_free : (heap.collect roots).1.free = (heap.dead roots).reverse ++ heap.free := rfl

/-- Strings that were not marked are forgotten. -/
theorem collect_strings : (heap.collect roots).1.strings =
    (heap.strings.retain fun h => isMarked (mark heap.cells roots) h.index).1 := rfl

/-- What is counted. -/
theorem collect_counts : (heap.collect roots).2 = ⟨(heap.dead roots).length,
    (heap.strings.retain fun h => isMarked (mark heap.cells roots) h.index).2⟩ := rfl

/-- The live objects that get marked are those that are reached. -/
theorem isMarked_iff (hlive : heap.isLive h = true) :
    isMarked (mark heap.cells roots) h.index = true ↔ Reaches heap.cells roots h :=
  isMarked_mark heap.clear roots (isLive_iff_slotReferences.1 hlive)

/-- A slot is occupied while marking just in case it was before, and by the same object. -/
theorem getElem?_mark (heap : Heap) (roots : List Handle) (i : Nat) :
    (∃ c, (mark heap.cells roots)[i]? = some (some c) ∧
      heap.cells[i]? = some (some c.unmark)) ∨
    (mark heap.cells roots)[i]? = heap.cells[i]? ∧ heap.cells[i]?.join = none := by
  have hframe := unmark_mark heap.clear roots i
  rcases hc : (mark heap.cells roots)[i]? with _ | _ | c
  · rw [hc] at hframe
    exact .inr ⟨hframe, by rw [← hframe]; rfl⟩
  · rw [hc] at hframe
    exact .inr ⟨hframe, by rw [← hframe]; rfl⟩
  · rw [hc] at hframe
    exact .inl ⟨c, rfl, hframe.symm⟩

/-- The freed slots hold objects that are not reached. -/
theorem mem_dead :
    i ∈ heap.dead roots ↔ heap.isLive ⟨i⟩ = true ∧ ¬ Reaches heap.cells roots ⟨i⟩ := by
  have hgarbage : i ∈ heap.dead roots ↔
      ∃ c, (mark heap.cells roots)[i]? = some (some c) ∧ c.marked = false := by
    unfold dead garbage isGarbage
    simp only [List.mem_map, List.mem_filter, Prod.exists, exists_eq_right,
      List.mem_zipIdx_iff_getElem?, Array.getElem?_toList]
    constructor
    · rintro ⟨c, hc, hmark⟩
      cases c with
      | none => cases hmark
      | some c => exact ⟨c, hc, by simpa using hmark⟩
    · rintro ⟨c, hc, hmark⟩
      exact ⟨some c, hc, by simpa using hmark⟩
  rw [hgarbage]
  constructor
  · rintro ⟨c, hc, hmark⟩
    have hlive : heap.isLive ⟨i⟩ = true := by
      rcases getElem?_mark heap roots i with
        ⟨c', -, hcell⟩ | ⟨hsame, hnone⟩
      · exact isLive_iff.2 ⟨_, hcell⟩
      · rw [← hsame, hc] at hnone
        cases hnone
    refine ⟨hlive, fun hr => ?_⟩
    have hmarked := (isMarked_iff hlive).2 hr
    rw [isMarked, show (mark heap.cells roots)[(⟨i⟩ : Handle).index]? = _ from hc] at hmarked
    exact absurd (show c.marked = true from hmarked) (by rw [hmark]; decide)
  · rintro ⟨hlive, hr⟩
    obtain ⟨cell, hcell⟩ := isLive_iff.1 hlive
    rcases getElem?_mark heap roots i with ⟨c, hc, -⟩ | ⟨-, hnone⟩
    · refine ⟨c, hc, Bool.eq_false_iff.2 fun hmark => hr ((isMarked_iff hlive).1 ?_)⟩
      rw [isMarked, show (mark heap.cells roots)[(⟨i⟩ : Handle).index]? = _ from hc]
      exact hmark
    · rw [show heap.cells[i]? = _ from hcell] at hnone
      cases hnone

/-- No slot is swept twice. -/
theorem nodup_dead : (heap.dead roots).Nodup := by
  unfold dead garbage
  refine List.Nodup.sublist (List.filter_sublist.map _) ?_
  rw [List.zipIdx_map_snd]
  exact List.nodup_range'

/-- A slot is cleared if it is freed, and otherwise stays as it is: sweeping takes the mark away
again that its object was given. -/
theorem getElem?_collect : (heap.collect roots).1.cells[i]? =
    if i ∈ heap.dead roots then some none else heap.cells[i]? := by
  rw [collect_cells, getElem?_sweepCells]
  rcases getElem?_mark heap roots i with
    ⟨c, hc, hcell⟩ | ⟨hsame, hnone⟩
  · have hlive : heap.isLive ⟨i⟩ = true := isLive_iff.2 ⟨_, hcell⟩
    have hmarked : c.marked = true ↔ Reaches heap.cells roots ⟨i⟩ := by
      rw [← isMarked_iff hlive, isMarked, show (mark heap.cells roots)[(⟨i⟩ : Handle).index]? = _
        from hc]
      rfl
    rw [hc, hcell, Option.map_some, sweepCell]
    by_cases hr : Reaches heap.cells roots ⟨i⟩
    · rw [if_pos (hmarked.2 hr), if_neg fun hd => (mem_dead.1 hd).2 hr]
    · rw [if_neg fun hm => hr (hmarked.1 hm), if_pos (mem_dead.2 ⟨hlive, hr⟩)]
  · have hdead : i ∉ heap.dead roots := by
      intro hd
      obtain ⟨c, hc⟩ := isLive_iff.1 (mem_dead.1 hd).1
      rw [show heap.cells[i]? = _ from hc] at hnone
      cases hnone
    rw [hsame, if_neg hdead]
    rcases hc : heap.cells[i]? with _ | _ | c
    · rfl
    · rfl
    · rw [hc] at hnone
      cases hnone

/-- A collection keeps the objects that are reached. -/
theorem isLive_collect : (heap.collect roots).1.isLive h = true ↔
    heap.isLive h = true ∧ Reaches heap.cells roots h := by
  rw [isLive_iff, getElem?_collect]
  by_cases hd : h.index ∈ heap.dead roots
  · rw [if_pos hd]
    have := mem_dead.1 hd
    simp [this.2]
  · rw [if_neg hd, ← isLive_iff]
    refine ⟨fun hlive => ⟨hlive, ?_⟩, And.left⟩
    by_contra hr
    exact hd (mem_dead.2 ⟨hlive, hr⟩)

/-- Survivors keep their contents. -/
theorem get?_collect (hlive : (heap.collect roots).1.isLive h = true) :
    (heap.collect roots).1.get? h = heap.get? h := by
  refine get?_congr ?_
  rw [getElem?_collect, if_neg fun hd => (mem_dead.1 hd).2 (isLive_collect.1 hlive).2]

/-- What is left refers to what it referred to. -/
theorem slotReferences_collect (hlive : (heap.collect roots).1.isLive h = true) :
    slotReferences (heap.collect roots).1.cells h.index = slotReferences heap.cells h.index := by
  unfold slotReferences
  rw [getElem?_collect, if_neg fun hd => (mem_dead.1 hd).2 (isLive_collect.1 hlive).2]

/-- What was reached before a collection is reached after it: the way there leads over survivors. -/
theorem reaches_collect (hr : Reaches heap.cells roots h) :
    Reaches (heap.collect roots).1.cells roots h := by
  induction hr with
  | root hr => exact .root hr
  | step hr hrefs hmem ih =>
    have hlive : heap.isLive _ = true := isLive_iff_slotReferences.2 (by rw [hrefs]; rfl)
    exact ih.step ((slotReferences_collect (isLive_collect.2 ⟨hlive, hr⟩)).trans hrefs) hmem

/-- The survivors are marked again by a second collection. -/
theorem dead_collect : (heap.collect roots).1.dead roots = [] := by
  rw [List.eq_nil_iff_forall_not_mem]
  intro i hi
  obtain ⟨hlive, hr⟩ := mem_dead.1 hi
  exact hr (reaches_collect (isLive_collect.1 hlive).2)

/-- The interned strings that stay are those whose objects stay. -/
theorem Tidy.mem_strings_collect (ht : Tidy heap) {e : Key × Value} :
    e ∈ (heap.collect roots).1.strings.toList ↔
      e ∈ heap.strings.toList ∧ (heap.collect roots).1.isLive e.1.handle = true := by
  rw [collect_strings, NameTable.toList_retain, List.mem_filter]
  refine and_congr_right fun he => ?_
  have hlive := ht.isLive_of_mem he
  rw [isMarked_iff hlive, isLive_collect, and_iff_right hlive]

/-- The strings counted are those that were forgotten. -/
theorem Tidy.internedFreed_collect (ht : Tidy heap) : (heap.collect roots).2.internedFreed =
    heap.strings.toList.countP fun e => !(heap.collect roots).1.isLive e.1.handle := by
  rw [collect_counts, NameTable.retain_count]
  refine List.countP_congr fun e he => ?_
  have hlive := ht.isLive_of_mem he
  simp only [Bool.not_eq_true', Bool.eq_false_iff, ne_eq]
  rw [isMarked_iff hlive, isLive_collect, and_iff_right hlive]

/-- A collection. -/
theorem Tidy.collect (ht : Tidy heap) (roots : List Handle) : Tidy (heap.collect roots).1 where
  nodup := by
    rw [collect_free, List.nodup_append']
    refine ⟨List.nodup_reverse.2 nodup_dead, ht.nodup, ?_⟩
    intro i hd hfree
    obtain ⟨c, hc⟩ := isLive_iff.1 (mem_dead.1 (List.mem_reverse.1 hd)).1
    rw [ht.free.1 hfree] at hc
    cases hc
  free := by
    intro i
    rw [collect_free, getElem?_collect, List.mem_append, List.mem_reverse, ht.free]
    split <;> simp [*]
  strings := by
    obtain ⟨hashOf, m, hr, hlive⟩ := ht.strings
    refine ⟨hashOf, _, hr.retain _, fun h hm => ?_⟩
    rw [NameTable.Map.restrict] at hm
    split at hm
    · next hmark =>
      have hl := hlive h hm
      exact isLive_collect.2 ⟨hl, (isMarked_iff hl).1 hmark⟩
    · cases hm

/-- Every heap that the operations make is tidy. -/
theorem Made.tidy (hm : Made heap) : Tidy heap := by
  induction hm with
  | create firstThreshold growRate maxBytes =>
    refine ⟨List.nodup_nil, ?_, fun _ => 0, _, NameTable.represents_empty, nofun⟩
    intro i
    change i ∈ [] ↔ (#[] : Array (Option Cell))[i]? = some none
    simp
  | insert o _ ih => exact ih.insert o
  | newString data _ ih => exact ih.insert _
  | intern data _ ih => exact ih.intern data
  | update h f _ ih => exact ih.update h f
  | resize h _ ih => exact ih.resize h
  | collect roots _ ih => exact ih.collect roots

end Collection

/-- What a collection from some roots does to a heap. -/
structure Exact (heap : Heap) (roots : List Handle) : Prop where
  /-- A slot stays occupied just in case its object is reached from the roots. -/
  survivors : ∀ h, (heap.collect roots).1.isLive h = true ↔
    heap.isLive h = true ∧ Reaches heap.cells roots h
  /-- Survivors keep their contents, under their handles. -/
  contents : ∀ h, (heap.collect roots).1.isLive h = true →
    (heap.collect roots).1.get? h = heap.get? h
  /-- The free list has the empty slots, and each once. -/
  free : (heap.collect roots).1.free.Nodup ∧
    ∀ i, i ∈ (heap.collect roots).1.free ↔ (heap.collect roots).1.cells[i]? = some none
  /-- The objects freed are counted. -/
  freed : (heap.collect roots).2.freed =
    {h | heap.isLive h = true ∧ (heap.collect roots).1.isLive h = false}.ncard
  /-- The set of interned strings holds live handles and loses those of freed objects. -/
  interned : ∀ e, e ∈ heap.strings.toList → heap.isLive e.1.handle = true
  strings : ∀ e, e ∈ (heap.collect roots).1.strings.toList ↔
    e ∈ heap.strings.toList ∧ (heap.collect roots).1.isLive e.1.handle = true
  /-- The entries lost are counted. -/
  internedFreed : (heap.collect roots).2.internedFreed =
    heap.strings.toList.countP fun e => !(heap.collect roots).1.isLive e.1.handle
  /-- All marks are clear. -/
  unmarked : ∀ i, isMarked (heap.collect roots).1.cells i = false
  /-- A second collection finds nothing to free. -/
  again : ((heap.collect roots).1.collect roots).2 = ⟨0, 0⟩

/-- Every collection of a heap that was made is exact. -/
theorem Made.exact {heap : Heap} (hm : Made heap) (roots : List Handle) : Exact heap roots where
  survivors _ := isLive_collect
  contents _ := get?_collect
  free := ⟨(hm.tidy.collect roots).nodup, fun _ => (hm.tidy.collect roots).free⟩
  freed := by
    have hset : {h | heap.isLive h = true ∧ (heap.collect roots).1.isLive h = false} =
        (((heap.dead roots).map Handle.mk).toFinset : Set Handle) := by
      ext h
      simp only [Set.mem_ofPred_eq, List.coe_toFinset, List.mem_map, Bool.eq_false_iff, ne_eq,
        isLive_collect, not_and]
      constructor
      · rintro ⟨hlive, hr⟩
        exact ⟨h.index, mem_dead.2 ⟨hlive, hr hlive⟩, rfl⟩
      · rintro ⟨i, hi, rfl⟩
        exact ⟨(mem_dead.1 hi).1, fun _ => (mem_dead.1 hi).2⟩
    have hnodup : ((heap.dead roots).map Handle.mk).Nodup :=
      nodup_dead.map fun _ _ h => congrArg Handle.index h
    rw [hset, Set.ncard_coe_finset, List.toFinset_card_of_nodup hnodup, List.length_map,
      collect_counts]
  interned _ := hm.tidy.isLive_of_mem
  strings _ := hm.tidy.mem_strings_collect
  internedFreed := hm.tidy.internedFreed_collect
  unmarked := isMarked_of_clear (clear_sweepCells _)
  again := by
    have hcount : ((heap.collect roots).1.collect roots).2.internedFreed = 0 := by
      rw [(hm.tidy.collect roots).internedFreed_collect, List.countP_eq_zero]
      intro e he
      have hlive := (hm.tidy.mem_strings_collect.1 he).2
      have hagain := isLive_collect.2 ⟨hlive, reaches_collect (isLive_collect.1 hlive).2⟩
      simp [hagain]
    have hfreed : ((heap.collect roots).1.collect roots).2.freed = 0 := by
      rw [collect_counts, dead_collect]
      rfl
    generalize ((heap.collect roots).1.collect roots).2 = again at *
    cases again
    simp_all

/-- Collections are exact: whatever was done to a heap, a collection from any roots keeps what is
reached and frees the rest, and a new object is never given the handle of a live one. -/
theorem Made.collect_exact {heap : Heap} (hm : Made heap) :
    (∀ roots, Exact heap roots) ∧ ∀ o, heap.isLive (heap.insert o).2 = false :=
  ⟨hm.exact, fun o => (hm.tidy.insert_cells o).1⟩

/-- A list that holds itself and an interned string, next to an interned string and a list that
nobody holds. -/
def crowdedHeap : Heap :=
  (((((create 0 .zero none).intern ⟨#[1]⟩).1.intern ⟨#[2]⟩).1.insert (.list #[])).1.insert
    (.list #[.object ⟨2⟩])).1.update ⟨2⟩ fun _ => .list #[.object ⟨0⟩, .object ⟨2⟩]

/-- How the heap was made. -/
theorem made_crowdedHeap : Made crowdedHeap :=
  ((((Made.create 0 .zero none).intern ⟨#[1]⟩).intern ⟨#[2]⟩).insert (.list #[])).insert
    (.list #[.object ⟨2⟩]) |>.update ⟨2⟩ fun _ => .list #[.object ⟨0⟩, .object ⟨2⟩]

/-- A collection from a root that is named twice, and one that is not live. -/
theorem exact_crowdedHeap :
    (crowdedHeap.collect [⟨2⟩, ⟨9⟩, ⟨2⟩]).2 = ⟨2, 1⟩ ∧ Exact crowdedHeap [⟨2⟩, ⟨9⟩, ⟨2⟩] ∧
      crowdedHeap.isLive (crowdedHeap.insert (.list #[])).2 = false :=
  ⟨by decide +kernel, made_crowdedHeap.collect_exact.1 _, made_crowdedHeap.collect_exact.2 _⟩

end ScriptEngine.Heap
