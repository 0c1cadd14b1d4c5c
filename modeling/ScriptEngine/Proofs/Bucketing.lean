import Mathlib.Data.List.Basic
import ScriptEngine.Heap.ValueTable

/-!
# Entries of tables and their buckets

The bucket of a hash lists the positions of its entries in order. Overwriting a value changes no
position, a new entry takes the position after all others, and a removed one leaves a hole, so that
the positions of the others stay. Compaction numbers all entries anew and makes new buckets.
-/

namespace ScriptEngine

namespace ValueTable

/-- Whether a position holds an entry of a hash. -/
def hasHash (hash : UInt64) (cell : Option Entry) : Bool := cell.any (·.hash == hash)

/-- Buckets list the positions of their entries, and the entries are counted. -/
structure Sound (t : ValueTable) : Prop where
  live : t.live = t.toList.length
  buckets : ∀ hash, t.candidates hash = t.entries.toList.findIdxs (hasHash hash)

variable {t : ValueTable} {before after : List (Option Entry)} {e : Entry}

theorem sound_empty : empty.Sound := ⟨rfl, fun _ => by simp [candidates, empty]⟩

/-- The entry at a position is the cell with that many cells before it. -/
theorem entryAt?_append {cell : Option Entry} (h : t.entries.toList = before ++ cell :: after) :
    t.entryAt? before.length = cell := by
  unfold entryAt?
  rw [← Array.getElem?_toList, h]
  simp

/-! ## Overwriting -/

/-- Overwriting a value changes that entry alone. -/
theorem entries_setValue (h : t.entries.toList = before ++ some e :: after) (value : Value) :
    (t.setValue before.length value).entries.toList =
      before ++ some { e with value := value } :: after := by
  unfold setValue
  rw [Array.toList_modify, h]
  simp [List.modify_eq_set_getElem?]

/-- Overwriting a value keeps a table sound. -/
theorem Sound.setValue (hs : t.Sound) (h : t.entries.toList = before ++ some e :: after)
    (value : Value) : (t.setValue before.length value).Sound := by
  have hentries := entries_setValue h value
  refine ⟨?_, fun hash => ?_⟩
  · have hlive : (t.setValue before.length value).live = _ := hs.live
    rw [hlive, toList, toList, h, hentries]
    simp
  · have hbucket := hs.buckets hash
    rw [h] at hbucket
    rw [hentries]
    refine hbucket.trans ?_
    simp [List.findIdxs_append, hasHash]

/-! ## New entries -/

/-- A new entry comes after all others. -/
theorem entries_insertNew (t : ValueTable) (hash : UInt64) (key value : Value) :
    (t.insertNew hash key value).entries.toList =
      t.entries.toList ++ [some ⟨hash, key, value⟩] := by
  simp [insertNew]

/-- A new entry keeps a table sound. -/
theorem Sound.insertNew (hs : t.Sound) (hash : UInt64) (key value : Value) :
    (t.insertNew hash key value).Sound := by
  have hentries := entries_insertNew t hash key value
  refine ⟨?_, fun hash' => ?_⟩
  · have hlive := hs.live
    unfold toList at hlive ⊢
    rw [hentries]
    simpa [ValueTable.insertNew] using hlive
  · have hbucket : t.buckets.getD hash' [] = _ := hs.buckets hash'
    rw [hentries, List.findIdxs_append, ← hbucket]
    unfold candidates ValueTable.insertNew
    dsimp only
    rw [Std.HashMap.getD_insert]
    by_cases heq : hash = hash'
    · subst heq
      simp [hasHash]
    · simp [hasHash, heq]

/-- Compaction closes the holes. -/
theorem entries_compact (t : ValueTable) : t.compact.entries.toList = t.toList.map some ∧
    t.compact.Sound := by
  have hfold : ∀ (es : List Entry) (u : ValueTable), u.Sound →
      let v := es.foldl (fun t e => t.insertNew e.hash e.key e.value) u
      v.entries.toList = u.entries.toList ++ es.map some ∧ v.Sound := by
    intro es
    induction es with
    | nil => exact fun u hu => ⟨by simp, hu⟩
    | cons e es ih =>
      intro u hu
      obtain ⟨hentries, hsound⟩ := ih _ (hu.insertNew e.hash e.key e.value)
      refine ⟨hentries.trans ?_, hsound⟩
      rw [entries_insertNew]
      simp
  obtain ⟨hentries, hsound⟩ := hfold t.toList empty sound_empty
  exact ⟨hentries.trans (by simp [empty]), hsound⟩

/-! ## Removal -/

/-- Dropping a position takes it from the bucket of its hash and from no other. -/
theorem getD_dropFromBucket (buckets : Std.HashMap UInt64 (List Nat)) (hash hash' : UInt64)
    (position : Nat) :
    (dropFromBucket buckets hash position).getD hash' [] =
      if hash = hash' then (buckets.getD hash []).filter (· != position)
      else buckets.getD hash' [] := by
  unfold dropFromBucket
  split
  · next h => rw [Std.HashMap.getD_erase]; simp [h]
  · next rest h => rw [Std.HashMap.getD_insert]; simp

/-- The positions that remain once an entry is gone. -/
theorem findIdxs_hole (before after : List (Option Entry)) (e : Entry) (hash : UInt64) :
    (before ++ none :: after).findIdxs (hasHash hash) =
      ((before ++ some e :: after).findIdxs (hasHash hash)).filter (· != before.length) := by
  have hbefore : (before.findIdxs (hasHash hash)).filter (· != before.length) =
      before.findIdxs (hasHash hash) := by
    refine List.filter_eq_self.2 fun p hp => ?_
    have hlt := List.lt_add_of_mem_findIdxs p hp
    simpa using Nat.ne_of_lt hlt
  have hafter : (after.findIdxs (hasHash hash) (before.length + 1)).filter (· != before.length) =
      after.findIdxs (hasHash hash) (before.length + 1) := by
    refine List.filter_eq_self.2 fun p hp => ?_
    have hge := List.ge_of_mem_findIdxs p hp
    simpa using Nat.ne_of_gt hge
  rw [List.findIdxs_append, List.findIdxs_append, List.filter_append, hbefore, Nat.zero_add,
    List.findIdxs_cons, List.findIdxs_cons]
  refine congrArg _ ?_
  by_cases hh : hasHash hash (some e) = true
  · rw [if_pos hh, List.filter_cons_of_neg (by simp), hafter]
    simp [hasHash]
  · rw [if_neg hh, hafter]
    simp [hasHash]

/-- A removed entry leaves a hole, or else the table is compacted. -/
theorem remove_eq (hs : t.Sound) (h : t.entries.toList = before ++ some e :: after) :
    (t.remove before.length).1.Sound ∧
      ((t.remove before.length).1.entries.toList = before ++ none :: after ∨
        (t.remove before.length).1.entries.toList = ((before ++ after).filterMap id).map some) := by
  have hentry := entryAt?_append h
  unfold remove
  rw [hentry]
  dsimp only
  generalize hu : (⟨t.entries.setIfInBounds before.length none,
    dropFromBucket t.buckets e.hash before.length, t.live - 1⟩ : ValueTable) = u
  have hentries : u.entries.toList = before ++ none :: after := by
    rw [← hu]
    simp [h]
  have hsound : u.Sound := by
    refine ⟨?_, fun hash => ?_⟩
    · have hlive := hs.live
      unfold toList at hlive ⊢
      rw [h] at hlive
      rw [hentries, ← hu]
      simp at hlive ⊢
      omega
    · have hbucket : t.buckets.getD hash [] = _ := hs.buckets hash
      have hsame : u.candidates hash = if e.hash = hash then
          (t.buckets.getD e.hash []).filter (· != before.length) else t.buckets.getD hash [] := by
        rw [← hu]
        exact getD_dropFromBucket _ _ _ _
      rw [hsame, hentries]
      split
      · next heq =>
        rw [findIdxs_hole before after e, ← h, heq, hbucket]
      · next hne =>
        rw [hbucket, h]
        simp [List.findIdxs_append, hasHash, hne]
  split
  · obtain ⟨hcompact, hsound'⟩ := entries_compact u
    refine ⟨hsound', .inr ?_⟩
    rw [hcompact, toList, hentries]
    simp
  · exact ⟨hsound, .inl hentries⟩

/-! ## Iteration -/

/-- An iteration passes over holes, one at a step. -/
theorem scan_holes {holes rest : List (Option Entry)} (hholes : ∀ cell ∈ holes, cell = none)
    (h : t.entries.toList = before ++ (holes ++ rest)) (steps : Nat) :
    t.scan (holes.length + steps) before.length = t.scan steps (before.length + holes.length) := by
  induction holes generalizing before with
  | nil => simp
  | cons cell holes ih =>
    obtain ⟨rfl, hrest⟩ := List.forall_mem_cons.1 hholes
    have hnext := @ih (before ++ [none]) hrest (by simp [h])
    rw [List.length_cons, show holes.length + 1 + steps = holes.length + steps + 1 by omega, scan,
      entryAt?_append h]
    simpa [Nat.add_assoc, Nat.add_comm 1] using hnext

/-- After the last entry there is no next one. -/
theorem nextFrom_of_holes {holes : List (Option Entry)} (hholes : ∀ cell ∈ holes, cell = none)
    (h : t.entries.toList = before ++ holes) : t.nextFrom before.length = none := by
  have hsize : t.entries.size = before.length + holes.length := by
    rw [← Array.length_toList, h, List.length_append]
  have hscan := @scan_holes _ before holes [] hholes (by simpa using h) 0
  unfold nextFrom
  rw [hsize, Nat.add_sub_cancel_left]
  exact hscan

/-- The next entry is the first one that is no hole. -/
theorem nextFrom_append {holes : List (Option Entry)} (hholes : ∀ cell ∈ holes, cell = none)
    (h : t.entries.toList = before ++ (holes ++ some e :: after)) :
    t.nextFrom before.length = some (before.length + holes.length) := by
  have hsize : t.entries.size = before.length + (holes.length + (after.length + 1)) := by
    rw [← Array.length_toList, h]
    simp
  have hentry : t.entryAt? (before.length + holes.length) = some e := by
    rw [← List.append_assoc] at h
    simpa using entryAt?_append h
  unfold nextFrom
  rw [hsize, Nat.add_sub_cancel_left, scan_holes hholes h, scan, hentry]
  rfl

end ValueTable

end ScriptEngine
