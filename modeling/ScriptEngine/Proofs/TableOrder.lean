import Mathlib.Data.List.Induction
import Mathlib.Data.List.InsertIdx
import Mathlib.Data.List.ReduceOption
import ScriptEngine.Proofs.Bucketing

/-!
# Tables keep the order of insertion

Whatever sequence of changes has made a table, its entries, its buckets and its count agree. A ledger
is kept beside the changes: it has the entries that were not removed, each with the number of its
insertion, and finds the entry of a position by counting the entries before it. The table lists what
the ledger has, in the order of these numbers, no matter how often holes have been closed.

Positions are words of sixty-four bits, so that walking from position to position is considered in
tables with fewer slots than there are words.
-/

namespace ScriptEngine

namespace ValueTable

/-- An entry with another value. -/
def Entry.assign (e : Entry) (value : Value) : Entry := { e with value := value }

/-- A change of a table. -/
inductive Change where
  | insert (hash : UInt64) (key value : Value)
  | assign (position : Nat) (value : Value)
  | remove (position : Nat)

/-- The table after a change. -/
def change (t : ValueTable) : Change → ValueTable
  | .insert hash key value => t.insertNew hash key value
  | .assign position value => t.setValue position value
  | .remove position => (t.remove position).1

/-- The table that some changes make of the empty one. -/
def ofChanges (changes : List Change) : ValueTable := changes.foldl change empty

/-- Number of entries before a position. -/
def rank (t : ValueTable) (position : Nat) : Nat :=
  (t.entries.toList.take position).reduceOption.length

/-- Positions that hold an entry, in increasing order. -/
def positions (t : ValueTable) : List Nat := t.entries.toList.findIdxs Option.isSome

/-- The positions met by going on from one to the next for some steps. -/
def walk (t : ValueTable) : Nat → Option Nat → List Nat
  | 0, _ => []
  | steps + 1, after =>
    match t.nextPosition after with
    | none => []
    | some p => p :: t.walk steps (some p)

/-! ## Positions and what they hold -/

variable {t : ValueTable} {before after : List (Option Entry)} {e : Entry} {p : Nat}

/-- Places that all hold an entry. -/
theorem reduceOption_map_some (es : List Entry) : (es.map some).reduceOption = es := by
  induction es with
  | nil => rfl
  | cons e es ih => rw [List.map_cons, List.reduceOption_cons_of_some, ih]

/-- The entries of a table in order are what its places hold. -/
theorem toList_eq (t : ValueTable) : t.toList = t.entries.toList.reduceOption := rfl

/-- A position with an entry splits the entries. -/
theorem exists_split (h : t.entryAt? p = some e) : ∃ before after,
    p = before.length ∧ t.entries.toList = before ++ some e :: after := by
  have hget : t.entries.toList[p]? = some (some e) := by
    unfold entryAt? at h
    rw [Array.getElem?_toList]
    exact Option.join_eq_some_iff.1 h
  obtain ⟨hp, hcell⟩ := List.getElem?_eq_some_iff.1 hget
  refine ⟨t.entries.toList.take p, t.entries.toList.drop (p + 1), ?_, ?_⟩
  · rw [List.length_take, Nat.min_eq_left (Nat.le_of_lt hp)]
  · rw [← hcell, ← List.drop_eq_getElem_cons hp, List.take_append_drop]

/-- The rank of a position is how many entries come before it. -/
theorem rank_append {rest : List (Option Entry)} (h : t.entries.toList = before ++ rest) :
    t.rank before.length = before.reduceOption.length := by
  rw [rank, h, List.take_left]

/-- What comes before and after an entry. -/
theorem toList_append (h : t.entries.toList = before ++ some e :: after) :
    t.toList = before.reduceOption ++ e :: after.reduceOption := by
  rw [toList_eq, h, List.reduceOption_append, List.reduceOption_cons_of_some]

/-- The candidates of a hash are the positions of its entries. -/
theorem mem_candidates (hs : t.Sound) {hash : UInt64} :
    p ∈ t.candidates hash ↔ ∃ e, t.entryAt? p = some e ∧ e.hash = hash := by
  rw [hs.buckets, List.mem_findIdxs_iff_exists_getElem_pos]
  constructor
  · rintro ⟨hp, hhash⟩
    have hentry : t.entryAt? p = t.entries.toList[p] := by
      rw [entryAt?, ← Array.getElem?_toList, List.getElem?_eq_getElem hp]
      rfl
    rw [hentry]
    cases hcell : t.entries.toList[p] with
    | none => simp [hasHash, hcell] at hhash
    | some e => exact ⟨e, rfl, by simpa [hasHash, hcell] using hhash⟩
  · rintro ⟨e, he, hhash⟩
    obtain ⟨before, after, rfl, hsplit⟩ := exists_split he
    refine ⟨by simp [hsplit], ?_⟩
    simp [hsplit, hasHash, hhash]

/-- The positions of a table are those with an entry. -/
theorem mem_positions : p ∈ t.positions ↔ (t.entryAt? p).isSome = true := by
  rw [positions, List.mem_findIdxs_iff_exists_getElem_pos]
  unfold entryAt?
  rw [← Array.getElem?_toList]
  constructor
  · rintro ⟨hp, hsome⟩
    rw [List.getElem?_eq_getElem hp]
    exact hsome
  · intro h
    cases hcell : t.entries.toList[p]? with
    | none =>
      rw [hcell] at h
      cases h
    | some cell =>
      obtain ⟨hp, rfl⟩ := List.getElem?_eq_some_iff.1 hcell
      rw [hcell] at h
      exact ⟨hp, h⟩

/-- The positions that hold an entry hold the entries of the table. -/
theorem entryAt?_positions (t : ValueTable) : t.positions.map t.entryAt? = t.toList.map some := by
  have hcells : ∀ before rest : List (Option Entry), t.entries.toList = before ++ rest →
      (rest.findIdxs Option.isSome before.length).map t.entryAt? = rest.reduceOption.map some := by
    intro before rest
    induction rest generalizing before with
    | nil => exact fun _ => rfl
    | cons cell rest ih =>
      intro h
      have hrest := ih (before ++ [cell]) (by simp [h])
      rw [List.length_append, List.length_singleton] at hrest
      cases cell with
      | none => simpa [List.findIdxs_cons] using hrest
      | some e => simpa [List.findIdxs_cons, entryAt?_append h] using hrest
  exact hcells [] _ rfl

/-! ## Walking -/

/-- A walk passes over a hole. -/
theorem nextFrom_hole (h : t.entries.toList = before ++ none :: after) :
    t.nextFrom before.length = t.nextFrom (before.length + 1) := by
  have hsize : t.entries.size = before.length + (after.length + 1) := by
    rw [← Array.length_toList, h]
    simp
  have hsteps : t.entries.size - before.length = t.entries.size - (before.length + 1) + 1 := by
    omega
  rw [nextFrom, hsteps, scan, entryAt?_append h]
  rfl

/-- A walk stops at an entry. -/
theorem nextFrom_entry (h : t.entries.toList = before ++ some e :: after) :
    t.nextFrom before.length = some before.length :=
  nextFrom_append (List.forall_mem_nil (· = none)) h

/-- From a position on, a walk meets the positions that hold an entry one after another. -/
theorem walk_eq (hsize : t.entries.size < pow2 64) {rest : List (Option Entry)}
    (h : t.entries.toList = before ++ rest) {start : Option Nat}
    (hstart : t.nextPosition start = t.nextFrom before.length) (steps : Nat) :
    t.walk steps start = (rest.findIdxs Option.isSome before.length).take steps := by
  induction rest generalizing before start steps with
  | nil =>
    have hend := nextFrom_of_holes (List.forall_mem_nil (· = none)) h
    cases steps with
    | zero => rfl
    | succ steps => rw [walk, hstart, hend, List.findIdxs_nil, List.take_nil]
  | cons cell rest ih =>
    have hnext : t.entries.toList = (before ++ [cell]) ++ rest := by simp [h]
    have hlength : (before ++ [cell]).length = before.length + 1 := by simp
    cases cell with
    | none =>
      rw [ih hnext (by rw [hstart, hlength, nextFrom_hole h]), hlength, List.findIdxs_cons]
      rfl
    | some e =>
      cases steps with
      | zero => simp [walk]
      | succ steps =>
        have hbound : before.length + 1 < pow2 64 := by
          refine Nat.lt_of_le_of_lt ?_ hsize
          rw [← Array.length_toList, h]
          simp
        have hafter : t.nextPosition (some before.length) =
            t.nextFrom (before ++ [some e]).length := by
          rw [hlength, nextPosition_of_lt t hbound]
        rw [walk, hstart, nextFrom_entry h]
        dsimp only
        rw [ih hnext hafter, hlength, List.findIdxs_cons]
        rfl

/-! ## What changes do to the entries -/

/-- A new entry comes last. -/
theorem toList_insertNew (t : ValueTable) (hash : UInt64) (key value : Value) :
    (t.insertNew hash key value).toList = t.toList ++ [⟨hash, key, value⟩] := by
  rw [toList_eq, entries_insertNew, List.reduceOption_append]
  rfl

/-- A hole has no value to set. -/
theorem setValue_of_hole (h : t.entryAt? p = none) (value : Value) : t.setValue p value = t := by
  have hcells : t.entries.modify p (fun c => c.map fun e => { e with value := value }) =
      t.entries := by
    refine Array.ext (by simp) fun i _ hi => ?_
    rw [Array.getElem_modify]
    split
    · next heq =>
      have hcell : t.entries[i] = none := by
        rwa [entryAt?, heq, Array.getElem?_eq_getElem hi] at h
      rw [hcell]
      rfl
    · rfl
  exact congrArg (fun entries => (⟨entries, t.buckets, t.live⟩ : ValueTable)) hcells

/-- A hole has no entry to remove. -/
theorem remove_of_hole (h : t.entryAt? p = none) : t.remove p = (t, none) := by
  rw [remove, h]

/-- Setting a value changes the entry of its rank. -/
theorem toList_setValue (t : ValueTable) (p : Nat) (value : Value) :
    (t.setValue p value).toList =
      if (t.entryAt? p).isSome then t.toList.modify (t.rank p) (·.assign value) else t.toList := by
  cases h : t.entryAt? p with
  | none => rw [setValue_of_hole h]; rfl
  | some e =>
    obtain ⟨before, after, rfl, hsplit⟩ := exists_split h
    rw [toList_append (entries_setValue hsplit value), rank_append hsplit, toList_append hsplit]
    simp [List.modify_eq_set_getElem?, Entry.assign]

/-- Closing holes keeps the sequence of entries. -/
theorem toList_compact (t : ValueTable) : t.compact.toList = t.toList := by
  rw [toList_eq, (entries_compact t).1, reduceOption_map_some]

/-- Removing takes away the entry of its rank. -/
theorem toList_remove (hs : t.Sound) (p : Nat) :
    (t.remove p).1.toList =
      if (t.entryAt? p).isSome then t.toList.eraseIdx (t.rank p) else t.toList := by
  cases h : t.entryAt? p with
  | none => rw [remove_of_hole h]; rfl
  | some e =>
    obtain ⟨before, after, rfl, hsplit⟩ := exists_split h
    rw [rank_append hsplit, toList_append hsplit, List.eraseIdx_append_of_length_le (Nat.le_refl _),
      Nat.sub_self, List.eraseIdx_cons_zero, if_pos Option.isSome_some, toList_eq]
    obtain ⟨-, hholes | hclosed⟩ := remove_eq hs hsplit
    · rw [hholes, List.reduceOption_append, List.reduceOption_cons_of_none]
    · rw [hclosed, reduceOption_map_some]
      exact List.reduceOption_append before after

/-- What is removed is the entry of the position. -/
theorem snd_remove (t : ValueTable) (p : Nat) : (t.remove p).2 = t.entryAt? p := by
  unfold remove
  split
  · next h => exact h.symm
  · next e h => exact h.symm

/-! ## Buckets are never empty -/

/-- No bucket is empty. -/
def Filled (t : ValueTable) : Prop := ∀ hash : UInt64, t.buckets[hash]? ≠ some []

/-- A table without entries has no buckets. -/
theorem filled_empty : empty.Filled := fun hash => by simp [empty]

/-- A new entry fills its bucket. -/
theorem Filled.insertNew (hf : t.Filled) (hash : UInt64) (key value : Value) :
    (t.insertNew hash key value).Filled := by
  intro hash'
  unfold ValueTable.insertNew
  dsimp only
  rw [Std.HashMap.getElem?_insert]
  split
  · simp
  · exact hf hash'

/-- Compacting makes buckets of entries only. -/
theorem filled_compact (t : ValueTable) : t.compact.Filled := by
  have hfold : ∀ (es : List Entry) (u : ValueTable), u.Filled →
      (es.foldl (fun t e => t.insertNew e.hash e.key e.value) u).Filled := by
    intro es
    induction es with
    | nil => exact fun u hu => hu
    | cons e es ih => exact fun u hu => ih _ (hu.insertNew e.hash e.key e.value)
  exact hfold t.toList empty filled_empty

/-- Removing leaves no empty bucket behind. -/
theorem Filled.remove (hf : t.Filled) (p : Nat) : (t.remove p).1.Filled := by
  unfold ValueTable.remove
  split
  · exact hf
  · next e _ =>
    dsimp only
    split
    · exact filled_compact _
    · intro hash
      change (dropFromBucket t.buckets e.hash p)[hash]? ≠ some []
      unfold dropFromBucket
      split
      · rw [Std.HashMap.getElem?_erase]
        split
        · simp
        · exact hf hash
      · next hne =>
        rw [Std.HashMap.getElem?_insert]
        split
        · simpa using hne
        · exact hf hash

/-! ## Sequences of changes -/

/-- A change keeps entries, buckets and count in agreement. -/
theorem Sound.change (hs : t.Sound) (c : Change) : (t.change c).Sound := by
  cases c with
  | insert hash key value => exact hs.insertNew hash key value
  | assign p value =>
    change (t.setValue p value).Sound
    cases h : t.entryAt? p with
    | none => rwa [setValue_of_hole h]
    | some e =>
      obtain ⟨before, after, rfl, hsplit⟩ := exists_split h
      exact hs.setValue hsplit value
  | remove p =>
    change (t.remove p).1.Sound
    cases h : t.entryAt? p with
    | none => rwa [remove_of_hole h]
    | some e =>
      obtain ⟨before, after, rfl, hsplit⟩ := exists_split h
      exact (remove_eq hs hsplit).1

/-- A change leaves no bucket empty. -/
theorem Filled.change (hf : t.Filled) (c : Change) : (t.change c).Filled := by
  cases c with
  | insert hash key value => exact hf.insertNew hash key value
  | assign p value => exact hf
  | remove p => exact hf.remove p

/-- The last change of a sequence. -/
theorem ofChanges_append (changes : List Change) (c : Change) :
    ofChanges (changes ++ [c]) = (ofChanges changes).change c := by
  simp [ofChanges]

/-- Any sequence of changes makes a table in agreement, with no empty bucket. -/
theorem sound_ofChanges (changes : List Change) :
    (ofChanges changes).Sound ∧ (ofChanges changes).Filled := by
  induction changes using List.reverseRecOn with
  | nil => exact ⟨sound_empty, filled_empty⟩
  | append_singleton changes c ih =>
    rw [ofChanges_append]
    exact ⟨ih.1.change c, ih.2.change c⟩

/-! ## The ledger -/

/-- Hash and key of the entry that a change inserts. -/
def Change.inserted? : Change → Option (UInt64 × Value)
  | .insert hash key _ => some (hash, key)
  | _ => none

/-- The insertions among some changes, first one first. -/
def insertions (changes : List Change) : List (UInt64 × Value) :=
  changes.filterMap Change.inserted?

/-- What a change makes of the entries with the numbers of their insertion. -/
def enter (t : ValueTable) (count : Nat) (log : List (Nat × Entry)) : Change → List (Nat × Entry)
  | .insert hash key value => log ++ [(count, ⟨hash, key, value⟩)]
  | .assign p value =>
    if (t.entryAt? p).isSome then
      log.modify (t.rank p) (Prod.map id (·.assign value))
    else log
  | .remove p => if (t.entryAt? p).isSome then log.eraseIdx (t.rank p) else log

/-- The entries that some changes, last one first, have inserted and not removed, each with the number
of its insertion. -/
def ledgerOf : List Change → List (Nat × Entry)
  | [] => []
  | c :: earlier =>
    (ofChanges earlier.reverse).enter (insertions earlier).length (ledgerOf earlier) c

/-- The entries that some changes have inserted and not removed, each with the number of its
insertion. -/
def ledger (changes : List Change) : List (Nat × Entry) := ledgerOf changes.reverse

/-- What the last change inserts. -/
theorem insertions_append (changes : List Change) (c : Change) :
    insertions (changes ++ [c]) = insertions changes ++ c.inserted?.toList := by
  rw [insertions, List.filterMap_append, List.filterMap_cons, List.filterMap_nil]
  cases c.inserted? <;> rfl

/-- What the last change enters into the ledger. -/
theorem ledger_append (changes : List Change) (c : Change) :
    ledger (changes ++ [c]) =
      (ofChanges changes).enter (insertions changes).length (ledger changes) c := by
  have hcount : (insertions changes.reverse).length = (insertions changes).length := by
    simp [insertions, List.filterMap_reverse]
  simp [ledger, ledgerOf, hcount]

/-- A modification that a map carries over. -/
theorem map_modify {α β : Type} {f : α → α} {g : β → β} {h : α → β} (hfg : ∀ a, h (f a) = g (h a))
    (as : List α) (i : Nat) : (as.modify i f).map h = (as.map h).modify i g := by
  refine List.ext_getElem? fun j => ?_
  simp only [List.getElem?_map, List.getElem?_modify]
  split <;> cases as[j]? <;> simp [hfg]

/-- The numbers of insertions, with hashes and keys. -/
def tags (log : List (Nat × Entry)) : List (Nat × UInt64 × Value) :=
  log.map fun x => (x.1, x.2.hash, x.2.key)

/-- Setting a value leaves the numbers of insertions alone. -/
theorem tags_modify (log : List (Nat × Entry)) (i : Nat) (value : Value) :
    tags (log.modify i (Prod.map id (·.assign value))) = tags log := by
  have hsame := map_modify (f := Prod.map id (Entry.assign · value)) (g := id)
    (h := fun x : Nat × Entry => (x.1, x.2.hash, x.2.key)) (fun _ => rfl) log i
  rwa [List.modify_id] at hsame

/-- What changes have inserted and not removed is what the table lists. -/
theorem ledger_lists (changes : List Change) :
    (ofChanges changes).toList = (ledger changes).map Prod.snd := by
  induction changes using List.reverseRecOn with
  | nil => rfl
  | append_singleton changes c ih =>
    rw [ofChanges_append, ledger_append]
    cases c with
    | insert hash key value =>
      change ((ofChanges changes).insertNew hash key value).toList = _
      rw [toList_insertNew, ih, enter, List.map_append]
      rfl
    | assign p value =>
      change ((ofChanges changes).setValue p value).toList = _
      rw [toList_setValue, ih, enter]
      split
      · exact (map_modify (h := Prod.snd) (fun _ => rfl) _ _).symm
      · rfl
    | remove p =>
      change ((ofChanges changes).remove p).1.toList = _
      rw [toList_remove (sound_ofChanges changes).1, ih, enter]
      split
      · rw [List.eraseIdx_map]
      · rfl

/-- The entries of a ledger stand in the order of their insertion, each with its hash and its key. -/
theorem ledger_ascending (changes : List Change) :
    ((tags (ledger changes)).map Prod.fst).Pairwise (· < ·) ∧
      ∀ x ∈ tags (ledger changes), (insertions changes)[x.1]? = some x.2 := by
  induction changes using List.reverseRecOn with
  | nil => exact ⟨.nil, fun _ hx => absurd hx List.not_mem_nil⟩
  | append_singleton changes c ih =>
    obtain ⟨hordered, hinserted⟩ := ih
    have hkept : ∀ x ∈ tags (ledger changes),
        (insertions (changes ++ [c]))[x.1]? = some x.2 := by
      intro x hx
      have hx := hinserted x hx
      rw [insertions_append, List.getElem?_append_left (List.getElem?_eq_some_iff.1 hx).1, hx]
    rw [ledger_append]
    cases c with
    | insert hash key value =>
      rw [enter, tags, List.map_append]
      constructor
      · rw [List.map_append, List.pairwise_append]
        refine ⟨hordered, List.pairwise_singleton _ _, fun n hn m hm => ?_⟩
        obtain ⟨x, hx, rfl⟩ := List.mem_map.1 hn
        obtain rfl := List.mem_singleton.1 hm
        exact (List.getElem?_eq_some_iff.1 (hinserted x hx)).1
      · intro x hx
        rcases List.mem_append.1 hx with hx | hx
        · exact hkept x hx
        · obtain rfl := List.mem_singleton.1 hx
          simp [insertions_append, Change.inserted?]
    | assign p value =>
      rw [enter]
      split
      · rw [tags_modify]
        exact ⟨hordered, hkept⟩
      · exact ⟨hordered, hkept⟩
    | remove p =>
      rw [enter]
      split
      · rw [tags, ← List.eraseIdx_map, ← List.eraseIdx_map]
        exact ⟨hordered.sublist (List.eraseIdx_sublist _ _),
          fun x hx => hkept x (List.mem_of_mem_eraseIdx hx)⟩
      · exact ⟨hordered, hkept⟩

/-- What holds of a table that changes have made, whose ledger is given. -/
structure Faithful (t : ValueTable) (changes : List Change) (log : List (Nat × Entry)) : Prop where
  /-- The count is the number of slots with an entry. -/
  size : t.size = t.entries.toList.countP Option.isSome
  /-- Buckets list positions in increasing order. -/
  ascending : ∀ hash, (t.candidates hash).Pairwise (· < ·)
  /-- A bucket has the positions of the entries of its hash, and no others. -/
  candidates : ∀ hash p, p ∈ t.candidates hash ↔ ∃ e, t.entryAt? p = some e ∧ e.hash = hash
  /-- No bucket is empty. -/
  filled : t.Filled
  /-- The entries of the table are those of the ledger. -/
  lists : t.toList = log.map Prod.snd
  /-- The ledger is in the order of insertion, and has each insertion at most once. -/
  ordered : (log.map Prod.fst).Pairwise (· < ·)
  /-- Each entry of the ledger has the hash and the key of its insertion. -/
  inserted : ∀ x ∈ log, (insertions changes)[x.1]? = some (x.2.hash, x.2.key)
  /-- The entries of the table are those at the positions that hold one. -/
  positions : t.positions.map t.entryAt? = t.toList.map some
  /-- Going from position to position meets those that hold an entry, and then ends. -/
  walk : t.entries.size < pow2 64 → ∀ steps, t.walk steps none = t.positions.take steps
  /-- A removal gives the entry at the position. -/
  removed : ∀ p, (t.remove p).2 = t.entryAt? p
  /-- It removes that entry only; where there is none nothing changes. -/
  remains : ∀ p, (t.remove p).1.toList =
    if (t.entryAt? p).isSome then t.toList.eraseIdx (t.rank p) else t.toList
  /-- The entry at a position is the one behind all entries at smaller positions. -/
  rank : ∀ p e, t.entryAt? p = some e → t.toList[t.rank p]? = some e
  /-- Closing holes keeps the sequence of entries. -/
  compact : t.compact.toList = t.toList

/-- Whatever changes are made of an empty table, its parts agree, and its entries are those inserted
and not removed, in the order of insertion. -/
theorem faithful_ofChanges (changes : List Change) :
    (ofChanges changes).Faithful changes (ledger changes) := by
  obtain ⟨hsound, hfilled⟩ := sound_ofChanges changes
  obtain ⟨hordered, hinserted⟩ := ledger_ascending changes
  refine
    { size := ?_
      ascending := fun hash => ?_
      candidates := fun hash p => mem_candidates hsound
      filled := hfilled
      lists := ledger_lists changes
      ordered := ?_
      inserted := fun x hx => hinserted _ (List.mem_map_of_mem hx)
      positions := entryAt?_positions _
      walk := fun hsize steps => walk_eq hsize (List.nil_append _).symm rfl steps
      removed := snd_remove _
      remains := toList_remove hsound
      rank := fun p e he => ?_
      compact := toList_compact _ }
  · rw [size, hsound.live, toList_eq, List.reduceOption_length_eq, List.countP_eq_length_filter]
  · rw [hsound.buckets]
    exact List.pairwise_findIdxs
  · rw [tags, List.map_map] at hordered
    exact hordered
  · obtain ⟨before, after, rfl, hsplit⟩ := exists_split he
    rw [rank_append hsplit, toList_append hsplit, List.getElem?_append_right (Nat.le_refl _),
      Nat.sub_self]
    rfl

/-- The ninth removal from seventeen entries closes the holes, and those behind move down. -/
example : (ofChanges ((List.range 17).map (fun n => .insert n.toUInt64 .null .null) ++
    (List.range 9).map .remove)).positions = List.range 8 := by
  decide +kernel

end ValueTable

end ScriptEngine
