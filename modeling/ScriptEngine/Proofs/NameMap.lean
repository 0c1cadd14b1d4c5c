import Mathlib.Data.Set.Card
import ScriptEngine.Proofs.Probing

/-!
# Tables of names are finite maps

What a table of names does, seen as a finite map from handles to values. `Built` lists the tables
that insertion, deletion, merging and dropping of dead keys make from the empty one, each with the
map it stands for; the hashes that go with the handles may collide in any way. `Represents` is the
invariant of such tables, kept by every operation, and `Behaves` is what it means for their users.
-/

namespace ScriptEngine.NameTable

/-- A map from handles to values. -/
abbrev Map : Type := Handle → Option Value

namespace Map

/-- The map with one binding set. -/
def set (m : Map) (h : Handle) (v : Value) : Map := fun x => if x = h then some v else m x

/-- The map with one binding removed. -/
def remove (m : Map) (h : Handle) : Map := fun x => if x = h then none else m x

/-- The bindings of two maps, where the second one wins. -/
def union (m other : Map) : Map := fun x => (other x).or (m x)

/-- The bindings of the handles that are live. -/
def restrict (m : Map) (isLive : Handle → Bool) : Map := fun x => if isLive x then m x else none

end Map

/-- A handle as a key. -/
def keyWith (hashOf : Handle → UInt32) (h : Handle) : Key := ⟨h, hashOf h⟩

/-- The tables that the operations make, with the maps they stand for. -/
inductive Built (hashOf : Handle → UInt32) : NameTable → Map → Prop
  | empty : Built hashOf .empty fun _ => none
  | put {t : NameTable} {m : Map} (h : Handle) (v : Value) (ht : Built hashOf t m) :
    Built hashOf (t.put (keyWith hashOf h) v).1 (m.set h v)
  | delete {t : NameTable} {m : Map} (h : Handle) (ht : Built hashOf t m) :
    Built hashOf (t.delete (keyWith hashOf h)).1 (m.remove h)
  | merge {t other : NameTable} {m n : Map} (ht : Built hashOf t m)
    (ho : Built hashOf other n) : Built hashOf (t.merge other) (m.union n)
  | retain {t : NameTable} {m : Map} (isLive : Handle → Bool) (ht : Built hashOf t m) :
    Built hashOf (t.retain isLive).1 (m.restrict isLive)

/-- The invariant of a table that stands for a map. -/
structure Represents (hashOf : Handle → UInt32) (t : NameTable) (m : Map) : Prop where
  /-- The places are sound. -/
  sound : Sound hashOf t.slots
  /-- The entries are counted. -/
  count : t.count = t.slots.countP Slot.isFull
  /-- The tombstones are counted. -/
  tombstones : t.tombstones = t.slots.countP Slot.isTombstone
  /-- At most three quarters of the places are in use. -/
  load : (t.count + t.tombstones) * 4 ≤ t.slots.size * 3
  /-- The number of places is zero or a power of two from eight on. -/
  capacity : t.slots.size = 0 ∨ ∃ k, t.slots.size = 8 * 2 ^ k
  /-- The entries are the bindings of the map. -/
  holds : ∀ {h : Handle} {v : Value}, Holds t.slots h v ↔ m h = some v

section Represents

variable {hashOf : Handle → UInt32} {t : NameTable} {m : Map}

/-- A table with slots has an empty one. -/
theorem Represents.exists_empty (ht : Represents hashOf t m) (h : 0 < t.slots.size) :
    ∃ i : Nat, t.slots[i]? = some .empty := by
  apply NameTable.exists_empty
  rw [← ht.count, ← ht.tombstones]
  have := ht.load
  omega

/-- A table with slots can be searched: every search comes to an end. -/
theorem Represents.searchable (ht : Represents hashOf t m) (h : 0 < t.slots.size) :
    Searchable t.slots := by
  obtain ⟨i, hi⟩ := ht.exists_empty h
  exact searchable_of_empty hi

/-- A table without entries stands for the empty map. -/
theorem Represents.eq_none (ht : Represents hashOf t m) (h : t.count = 0) (x : Handle) :
    m x = none := by
  cases hm : m x with
  | none => rfl
  | some v =>
    obtain ⟨i, k, hi, -⟩ := ht.holds.2 hm
    rw [ht.count, Array.countP_eq_zero] at h
    exact absurd rfl (h _ (Array.mem_of_getElem? hi))

/-- A table that counts an entry has slots. -/
theorem Represents.size_pos (ht : Represents hashOf t m) (h : t.count ≠ 0) : 0 < t.slots.size := by
  have := ht.load
  omega

/-- The search for a handle ends at its binding, or at a free place if there is none. -/
theorem Represents.findSlot (ht : Represents hashOf t m) (hsize : 0 < t.slots.size) (h : Handle) :
    (∃ k v, t.slots[findSlot t.slots (keyWith hashOf h)]? = some (.full k v) ∧ k.handle = h ∧
        m h = some v) ∨
      ((t.slots[findSlot t.slots (keyWith hashOf h)]? = some .empty ∨
          t.slots[findSlot t.slots (keyWith hashOf h)]? = some .tombstone) ∧ m h = none) := by
  have hsearch := ht.searchable hsize
  cases hm : m h with
  | some v =>
    obtain ⟨j, k, hj, hk⟩ := ht.holds.2 hm
    have heq : NameTable.findSlot t.slots (keyWith hashOf h) = j :=
      ht.sound.findSlot_eq hsearch rfl hj hk
    rw [heq]
    exact .inl ⟨k, v, hj, hk, rfl⟩
  | none =>
    rcases (findSlot_spec hsearch hsize (keyWith hashOf h)).2 with he | he | ⟨k, v, hf, hk⟩
    · exact .inr ⟨.inl he, rfl⟩
    · exact .inr ⟨.inr he, rfl⟩
    · have hv : m h = some v := ht.holds.1 ⟨_, k, hf, hk⟩
      rw [hm] at hv
      cases hv

/-- Looking up a handle gives its binding. -/
theorem Represents.get? (ht : Represents hashOf t m) (h : Handle) :
    t.get? (keyWith hashOf h) = m h := by
  unfold NameTable.get?
  split
  · next hcount => exact (ht.eq_none hcount h).symm
  · next hcount =>
    rcases ht.findSlot (ht.size_pos hcount) h with ⟨k, v, hf, -, hm⟩ | ⟨hf, hm⟩
    · rw [hf, hm]
    · rcases hf with hf | hf <;> rw [hf, hm]

/-- Where a handle has its place, or may be put. -/
theorem Represents.target (ht : Represents hashOf t m) (hsize : 0 < t.slots.size) (h : Handle) :
    (∀ {j k w}, t.slots[j]? = some (.full k w) → k.handle = h →
        j = NameTable.findSlot t.slots (keyWith hashOf h)) ∧
      ∀ {k w}, t.slots[NameTable.findSlot t.slots (keyWith hashOf h)]? = some (.full k w) →
        k.handle = h := by
  have hsearch := ht.searchable hsize
  constructor
  · intro j k w hj hk
    exact (ht.sound.findSlot_eq hsearch rfl hj hk).symm
  · intro k w hf
    rcases (findSlot_spec hsearch hsize (keyWith hashOf h)).2 with he | he | ⟨k', v, hf', hk⟩
    · rw [hf] at he
      cases he
    · rw [hf] at he
      cases he
    · rw [hf] at hf'
      cases hf'
      exact hk

/-- Overwriting the place where a search for a handle ended sets its binding. -/
theorem Represents.write {slots : Array Slot} {count tombstones count' tombstones' : Nat}
    (ht : Represents hashOf ⟨slots, count, tombstones⟩ m) (hsize : 0 < slots.size) {h : Handle}
    {old : Slot} (hold : slots[NameTable.findSlot slots (keyWith hashOf h)]? = some old) (v : Value)
    (hcount : count' + old.isFull.toNat = count + 1)
    (htomb : tombstones' + old.isTombstone.toNat = tombstones)
    (hload : (count' + tombstones') * 4 ≤ slots.size * 3) :
    Represents hashOf
      ⟨slots.setIfInBounds (NameTable.findSlot slots (keyWith hashOf h)) (.full (keyWith hashOf h) v),
        count', tombstones'⟩ (m.set h v) := by
  have hreach := (findSlot_spec (ht.searchable hsize) hsize (keyWith hashOf h)).1
  obtain ⟨halone, hown⟩ := ht.target hsize h
  generalize NameTable.findSlot slots (keyWith hashOf h) = r at *
  have hr : r < slots.size := (Array.getElem?_eq_some_iff.1 hold).1
  have hfull := countP_setIfInBounds Slot.isFull hold (.full (keyWith hashOf h) v)
  have hburied := countP_setIfInBounds Slot.isTombstone hold (.full (keyWith hashOf h) v)
  have hc : count = slots.countP Slot.isFull := ht.count
  have hb : tombstones = slots.countP Slot.isTombstone := ht.tombstones
  simp only [Slot.isFull_full, Slot.isTombstone_full, Bool.toNat_true, Bool.toNat_false]
    at hfull hburied
  refine ⟨ht.sound.write rfl hr hreach halone, ?_, ?_, ?_, ?_, ?_⟩
  · simp only
    omega
  · simp only
    omega
  · simpa using hload
  · simpa using ht.capacity
  · intro x w
    rw [holds_write hr halone hown, Map.set, keyWith]
    split
    · simp [eq_comm]
    · exact ht.holds

/-- Writing into a table with room sets the binding, and says whether there was none. -/
theorem Represents.place (ht : Represents hashOf t m)
    (hroom : (t.count + t.tombstones + 1) * 4 ≤ t.slots.size * 3) (h : Handle) (v : Value) :
    Represents hashOf (t.place (keyWith hashOf h) v).1 (m.set h v) ∧
      (t.place (keyWith hashOf h) v).2 = (m h).isNone := by
  have hsize : 0 < t.slots.size := by omega
  have hfind := ht.findSlot hsize h
  have hload := ht.load
  obtain ⟨slots, count, tombstones⟩ := t
  simp only at hroom hsize hfind hload
  rcases hfind with ⟨k, w, hf, -, hm⟩ | ⟨he | he, hm⟩
  · simp only [NameTable.place, hf, hm]
    exact ⟨ht.write hsize hf v rfl rfl hload, rfl⟩
  · simp only [NameTable.place, he, hm]
    exact ⟨ht.write hsize he v rfl rfl (by omega), rfl⟩
  · have hpos : 0 < tombstones := by
      rw [show tombstones = _ from ht.tombstones]
      exact Array.countP_pos_iff.2 ⟨_, Array.mem_of_getElem? he, rfl⟩
    simp only [NameTable.place, he, hm]
    refine ⟨ht.write hsize he v rfl ?_ (by omega), rfl⟩
    simp only [Slot.isTombstone_tombstone, Bool.toNat_true]
    omega

/-- Removing a handle removes its binding, and says whether there was one. -/
theorem Represents.delete (ht : Represents hashOf t m) (h : Handle) :
    Represents hashOf (t.delete (keyWith hashOf h)).1 (m.remove h) ∧
      (t.delete (keyWith hashOf h)).2 = (m h).isSome := by
  have hremove : m h = none → m.remove h = m := by
    intro hm
    funext x
    unfold Map.remove
    split
    · next heq => rw [heq, hm]
    · rfl
  by_cases hcount : t.count = 0
  · have hm := ht.eq_none hcount h
    simp only [NameTable.delete, if_pos hcount, hremove hm, hm]
    exact ⟨ht, rfl⟩
  have hfind := ht.findSlot (ht.size_pos hcount) h
  have hload := ht.load
  have hcapacity := ht.capacity
  obtain ⟨slots, count, tombstones⟩ := t
  simp only at hcount hfind hload hcapacity
  rcases hfind with ⟨k, w, hf, hk, hm⟩ | ⟨he | he, hm⟩
  · simp only [NameTable.delete, if_neg hcount, hf, hm]
    have hfull := countP_setIfInBounds Slot.isFull hf .tombstone
    have hburied := countP_setIfInBounds Slot.isTombstone hf .tombstone
    have hc : count = slots.countP Slot.isFull := ht.count
    have hb : tombstones = slots.countP Slot.isTombstone := ht.tombstones
    simp only [Slot.isFull_full, Slot.isFull_tombstone, Slot.isTombstone_full,
      Slot.isTombstone_tombstone, Bool.toNat_true, Bool.toNat_false] at hfull hburied
    refine ⟨⟨ht.sound.bury (Array.getElem?_eq_some_iff.1 hf).1, ?_, ?_, ?_, ?_, ?_⟩, rfl⟩
    · simp only
      omega
    · simp only
      omega
    · simp only [Array.size_setIfInBounds]
      omega
    · simpa using hcapacity
    · intro x v
      rw [holds_bury ht.sound hf, hk, Map.remove, ht.holds]
      split <;> simp [*]
  · simp only [NameTable.delete, if_neg hcount, he, hremove hm, hm]
    exact ⟨ht, rfl⟩
  · simp only [NameTable.delete, if_neg hcount, he, hremove hm, hm]
    exact ⟨ht, rfl⟩

/-! ## Growing -/

/-- An entry is listed with a handle. -/
def Listed (places : List Slot) (h : Handle) (v : Value) : Prop :=
  ∃ k, Slot.full k v ∈ places ∧ k.handle = h

/-- Places whose keys have the hash of their handle and no handle twice. -/
structure Entries (hashOf : Handle → UInt32) (places : List Slot) : Prop where
  hash : ∀ {k v}, Slot.full k v ∈ places → k.hash = hashOf k.handle
  distinct : (places.filterMap Slot.pair?).Pairwise fun e e' => e.1.handle ≠ e'.1.handle

/-- Entries stay well-formed when some are left out. -/
theorem Entries.sublist {places places' : List Slot} (h : Entries hashOf places)
    (hs : places'.Sublist places) : Entries hashOf places' where
  hash hk := h.hash (hs.subset hk)
  distinct := h.distinct.sublist (hs.filterMap _)

/-- A pair is listed if and only if a slot is filled with it. -/
theorem mem_pair? {places : List Slot} {k : Key} {v : Value} :
    (k, v) ∈ places.filterMap Slot.pair? ↔ Slot.full k v ∈ places := by
  rw [List.mem_filterMap]
  constructor
  · rintro ⟨slot, hs, hp⟩
    cases slot <;> simp [Slot.pair?] at hp
    obtain ⟨rfl, rfl⟩ := hp
    exact hs
  · exact fun h => ⟨_, h, rfl⟩

/-- A slot holds a pair if and only if the list of the slots has it. -/
theorem holds_iff_listed {slots : Array Slot} {h : Handle} {v : Value} :
    Holds slots h v ↔ Listed slots.toList h v := by
  constructor
  · rintro ⟨i, k, hi, hk⟩
    exact ⟨k, Array.mem_def.1 (Array.mem_of_getElem? hi), hk⟩
  · rintro ⟨k, hk, heq⟩
    obtain ⟨i, hi⟩ := List.getElem?_of_mem hk
    exact ⟨i, k, by rwa [Array.getElem?_toList] at hi, heq⟩

/-- The places of a sound table list each handle once. -/
theorem Sound.entries {slots : Array Slot} (hs : Sound hashOf slots) :
    Entries hashOf slots.toList where
  hash hk := by
    obtain ⟨i, hi⟩ := List.getElem?_of_mem hk
    exact hs.hash (by rwa [Array.getElem?_toList] at hi)
  distinct := by
    rw [List.pairwise_filterMap, List.pairwise_iff_getElem]
    intro i j hi hj hij e he e' he' heq
    have hfull : ∀ {n : Nat} (hn : n < slots.toList.length) {e : Key × Value},
        Slot.pair? slots.toList[n] = some e → slots[n]? = some (.full e.1 e.2) := by
      intro n hn e hp
      rw [← Array.getElem?_toList, List.getElem?_eq_getElem hn]
      cases hslot : slots.toList[n] <;> simp [hslot, Slot.pair?] at hp
      rw [← hp]
    have := hs.unique (hfull hi he) (hfull hj he') heq
    omega

/-- Putting entries back one after another adds them to the map. -/
theorem Represents.rebuild {slots : Array Slot} {count : Nat} {places : List Slot} {m' : Map}
    (ht : Represents hashOf ⟨slots, count, 0⟩ m) (he : Entries hashOf places)
    (hfresh : ∀ {h v}, Listed places h v → m h = none)
    (hroom : (count + places.countP Slot.isFull) * 4 ≤ slots.size * 3)
    (hm : ∀ {h v}, m' h = some v ↔ m h = some v ∨ Listed places h v) :
    Represents hashOf ⟨places.foldl reinsert slots, count + places.countP Slot.isFull, 0⟩ m' := by
  induction places generalizing slots count m with
  | nil =>
    obtain rfl : m' = m := by
      funext h
      apply Option.ext
      intro v
      simp [hm, Listed]
    exact ht
  | cons entry rest ih =>
    have hlisted : ∀ {h v}, Listed rest h v → Listed (entry :: rest) h v :=
      fun ⟨k, hk, heq⟩ => ⟨k, List.mem_cons_of_mem _ hk, heq⟩
    have hrest : Entries hashOf rest := he.sublist (List.sublist_cons_self _ _)
    -- a place without an entry is passed over
    have hskip : entry.isFull = false → (∀ k v, entry ≠ .full k v) →
        NameTable.reinsert slots entry = slots →
        Represents hashOf ⟨(entry :: rest).foldl reinsert slots,
          count + (entry :: rest).countP Slot.isFull, 0⟩ m' := by
      intro hempty hne hsame
      simp only [List.foldl_cons, hsame, List.countP_cons, hempty] at hroom ⊢
      refine ih ht hrest (fun h => hfresh (hlisted h)) hroom ?_
      intro h v
      rw [hm]
      have : Listed (entry :: rest) h v ↔ Listed rest h v := by
        refine ⟨?_, hlisted⟩
        rintro ⟨k, hk, heq⟩
        rcases List.mem_cons.1 hk with hk | hk
        · exact absurd hk.symm (hne k v)
        · exact ⟨k, hk, heq⟩
      rw [this]
    cases entry with
    | empty => exact hskip rfl (by simp) rfl
    | tombstone => exact hskip rfl (by simp) rfl
    | full key w =>
      have hkey : key = keyWith hashOf key.handle := by
        rw [keyWith, ← he.hash (List.mem_cons_self ..)]
      have hnone : m key.handle = none := hfresh ⟨key, List.mem_cons_self .., rfl⟩
      simp only [List.countP_cons, Slot.isFull_full, if_true] at hroom ⊢
      have hsize : 0 < slots.size := by omega
      have hplace : Represents hashOf ⟨NameTable.reinsert slots (.full key w), count + 1, 0⟩
          (m.set key.handle w) := by
        rw [NameTable.reinsert]
        rcases ht.findSlot hsize key.handle with ⟨k, u, -, -, hu⟩ | ⟨hf, -⟩
        · rw [hnone] at hu
          cases hu
        rw [← hkey] at hf
        rcases hf with hf | hf
        · have hwritten : Represents hashOf
              ⟨slots.setIfInBounds (NameTable.findSlot slots (keyWith hashOf key.handle))
                (.full (keyWith hashOf key.handle) w), count + 1, 0⟩ (m.set key.handle w) :=
            ht.write hsize (by rwa [← hkey]) w rfl rfl (by omega)
          rwa [← hkey] at hwritten
        · have := Array.countP_pos_iff.2 ⟨_, Array.mem_of_getElem? hf, Slot.isTombstone_tombstone⟩
          rw [← show 0 = _ from ht.tombstones] at this
          omega
      rw [List.foldl_cons, ← Nat.add_assoc, Nat.add_right_comm]
      have hsame : (NameTable.reinsert slots (.full key w)).size = slots.size := by
        simp [NameTable.reinsert]
      have hapart : ∀ {h v}, Listed rest h v → h ≠ key.handle := by
        rintro h v ⟨k, hk, rfl⟩ heq
        have hd := he.distinct
        simp only [List.filterMap_cons, Slot.pair?, List.pairwise_cons] at hd
        exact hd.1 (k, v) (mem_pair?.2 hk) heq.symm
      refine ih hplace hrest ?_ (by rw [hsame]; omega) ?_
      · intro h v hl
        rw [Map.set, if_neg (hapart hl)]
        exact hfresh (hlisted hl)
      · intro h v
        rw [hm, Map.set]
        by_cases heq : h = key.handle
        · subst heq
          simp only [hnone, if_true, Option.some.injEq, reduceCtorEq, false_or]
          constructor
          · rintro ⟨k, hk, hkey'⟩
            rcases List.mem_cons.1 hk with hk | hk
            · cases hk
              exact .inl rfl
            · exact absurd hkey' (hapart ⟨k, hk, rfl⟩)
          · rintro (rfl | hl)
            · exact ⟨key, List.mem_cons_self .., rfl⟩
            · exact absurd rfl (hapart hl)
        · rw [if_neg heq]
          refine or_congr Iff.rfl ⟨?_, hlisted⟩
          rintro ⟨k, hk, rfl⟩
          rcases List.mem_cons.1 hk with hk | hk
          · cases hk
            exact absurd rfl heq
          · exact ⟨k, hk, rfl⟩

/-- Empty slots alone are sound. -/
theorem Sound.replicate (n : Nat) : Sound hashOf (Array.replicate n .empty) := by
  have hnone : ∀ {i : Nat} {k : Key} {v : Value},
      (Array.replicate n Slot.empty)[i]? ≠ some (.full k v) := by
    intro i k v h
    rw [Array.getElem?_replicate] at h
    split at h <;> cases h
  exact ⟨fun h => absurd h hnone, fun h => absurd h hnone, fun h => absurd h hnone⟩

/-- Places that are all empty stand for the empty map. -/
theorem represents_replicate (k : Nat) :
    Represents hashOf ⟨Array.replicate (8 * 2 ^ k) .empty, 0, 0⟩ fun _ => none where
  sound := .replicate _
  count := by simp [Array.countP_replicate]
  tombstones := by simp [Array.countP_replicate]
  load := by simp
  capacity := .inr ⟨k, by simp⟩
  holds := by
    intro h v
    refine ⟨?_, nofun⟩
    rintro ⟨i, k, hi, -⟩
    rw [Array.getElem?_replicate] at hi
    split at hi <;> cases hi

/-- The empty table stands for the empty map. -/
theorem represents_empty : Represents hashOf .empty fun _ => none where
  sound := .replicate 0
  count := rfl
  tombstones := rfl
  load := Nat.le_refl 0
  capacity := .inl rfl
  holds := by
    intro h v
    refine ⟨?_, nofun⟩
    rintro ⟨i, k, hi, -⟩
    cases hi

/-- The number of places after growing. -/
theorem Represents.grown_capacity (ht : Represents hashOf t m) :
    ∃ k, max (t.slots.size * 2) minCapacity = 8 * 2 ^ k := by
  rcases ht.capacity with h | ⟨k, h⟩
  · exact ⟨0, by simp [h, minCapacity]⟩
  · refine ⟨k + 1, ?_⟩
    have := Nat.one_le_two_pow (n := k)
    rw [h, minCapacity, Nat.max_eq_left (by omega), Nat.pow_succ]
    omega

/-- Reinsertion keeps the number of slots. -/
theorem size_foldl_reinsert (places : List Slot) (slots : Array Slot) :
    (places.foldl reinsert slots).size = slots.size := by
  induction places generalizing slots with
  | nil => rfl
  | cons entry rest ih =>
    rw [List.foldl_cons, ih]
    cases entry <;> simp [NameTable.reinsert]

/-- The map of the entries put back so far. -/
theorem Represents.rebuilt (ht : Represents hashOf t m) {places : List Slot}
    (hp : places.Sublist t.slots.toList) (m' : Map)
    (hm : ∀ {h v}, m' h = some v ↔ Listed places h v) :
    Represents hashOf
      ⟨places.foldl reinsert (Array.replicate (max (t.slots.size * 2) minCapacity) .empty),
        places.countP Slot.isFull, 0⟩ m' := by
  obtain ⟨k, hk⟩ := ht.grown_capacity
  have hle : places.countP Slot.isFull ≤ t.count := by
    rw [ht.count, ← Array.countP_toList]
    exact hp.countP_le
  have hload := ht.load
  rw [hk, ← Nat.zero_add (places.countP Slot.isFull)]
  refine (represents_replicate k).rebuild (ht.sound.entries.sublist hp) (fun _ => rfl) ?_ ?_
  · rw [Array.size_replicate, ← hk]
    omega
  · intro h v
    simp [hm]

/-- Growing keeps the map and makes room. -/
theorem Represents.grow (ht : Represents hashOf t m) :
    Represents hashOf t.grow m ∧ (t.grow.count + t.grow.tombstones + 1) * 4 ≤
      t.grow.slots.size * 3 := by
  have hgrown := ht.rebuilt (List.Sublist.refl _) m (by
    intro h v
    rw [← holds_iff_listed]
    exact ht.holds.symm)
  have heq : t.grow = ⟨t.slots.toList.foldl reinsert
      (Array.replicate (max (t.slots.size * 2) minCapacity) .empty),
      t.slots.toList.countP Slot.isFull, 0⟩ := by
    rw [NameTable.grow, Array.foldl_toList, Array.countP_toList, ← ht.count]
  rw [← heq] at hgrown
  refine ⟨hgrown, ?_⟩
  have hload := ht.load
  rw [heq]
  simp only [size_foldl_reinsert, Array.size_replicate, Array.countP_toList, ← ht.count]
  have : minCapacity = 8 := rfl
  omega

/-- The table that an insertion searches has room. -/
theorem Represents.roomy (ht : Represents hashOf t m) :
    Represents hashOf (if t.isCrowded then t.grow else t) m ∧
      ((if t.isCrowded then t.grow else t).count +
        (if t.isCrowded then t.grow else t).tombstones + 1) * 4 ≤
      (if t.isCrowded then t.grow else t).slots.size * 3 := by
  split
  · exact ht.grow
  · next h =>
    refine ⟨ht, ?_⟩
    simpa [isCrowded] using h

/-- Inserting sets the binding, and says whether there was none. -/
theorem Represents.put (ht : Represents hashOf t m) (h : Handle) (v : Value) :
    Represents hashOf (t.put (keyWith hashOf h) v).1 (m.set h v) ∧
      (t.put (keyWith hashOf h) v).2 = (m h).isNone :=
  ht.roomy.1.place ht.roomy.2 h v

/-! ## Merging -/

/-- Inserting entries one after another sets their bindings. -/
theorem Represents.insertAll (ht : Represents hashOf t m) (entries : List (Key × Value))
    (he : ∀ e ∈ entries, e.1.hash = hashOf e.1.handle) :
    Represents hashOf (entries.foldl (fun t (key, value) => t.insert key value) t)
      (entries.foldl (fun m e => m.set e.1.handle e.2) m) := by
  induction entries generalizing t m with
  | nil => exact ht
  | cons e rest ih =>
    have hkey : e.1 = keyWith hashOf e.1.handle := by
      rw [keyWith, ← he e (List.mem_cons_self ..)]
    refine ih ?_ fun e' he' => he e' (List.mem_cons_of_mem _ he')
    have hput := (ht.put e.1.handle e.2).1
    rwa [← hkey] at hput

/-- Setting a list of entries leaves other handles as they are. -/
theorem foldl_set_of_not_mem {entries : List (Key × Value)} {h : Handle}
    (hn : ∀ e ∈ entries, e.1.handle ≠ h) :
    (entries.foldl (fun m e => m.set e.1.handle e.2) m) h = m h := by
  induction entries generalizing m with
  | nil => rfl
  | cons e rest ih =>
    rw [List.foldl_cons, ih fun e' he' => hn e' (List.mem_cons_of_mem _ he'), Map.set,
      if_neg (hn e (List.mem_cons_self ..)).symm]

/-- Setting a list of entries with different handles gives each of them its value. -/
theorem foldl_set_of_mem {entries : List (Key × Value)}
    (hd : entries.Pairwise fun e e' => e.1.handle ≠ e'.1.handle) {e : Key × Value}
    (he : e ∈ entries) : (entries.foldl (fun m e => m.set e.1.handle e.2) m) e.1.handle =
      some e.2 := by
  induction entries generalizing m with
  | nil => cases he
  | cons e' rest ih =>
    rw [List.pairwise_cons] at hd
    rw [List.foldl_cons]
    rcases List.mem_cons.1 he with rfl | he
    · rw [foldl_set_of_not_mem fun e' he' => (hd.1 e' he').symm, Map.set, if_pos rfl]
    · exact ih hd.2 he

/-- The entries of a table are the bindings of its map. -/
theorem Represents.mem_toList (ht : Represents hashOf t m) {k : Key} {v : Value} :
    (k, v) ∈ t.toList ↔ k.hash = hashOf k.handle ∧ m k.handle = some v := by
  rw [NameTable.toList, mem_pair?, ← ht.holds, holds_iff_listed]
  constructor
  · exact fun h => ⟨ht.sound.entries.hash h, k, h, rfl⟩
  · rintro ⟨hk, l, hl, heq⟩
    have hkey : l = k := by
      obtain ⟨lh, lhash⟩ := l
      obtain ⟨kh, khash⟩ := k
      obtain rfl : lh = kh := heq
      have hl' : lhash = hashOf lh := ht.sound.entries.hash hl
      have hk' : khash = hashOf lh := hk
      rw [hl', hk']
    rwa [← hkey]

/-- Merging gives the bindings of both tables, where the second one wins. -/
theorem Represents.merge {other : NameTable} {n : Map} (ht : Represents hashOf t m)
    (ho : Represents hashOf other n) : Represents hashOf (t.merge other) (m.union n) := by
  have hall := ht.insertAll other.toList fun e he => (ho.mem_toList.1 he).1
  have hunion : other.toList.foldl (fun m e => m.set e.1.handle e.2) m = m.union n := by
    funext h
    rw [Map.union]
    cases hn : n h with
    | some v =>
      have hmem : (keyWith hashOf h, v) ∈ other.toList := ho.mem_toList.2 ⟨rfl, hn⟩
      exact foldl_set_of_mem ho.sound.entries.distinct hmem
    | none =>
      refine foldl_set_of_not_mem ?_
      rintro ⟨k, v⟩ he rfl
      rw [(ho.mem_toList.1 he).2] at hn
      cases hn
  rwa [hunion] at hall

/-! ## Dropping dead keys -/

/-- Counts add up where exactly one of two conditions goes with a third one. -/
theorem countP_add {slots : Array Slot} {p q r : Slot → Bool}
    (h : ∀ s, (p s).toNat + (q s).toNat = (r s).toNat) :
    slots.countP p + slots.countP q = slots.countP r := by
  rw [← Array.countP_toList, ← Array.countP_toList, ← Array.countP_toList]
  induction slots.toList with
  | nil => rfl
  | cons s rest ih =>
    have := h s
    simp only [List.countP_cons]
    cases hp : p s <;> cases hq : q s <;> cases hr : r s <;>
      simp only [hp, hq, hr, Bool.toNat_true, Bool.toNat_false] at this <;> simp <;> omega

/-- What dropping keys leaves in a slot: a pair stays if and only if its key is live. -/
theorem full_keepIf {slots : Array Slot} {isLive : Handle → Bool} {i : Nat} {k : Key} {v : Value} :
    (slots.map (Slot.keepIf isLive))[i]? = some (.full k v) ↔
      slots[i]? = some (.full k v) ∧ isLive k.handle = true := by
  rw [Array.getElem?_map]
  cases slots[i]? with
  | none => simp
  | some slot =>
    cases slot with
    | empty => simp [Slot.keepIf]
    | tombstone => simp [Slot.keepIf]
    | full l w =>
      simp only [Slot.keepIf, Option.map_some, Option.some.injEq]
      split
      · next h =>
        simp only [Slot.full.injEq, iff_self_and]
        rintro ⟨rfl, -⟩
        exact h
      · next h =>
        simp only [reduceCtorEq, Slot.full.injEq, false_iff]
        rintro ⟨⟨rfl, -⟩, hk⟩
        exact h hk

/-- Dropping keys that are not live keeps the invariant. -/
theorem Sound.keepIf {slots : Array Slot} (hs : Sound hashOf slots) (isLive : Handle → Bool) :
    Sound hashOf (slots.map (Slot.keepIf isLive)) where
  hash h := hs.hash (full_keepIf.1 h).1
  reached h := by
    obtain ⟨d, hd, hc⟩ := hs.reached (full_keepIf.1 h).1
    have hhome : ∀ hash, home (slots.map (Slot.keepIf isLive)) hash = home slots hash := by
      intro hash
      simp [home]
    refine ⟨d, by rwa [hhome, Array.size_map], ?_⟩
    intro e he
    have hold := hc e he
    rw [hhome, Array.size_map, Array.getElem?_map]
    cases hslot : slots[(home slots _ + e) % slots.size]? with
    | none => simp
    | some slot =>
      rw [hslot] at hold
      cases slot with
      | empty => exact absurd rfl hold
      | tombstone => simp [Slot.keepIf]
      | full k v =>
        simp only [Slot.keepIf, Option.map_some]
        split <;> simp
  unique h h' heq := hs.unique (full_keepIf.1 h).1 (full_keepIf.1 h').1 heq

/-- Dropping dead keys restricts the map. -/
theorem Represents.retain (ht : Represents hashOf t m) (isLive : Handle → Bool) :
    Represents hashOf (t.retain isLive).1 (m.restrict isLive) := by
  have hfull : t.slots.countP (Slot.isFull ∘ Slot.keepIf isLive) +
      t.slots.countP (Slot.isStale isLive) = t.slots.countP Slot.isFull := by
    apply countP_add
    rintro (_ | _ | ⟨k, v⟩)
    · rfl
    · rfl
    · cases h : isLive k.handle <;> simp [Slot.keepIf, Slot.isStale, h]
  have htomb : t.slots.countP Slot.isTombstone + t.slots.countP (Slot.isStale isLive) =
      t.slots.countP (Slot.isTombstone ∘ Slot.keepIf isLive) := by
    apply countP_add
    rintro (_ | _ | ⟨k, v⟩)
    · rfl
    · rfl
    · cases h : isLive k.handle <;> simp [Slot.keepIf, Slot.isStale, h]
  have hc := ht.count
  have hb := ht.tombstones
  have hload := ht.load
  rw [NameTable.retain]
  refine ⟨ht.sound.keepIf isLive, ?_, ?_, ?_, ?_, ?_⟩
  · simp only [Array.countP_map]
    omega
  · simp only [Array.countP_map]
    omega
  · simp only [Array.size_map]
    omega
  · simpa using ht.capacity
  · intro h v
    rw [Map.restrict]
    constructor
    · rintro ⟨i, k, hi, rfl⟩
      obtain ⟨hi, hlive⟩ := full_keepIf.1 hi
      rw [if_pos hlive]
      exact ht.holds.1 ⟨i, k, hi, rfl⟩
    · split
      · next hlive =>
        intro hm
        obtain ⟨i, k, hi, rfl⟩ := ht.holds.2 hm
        exact ⟨i, k, full_keepIf.2 ⟨hi, hlive⟩, rfl⟩
      · nofun

/-- The hashes of handles that a table does not hold do not matter. -/
theorem Represents.rehash {hashOf' : Handle → UInt32} (ht : Represents hashOf t m)
    (heq : ∀ h, (m h).isSome → hashOf' h = hashOf h) : Represents hashOf' t m :=
  { ht with
    sound :=
      { ht.sound with
        hash := fun {i k v} hi => by
          have hm : m k.handle = some v := ht.holds.1 ⟨i, k, hi, rfl⟩
          rw [heq k.handle (by rw [hm]; rfl)]
          exact ht.sound.hash hi } }

/-- The entries of a table after one was added under a new handle. -/
theorem Represents.mem_toList_insert (ht : Represents hashOf t m) {h : Handle} (hm : m h = none)
    (hash : UInt32) (v : Value) (e : Key × Value) :
    e ∈ (t.insert ⟨h, hash⟩ v).toList ↔ e = (⟨h, hash⟩, v) ∨ e ∈ t.toList := by
  let hashOf' : Handle → UInt32 := fun x => if x = h then hash else hashOf x
  have ht' : Represents hashOf' t m := by
    refine ht.rehash fun x hx => if_neg ?_
    rintro rfl
    rw [hm] at hx
    cases hx
  have hkey : keyWith hashOf' h = ⟨h, hash⟩ := by simp [keyWith, hashOf']
  have hput := (ht'.put h v).1
  rw [hkey] at hput
  obtain ⟨⟨x, n⟩, w⟩ := e
  rw [NameTable.insert, hput.mem_toList, ht'.mem_toList]
  by_cases heq : x = h
  · subst heq
    simp [hashOf', Map.set, hm, eq_comm]
  · simp [hashOf', Map.set, heq]

/-- Every table that the operations make stands for its map. -/
theorem Built.represents (hb : Built hashOf t m) : Represents hashOf t m := by
  induction hb with
  | empty => exact represents_empty
  | put h v _ ih => exact (ih.put h v).1
  | delete h _ ih => exact (ih.delete h).1
  | merge _ _ iht iho => exact iht.merge iho
  | retain isLive _ ih => exact ih.retain isLive

/-! ## What users of a table see -/

/-- The number of entries is that of the list of entries. -/
theorem Represents.length_toList (ht : Represents hashOf t m) : t.toList.length = t.size := by
  rw [NameTable.toList, List.length_filterMap_eq_countP, NameTable.size, ht.count,
    ← Array.countP_toList]
  apply List.countP_congr
  rintro (_ | _ | ⟨k, v⟩) - <;> simp [Slot.pair?]

/-- A table lists no handle twice. -/
theorem Represents.nodup (ht : Represents hashOf t m) : (t.toList.map (·.1.handle)).Nodup := by
  rw [List.Nodup, List.pairwise_map]
  exact ht.sound.entries.distinct

/-- The handles of the list of entries are those with a binding. -/
theorem Represents.bound_eq (ht : Represents hashOf t m) :
    {h | (m h).isSome} = ((t.toList.map (·.1.handle)).toFinset : Set Handle) := by
  ext h
  simp only [Set.mem_ofPred_eq, List.coe_toFinset, List.mem_map, Option.isSome_iff_exists]
  constructor
  · rintro ⟨v, hv⟩
    exact ⟨(keyWith hashOf h, v), ht.mem_toList.2 ⟨rfl, hv⟩, rfl⟩
  · rintro ⟨e, he, rfl⟩
    exact ⟨e.2, (ht.mem_toList.1 he).2⟩

/-- The size of a table is the number of handles its map is defined for. -/
theorem Represents.size_eq_ncard (ht : Represents hashOf t m) :
    t.size = {h | (m h).isSome}.ncard := by
  rw [ht.bound_eq, Set.ncard_coe_finset, List.toFinset_card_of_nodup ht.nodup, List.length_map,
    ht.length_toList]

/-- Dropping dead keys counts the entries it drops. -/
theorem retain_count (t : NameTable) (isLive : Handle → Bool) :
    (t.retain isLive).2 = t.toList.countP fun e => !isLive e.1.handle := by
  rw [NameTable.toList, List.countP_filterMap, NameTable.retain, ← Array.countP_toList]
  apply List.countP_congr
  rintro (_ | _ | ⟨k, v⟩) - <;> simp [Slot.pair?, Slot.isStale]

/-- Dropping dead keys keeps the entries of live ones. -/
theorem toList_retain (t : NameTable) (isLive : Handle → Bool) :
    (t.retain isLive).1.toList = t.toList.filter fun e => isLive e.1.handle := by
  rw [NameTable.toList, NameTable.toList, NameTable.retain, List.filter_filterMap,
    Array.toList_map, List.filterMap_map]
  refine List.filterMap_congr ?_
  rintro (_ | _ | ⟨k, v⟩) -
  · rfl
  · rfl
  · cases h : isLive k.handle <;> simp [Slot.keepIf, Slot.pair?, Option.filter, h]

/-- A search by content finds a handle that is held and accepted, or there is none. -/
theorem Represents.findContent (ht : Represents hashOf t m) (hash : UInt32)
    (isMatch : Handle → Bool) :
    match t.findContent hash isMatch with
    | some h => (m h).isSome ∧ hashOf h = hash ∧ isMatch h = true
    | none => ∀ h, (m h).isSome → hashOf h = hash → isMatch h = false := by
  unfold NameTable.findContent
  by_cases hcount : t.count = 0
  · rw [if_pos hcount]
    intro h hm
    rw [ht.eq_none hcount h] at hm
    cases hm
  rw [if_neg hcount]
  have hsize := ht.size_pos hcount
  have hwalk := (ht.searchable hsize).contentWalk hash isMatch
  rw [show hash.toNat % t.slots.size = home t.slots hash from rfl]
  cases hfound : probeContent t.slots hash isMatch t.slots.size (home t.slots hash) with
  | some h =>
    rw [hfound] at hwalk
    obtain ⟨j, k, v, hj, rfl, hk, hmatch⟩ := hwalk.accepted rfl
    have hm : m k.handle = some v := ht.holds.1 ⟨j, k, hj, rfl⟩
    exact ⟨by simp [hm], (ht.sound.hash hj).symm.trans hk, hmatch⟩
  | none =>
    rw [hfound] at hwalk
    intro h hm heq
    obtain ⟨v, hv⟩ := Option.isSome_iff_exists.1 hm
    obtain ⟨j, k, hj, rfl⟩ := ht.holds.2 hv
    obtain ⟨d, hd, hc⟩ := ht.sound.reached hj
    have hkh : k.hash = hash := (ht.sound.hash hj).trans heq
    rw [hkh] at hd hc
    have hrefused := hwalk.refused rfl (home_lt hsize hash) hc (by rw [hd]; exact hj)
    simpa [Slot.accepts, hkh] using hrefused

/-- A table behaves as a finite map from handles to values, where each handle has its own hash. -/
structure Behaves (hashOf : Handle → UInt32) (t : NameTable) (m : Map) : Prop where
  /-- Looking up agrees with the map. -/
  get : ∀ h, t.get? (keyWith hashOf h) = m h
  contains : ∀ h, t.contains (keyWith hashOf h) = (m h).isSome
  /-- Inserting says whether the key was absent. -/
  put : ∀ h v, (t.put (keyWith hashOf h) v).2 = (m h).isNone
  /-- Deleting says whether the key was present. -/
  delete : ∀ h, (t.delete (keyWith hashOf h)).2 = (m h).isSome
  /-- The number of entries is the size of the map, which is finite. -/
  finite : {h | (m h).isSome}.Finite
  size : t.size = {h | (m h).isSome}.ncard
  /-- The list of entries has each binding, and each once. -/
  bindings : ∀ k v, (k, v) ∈ t.toList ↔ k.hash = hashOf k.handle ∧ m k.handle = some v
  once : t.toList.length = t.size ∧ (t.toList.map (·.1.handle)).Nodup
  /-- Dropping dead keys counts the entries dropped. -/
  retain : ∀ isLive, (t.retain isLive).2 = t.toList.countP fun e => !isLive e.1.handle
  /-- A search by content finds a held handle of the hash that is accepted just in case there is
  one. -/
  content : ∀ hash isMatch,
    match t.findContent hash isMatch with
    | some h => (m h).isSome ∧ hashOf h = hash ∧ isMatch h = true
    | none => ∀ h, (m h).isSome → hashOf h = hash → isMatch h = false
  /-- The number of places is zero or a power of two from eight on. -/
  capacity : t.capacity = 0 ∨ ∃ k, 3 ≤ k ∧ t.capacity = 2 ^ k
  /-- Some place is empty, if there are places. -/
  empty : t.capacity ≠ 0 → ∃ i : Nat, t.slots[i]? = some .empty
  /-- Searches end: among the places as they are, where an insertion searches, and at each stage of
  growing. -/
  searches : t.capacity ≠ 0 → Searchable t.slots
  insertions : Searchable (if t.isCrowded then t.grow else t).slots
  growing : ∀ n, Searchable ((t.slots.toList.take n).foldl reinsert
    (Array.replicate (max (t.slots.size * 2) minCapacity) .empty))

/-- The places of a table that is being rebuilt can be searched. -/
theorem Represents.searchable_rebuilt (ht : Represents hashOf t m) (n : Nat) :
    Searchable ((t.slots.toList.take n).foldl reinsert
      (Array.replicate (max (t.slots.size * 2) minCapacity) .empty)) := by
  classical
  -- the entries put back so far are a map of their own
  have hpart := ht.rebuilt (List.take_sublist n t.slots.toList)
    (fun h => if Listed (t.slots.toList.take n) h ((m h).getD .null) then m h else none) (by
      intro h v
      have hsub : ∀ {w}, Listed (t.slots.toList.take n) h w → m h = some w := by
        rintro w ⟨k, hk, heq⟩
        exact ht.holds.1 (holds_iff_listed.2 ⟨k, List.mem_of_mem_take hk, heq⟩)
      constructor
      · split
        · next hl =>
          intro hv
          rwa [hv] at hl
        · nofun
      · intro hl
        rw [hsub hl]
        simp [hl])
  refine hpart.searchable ?_
  have : minCapacity = 8 := rfl
  simp only [size_foldl_reinsert, Array.size_replicate]
  omega

/-- Tables of names are finite maps: whatever insertions, deletions, merges and droppings of dead
keys made a table, and however the hashes collide, it behaves as the map they make. -/
theorem Built.behaves (hb : Built hashOf t m) : Behaves hashOf t m where
  get := hb.represents.get?
  contains h := by rw [NameTable.contains, hb.represents.get?]
  put h v := (hb.represents.put h v).2
  delete h := (hb.represents.delete h).2
  finite := by
    rw [hb.represents.bound_eq]
    exact Finset.finite_toSet _
  size := hb.represents.size_eq_ncard
  bindings _ _ := hb.represents.mem_toList
  once := ⟨hb.represents.length_toList, hb.represents.nodup⟩
  retain := retain_count t
  content := hb.represents.findContent
  capacity := by
    refine hb.represents.capacity.imp id ?_
    rintro ⟨k, hk⟩
    exact ⟨k + 3, by omega, by rw [NameTable.capacity, hk, Nat.pow_add]; omega⟩
  empty h := hb.represents.exists_empty (Nat.pos_of_ne_zero h)
  searches h := hb.represents.searchable (Nat.pos_of_ne_zero h)
  insertions := hb.represents.roomy.1.searchable (by have := hb.represents.roomy.2; omega)
  growing := hb.represents.searchable_rebuilt

end Represents

/-- Three colliding handles, of which the second is deleted and a fourth takes its place. -/
theorem behaves_colliding :
    let hashOf : Handle → UInt32 := fun _ => 3
    let t := ((((NameTable.empty.put (keyWith hashOf ⟨1⟩) .null).1.put (keyWith hashOf ⟨2⟩)
      (.bool true)).1.put (keyWith hashOf ⟨3⟩) .null).1.delete (keyWith hashOf ⟨2⟩)).1
    let u := (t.put (keyWith hashOf ⟨4⟩) (.bool false)).1
    u.slots.size = 8 ∧ u.tombstones = 0 ∧ u.get? (keyWith hashOf ⟨2⟩) = none ∧
      u.get? (keyWith hashOf ⟨3⟩) = some .null ∧ u.size = 3 ∧
      Behaves hashOf u (((((Map.set (fun _ => none) ⟨1⟩ .null).set ⟨2⟩ (.bool true)).set ⟨3⟩
        .null).remove ⟨2⟩).set ⟨4⟩ (.bool false)) :=
  ⟨rfl, rfl, rfl, rfl, rfl,
    (((((Built.empty.put _ _).put _ _).put _ _).delete _).put _ _).behaves⟩

end ScriptEngine.NameTable
