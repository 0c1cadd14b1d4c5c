import Mathlib.Tactic.Common
import ScriptEngine.Heap.NameTable

/-!
# Linear probing

Searching among the places of a table of names. `Walk` and `ContentWalk` are the two search loops
without any bound on their steps: they step from place to place until one of their exits applies. A
search ends if there is an empty place, and then `findSlot` and `probeContent` give what it finds.

`Sound` is the invariant of the places. Every key has the hash of its handle, no empty place lies
between the place its hash asks for and the place it has, and no two places hold the same handle. A
search for a handle that is held ends at its place, and any other search ends at a free place where
the key may be put.
-/

namespace ScriptEngine.NameTable

/-! ## Searches without a bound -/

/-- The place a hash asks for. -/
def home (slots : Array Slot) (hash : UInt32) : Nat := hash.toNat % slots.size

/-- The search for a handle from a place on, with the first tombstone passed so far, ends at the
last argument. -/
inductive Walk (slots : Array Slot) (key : Handle) : Nat → Option Nat → Nat → Prop
  | empty {i : Nat} {passed : Option Nat} (h : slots[i]? = some .empty) :
    Walk slots key i passed (passed.getD i)
  | tombstone {i r : Nat} {passed : Option Nat} (h : slots[i]? = some .tombstone)
    (rest : Walk slots key ((i + 1) % slots.size) (passed.or (some i)) r) :
    Walk slots key i passed r
  | found {i : Nat} {passed : Option Nat} {k : Key} {v : Value} (h : slots[i]? = some (.full k v))
    (hk : k.handle = key) : Walk slots key i passed i
  | other {i r : Nat} {passed : Option Nat} {k : Key} {v : Value}
    (h : slots[i]? = some (.full k v)) (hk : k.handle ≠ key)
    (rest : Walk slots key ((i + 1) % slots.size) passed r) : Walk slots key i passed r

/-- Whether a place holds a key of a hash that is accepted. -/
def Slot.accepts (hash : UInt32) (isMatch : Handle → Bool) : Slot → Bool
  | .full k _ => k.hash = hash && isMatch k.handle
  | _ => false

/-- The search by content from a place on ends with the last argument. -/
inductive ContentWalk (slots : Array Slot) (hash : UInt32) (isMatch : Handle → Bool) :
    Nat → Option Handle → Prop
  | empty {i : Nat} (h : slots[i]? = some .empty) : ContentWalk slots hash isMatch i none
  | found {i : Nat} {k : Key} {v : Value} (h : slots[i]? = some (.full k v))
    (hk : (Slot.full k v).accepts hash isMatch = true) :
    ContentWalk slots hash isMatch i (some k.handle)
  | other {i : Nat} {slot : Slot} {r : Option Handle} (h : slots[i]? = some slot)
    (hn : slot ≠ .empty) (hk : slot.accepts hash isMatch = false)
    (rest : ContentWalk slots hash isMatch ((i + 1) % slots.size) r) :
    ContentWalk slots hash isMatch i r

/-- Every search among some places ends, and with what `findSlot` and `probeContent` give. -/
structure Searchable (slots : Array Slot) : Prop where
  /-- Searches for a handle. -/
  walk : ∀ key : Key, Walk slots key.handle (home slots key.hash) none (findSlot slots key)
  /-- Searches by content. -/
  contentWalk : ∀ (hash : UInt32) (isMatch : Handle → Bool),
    ContentWalk slots hash isMatch (home slots hash)
      (probeContent slots hash isMatch slots.size (home slots hash))

section Wrapping

variable {slots : Array Slot}

/-- A search begins at a place of the table. -/
theorem home_lt (h : 0 < slots.size) (hash : UInt32) : home slots hash < slots.size :=
  Nat.mod_lt _ h

/-- Going around by one place and then by some is going around by all of them. -/
theorem succ_mod_add (n i d : Nat) : ((i + 1) % n + d) % n = (i + (d + 1)) % n := by
  rw [Nat.mod_add_mod, Nat.add_assoc, Nat.add_comm 1 d]

/-- A place in reach is reached by going on from any other place. -/
theorem exists_distance {n i j : Nat} (hj : j < n) (hi : i < n) : ∃ d < n, (i + d) % n = j := by
  refine ⟨(j + (n - i)) % n, Nat.mod_lt _ (by omega), ?_⟩
  rw [Nat.add_mod_mod, show i + (j + (n - i)) = j + n by omega, Nat.add_mod_right,
    Nat.mod_eq_of_lt hj]

/-- An empty place is one step nearer from the next place on, unless the search is there. -/
theorem nearer {steps i d : Nat} (hi : i < slots.size) (hd : d < steps + 1)
    (he : slots[(i + d) % slots.size]? = some .empty) (hne : slots[i]? ≠ some .empty) :
    ∃ d', d' < steps ∧ slots[((i + 1) % slots.size + d') % slots.size]? = some .empty := by
  cases d with
  | zero =>
    rw [Nat.add_zero, Nat.mod_eq_of_lt hi] at he
    exact absurd he hne
  | succ d => exact ⟨d, by omega, by rwa [succ_mod_add]⟩

/-- A bound on the steps that reaches an empty place does not cut the search short. -/
theorem walk_probe {key : Handle} {steps i d : Nat} {passed : Option Nat} (hi : i < slots.size)
    (hd : d < steps) (he : slots[(i + d) % slots.size]? = some .empty) :
    Walk slots key i passed (probe slots key steps i passed) := by
  induction steps generalizing i d passed with
  | zero => omega
  | succ steps ih =>
    have hnext : (i + 1) % slots.size < slots.size := Nat.mod_lt _ (by omega)
    rw [probe]
    cases hs : slots[i]? with
    | none => exact absurd (Array.getElem?_eq_none_iff.1 hs) (by omega)
    | some slot =>
      cases slot with
      | empty => exact .empty hs
      | tombstone =>
        obtain ⟨d', hd', he'⟩ := nearer hi hd he (by simp [hs])
        exact .tombstone hs (ih hnext hd' he')
      | full k v =>
        obtain ⟨d', hd', he'⟩ := nearer hi hd he (by simp [hs])
        simp only
        split
        · next hk => exact .found hs hk
        · next hk => exact .other hs hk (ih hnext hd' he')

/-- A search by content ends with what `probeContent` gives once it has steps enough to come by an
empty place. -/
theorem contentWalk_probe {hash : UInt32} {isMatch : Handle → Bool} {steps i d : Nat}
    (hi : i < slots.size) (hd : d < steps) (he : slots[(i + d) % slots.size]? = some .empty) :
    ContentWalk slots hash isMatch i (probeContent slots hash isMatch steps i) := by
  induction steps generalizing i d with
  | zero => omega
  | succ steps ih =>
    have hnext : (i + 1) % slots.size < slots.size := Nat.mod_lt _ (by omega)
    rw [probeContent]
    cases hs : slots[i]? with
    | none => exact absurd (Array.getElem?_eq_none_iff.1 hs) (by omega)
    | some slot =>
      cases slot with
      | empty => exact .empty hs
      | tombstone =>
        obtain ⟨d', hd', he'⟩ := nearer hi hd he (by simp [hs])
        exact .other hs (by simp) rfl (ih hnext hd' he')
      | full k v =>
        obtain ⟨d', hd', he'⟩ := nearer hi hd he (by simp [hs])
        simp only
        split
        · next hk => exact .found hs hk
        · next hk => exact .other hs (by simp) (Bool.eq_false_iff.2 hk) (ih hnext hd' he')

/-- Where there is an empty place every search ends. -/
theorem searchable_of_empty {i : Nat} (he : slots[i]? = some .empty) : Searchable slots := by
  have hi : i < slots.size := (Array.getElem?_eq_some_iff.1 he).1
  have hdistance := fun hash => exists_distance hi (home_lt (by omega) hash)
  constructor
  · intro key
    obtain ⟨d, hd, rfl⟩ := hdistance key.hash
    exact walk_probe (home_lt (by omega) _) hd he
  · intro hash isMatch
    obtain ⟨d, hd, rfl⟩ := hdistance hash
    exact contentWalk_probe (home_lt (by omega) _) hd he

end Wrapping

/-! ## The invariant of the places -/

/-- None of a number of places from one on is empty. -/
def Clear (slots : Array Slot) (i d : Nat) : Prop :=
  ∀ e < d, slots[(i + e) % slots.size]? ≠ some .empty

/-- The places from the one a hash asks for up to another one are not empty. -/
def Reached (slots : Array Slot) (hash : UInt32) (i : Nat) : Prop :=
  ∃ d, (home slots hash + d) % slots.size = i ∧ Clear slots (home slots hash) d

/-- The invariant of the places, where each handle has a hash of its own. -/
structure Sound (hashOf : Handle → UInt32) (slots : Array Slot) : Prop where
  /-- Keys have the hash of their handle. -/
  hash : ∀ {i : Nat} {k : Key} {v : Value}, slots[i]? = some (.full k v) →
    k.hash = hashOf k.handle
  /-- Keys are reached from the place they ask for. -/
  reached : ∀ {i : Nat} {k : Key} {v : Value}, slots[i]? = some (.full k v) →
    Reached slots k.hash i
  /-- A handle has one place. -/
  unique : ∀ {i j : Nat} {k l : Key} {v w : Value}, slots[i]? = some (.full k v) →
    slots[j]? = some (.full l w) → k.handle = l.handle → i = j

/-- Some place holds a handle with a value. -/
def Holds (slots : Array Slot) (h : Handle) (v : Value) : Prop :=
  ∃ (i : Nat) (k : Key), slots[i]? = some (.full k v) ∧ k.handle = h

section Search

variable {slots : Array Slot} {key : Handle} {i d r : Nat} {passed : Option Nat}

/-- Places clear from one on are clear from the next on. -/
theorem Clear.tail (h : Clear slots i (d + 1)) : Clear slots ((i + 1) % slots.size) d := by
  intro e he
  rw [succ_mod_add]
  exact h (e + 1) (by omega)

/-- A place that is not empty goes in front of places that are clear. -/
theorem Clear.cons (hi : i < slots.size) (h : slots[i]? ≠ some .empty)
    (ht : Clear slots ((i + 1) % slots.size) d) : Clear slots i (d + 1) := by
  intro e he
  cases e with
  | zero => rwa [Nat.add_zero, Nat.mod_eq_of_lt hi]
  | succ e =>
    rw [← succ_mod_add]
    exact ht e (by omega)

/-- A search ends at the place of the handle if no empty place comes before it. -/
theorem Walk.eq_of_clear (hw : Walk slots key i passed r) (hi : i < slots.size)
    (hc : Clear slots i d) {j : Nat} (hj : (i + d) % slots.size = j) {k : Key} {v : Value}
    (hs : slots[j]? = some (.full k v)) (hk : k.handle = key)
    (hu : ∀ {j' l w}, slots[j']? = some (.full l w) → l.handle = key → j' = j) : r = j := by
  induction hw generalizing d with
  | empty he =>
    cases d with
    | zero =>
      rw [← hj, Nat.add_zero, Nat.mod_eq_of_lt hi, he] at hs
      cases hs
    | succ d => exact absurd (by rwa [Nat.add_zero, Nat.mod_eq_of_lt hi]) (hc 0 (by omega))
  | tombstone ht _ ih =>
    cases d with
    | zero =>
      rw [← hj, Nat.add_zero, Nat.mod_eq_of_lt hi, ht] at hs
      cases hs
    | succ d => exact ih (Nat.mod_lt _ (by omega)) hc.tail (by rwa [succ_mod_add])
  | found hf hk' => exact hu hf hk'
  | other ho hne _ ih =>
    cases d with
    | zero =>
      rw [← hj, Nat.add_zero, Nat.mod_eq_of_lt hi, ho] at hs
      cases hs
      exact absurd hk hne
    | succ d => exact ih (Nat.mod_lt _ (by omega)) hc.tail (by rwa [succ_mod_add])

/-- What a search ends at: the first tombstone passed before, or a place that no empty one comes
before and that is free or holds the handle. -/
theorem Walk.cases_end (hw : Walk slots key i passed r) (hi : i < slots.size) :
    passed = some r ∨ ∃ d, (i + d) % slots.size = r ∧ Clear slots i d ∧
      (slots[r]? = some .empty ∨ slots[r]? = some .tombstone ∨
        ∃ k v, slots[r]? = some (.full k v) ∧ k.handle = key) := by
  induction hw with
  | @empty i passed he =>
    cases passed with
    | none => exact .inr ⟨0, Nat.mod_eq_of_lt hi, nofun, .inl he⟩
    | some j => exact .inl rfl
  | @tombstone i r passed ht _ ih =>
    have hne : slots[i]? ≠ some .empty := by simp [ht]
    rcases ih (Nat.mod_lt _ (by omega)) with hp | ⟨d, hr, hc, hend⟩
    · cases passed with
      | some j => exact .inl hp
      | none =>
        obtain rfl : i = r := by simpa using hp
        exact .inr ⟨0, Nat.mod_eq_of_lt hi, nofun, .inr (.inl ht)⟩
    · exact .inr ⟨d + 1, by rwa [← succ_mod_add], .cons hi hne hc, hend⟩
  | @found i _ k v hf hk => exact .inr ⟨0, Nat.mod_eq_of_lt hi, nofun, .inr (.inr ⟨k, v, hf, hk⟩)⟩
  | @other i _ _ _ _ ho _ _ ih =>
    rcases ih (Nat.mod_lt _ (by omega)) with hp | ⟨d, hr, hc, hend⟩
    · exact .inl hp
    · exact .inr ⟨d + 1, by rwa [← succ_mod_add], .cons hi (by simp [ho]) hc, hend⟩

variable {hash : UInt32} {isMatch : Handle → Bool} {found : Option Handle}

/-- A search by content gives a handle that is held and accepted. -/
theorem ContentWalk.accepted (hw : ContentWalk slots hash isMatch i found) {h : Handle}
    (hf : found = some h) : ∃ (j : Nat) (k : Key) (v : Value), slots[j]? = some (.full k v) ∧
      k.handle = h ∧ k.hash = hash ∧ isMatch h = true := by
  induction hw with
  | empty => cases hf
  | @found i k v hs hk =>
    obtain rfl : k.handle = h := by simpa using hf
    simp only [Slot.accepts, Bool.and_eq_true, decide_eq_true_eq] at hk
    exact ⟨i, k, v, hs, rfl, hk.1, hk.2⟩
  | other _ _ _ _ ih => exact ih hf

/-- A search by content that finds nothing passes by no place that is accepted. -/
theorem ContentWalk.refused (hw : ContentWalk slots hash isMatch i found) (hf : found = none)
    (hi : i < slots.size) (hc : Clear slots i d) {slot : Slot}
    (hs : slots[(i + d) % slots.size]? = some slot) : slot.accepts hash isMatch = false := by
  induction hw generalizing d with
  | empty he =>
    cases d with
    | zero =>
      rw [Nat.add_zero, Nat.mod_eq_of_lt hi, he] at hs
      cases hs
      rfl
    | succ d => exact absurd (by rwa [Nat.add_zero, Nat.mod_eq_of_lt hi]) (hc 0 (by omega))
  | found => cases hf
  | @other i _ _ ho _ hk _ ih =>
    cases d with
    | zero =>
      rw [Nat.add_zero, Nat.mod_eq_of_lt hi, ho] at hs
      cases hs
      exact hk
    | succ d =>
      rw [← succ_mod_add] at hs
      exact ih hf (Nat.mod_lt _ (by omega)) hc.tail hs

end Search

section Sound

variable {hashOf : Handle → UInt32} {slots : Array Slot} {key : Key} {v : Value} {r : Nat}

/-- The search for a handle that is held ends at its place. -/
theorem Sound.findSlot_eq (hs : Sound hashOf slots) (hsearch : Searchable slots)
    (hkey : key.hash = hashOf key.handle) {j : Nat} {k : Key} (hj : slots[j]? = some (.full k v))
    (hk : k.handle = key.handle) : findSlot slots key = j := by
  have hsize : 0 < slots.size := by
    have := (Array.getElem?_eq_some_iff.1 hj).1
    omega
  obtain ⟨d, hd, hc⟩ := hs.reached hj
  rw [hs.hash hj, hk, ← hkey] at hd hc
  exact (hsearch.walk key).eq_of_clear (home_lt hsize _) hc hd hj hk
    fun hl hk' => hs.unique hl hj (hk'.trans hk.symm)

/-- The search for a handle ends at a place it can be put: one that is reached from the place asked
for, and that is free or holds the handle. -/
theorem findSlot_spec (hsearch : Searchable slots) (hsize : 0 < slots.size) (key : Key) :
    Reached slots key.hash (findSlot slots key) ∧
      (slots[findSlot slots key]? = some .empty ∨ slots[findSlot slots key]? = some .tombstone ∨
        ∃ k v, slots[findSlot slots key]? = some (.full k v) ∧ k.handle = key.handle) := by
  rcases (hsearch.walk key).cases_end (home_lt hsize _) with hp | ⟨d, hd, hc, hend⟩
  · cases hp
  · exact ⟨⟨d, hd, hc⟩, hend⟩

/-- Filling or marking a place leaves clear places clear. -/
theorem Clear.set {i d : Nat} {slot : Slot} (h : Clear slots i d) (hslot : slot ≠ .empty) :
    Clear (slots.setIfInBounds r slot) i d := by
  intro e he
  rw [Array.size_setIfInBounds, Array.getElem?_setIfInBounds]
  split
  · split
    · simpa using hslot
    · simp
  · exact h e he

/-- Filling or marking a place leaves what is reached reached. -/
theorem Reached.set {hash : UInt32} {i : Nat} {slot : Slot} (h : Reached slots hash i)
    (hslot : slot ≠ .empty) : Reached (slots.setIfInBounds r slot) hash i := by
  obtain ⟨d, hd, hc⟩ := h
  have hhome : home (slots.setIfInBounds r slot) hash = home slots hash := by
    simp [home, Array.size_setIfInBounds]
  refine ⟨d, ?_, ?_⟩
  · rwa [hhome, Array.size_setIfInBounds]
  · rw [hhome]
    exact hc.set hslot

/-- What a place holds after one place was overwritten. -/
theorem full_setIfInBounds {slot : Slot} {i : Nat} {k : Key} {w : Value} (hr : r < slots.size) :
    (slots.setIfInBounds r slot)[i]? = some (.full k w) ↔
      (i = r ∧ slot = .full k w) ∨ (i ≠ r ∧ slots[i]? = some (.full k w)) := by
  rw [Array.getElem?_setIfInBounds]
  by_cases h : r = i
  · subst h
    simp [hr]
  · simp [h, Ne.symm h, eq_comm]

/-- Writing a key where it is reached, and where no other place has its handle, keeps the
invariant. -/
theorem Sound.write (hs : Sound hashOf slots) (hkey : key.hash = hashOf key.handle)
    (hr : r < slots.size) (hreach : Reached slots key.hash r)
    (halone : ∀ {j k w}, slots[j]? = some (.full k w) → k.handle = key.handle → j = r) :
    Sound hashOf (slots.setIfInBounds r (.full key v)) where
  hash h := by
    rcases (full_setIfInBounds hr).1 h with ⟨-, he⟩ | ⟨-, h⟩
    · cases he
      exact hkey
    · exact hs.hash h
  reached h := by
    rcases (full_setIfInBounds hr).1 h with ⟨rfl, he⟩ | ⟨-, h⟩
    · cases he
      exact hreach.set (by simp)
    · exact (hs.reached h).set (by simp)
  unique h h' heq := by
    rcases (full_setIfInBounds hr).1 h with ⟨hi, he⟩ | ⟨hi, hold⟩ <;>
      rcases (full_setIfInBounds hr).1 h' with ⟨hj, he'⟩ | ⟨hj, hold'⟩
    · exact hi.trans hj.symm
    · cases he
      exact absurd (halone hold' heq.symm) hj
    · cases he'
      exact absurd (halone hold heq) hi
    · exact hs.unique hold hold' heq

/-- Burying a key keeps the invariant. -/
theorem Sound.bury (hs : Sound hashOf slots) (hr : r < slots.size) :
    Sound hashOf (slots.setIfInBounds r .tombstone) where
  hash h := by
    rcases (full_setIfInBounds hr).1 h with ⟨-, he⟩ | ⟨-, h⟩
    · cases he
    · exact hs.hash h
  reached h := by
    rcases (full_setIfInBounds hr).1 h with ⟨-, he⟩ | ⟨-, h⟩
    · cases he
    · exact (hs.reached h).set (by simp)
  unique h h' heq := by
    rcases (full_setIfInBounds hr).1 h with ⟨-, he⟩ | ⟨-, h⟩
    · cases he
    rcases (full_setIfInBounds hr).1 h' with ⟨-, he'⟩ | ⟨-, h'⟩
    · cases he'
    · exact hs.unique h h' heq

/-- A place with a handle is the only one that a write there changes. -/
theorem holds_write (hr : r < slots.size)
    (halone : ∀ {j k w}, slots[j]? = some (.full k w) → k.handle = key.handle → j = r)
    (hfree : ∀ {k w}, slots[r]? = some (.full k w) → k.handle = key.handle) {h : Handle}
    {w : Value} :
    Holds (slots.setIfInBounds r (.full key v)) h w ↔
      if h = key.handle then w = v else Holds slots h w := by
  constructor
  · rintro ⟨i, k, hi, rfl⟩
    rcases (full_setIfInBounds hr).1 hi with ⟨-, he⟩ | ⟨hne, hi⟩
    · cases he
      simp
    · rw [if_neg fun heq => hne (halone hi heq)]
      exact ⟨i, k, hi, rfl⟩
  · split
    · next heq =>
      rintro rfl
      exact ⟨r, key, (full_setIfInBounds hr).2 (.inl ⟨rfl, rfl⟩), heq.symm⟩
    · next hne =>
      rintro ⟨i, k, hi, rfl⟩
      refine ⟨i, k, (full_setIfInBounds hr).2 (.inr ⟨?_, hi⟩), rfl⟩
      rintro rfl
      exact hne (hfree hi)

/-- Burying the place of a handle removes just that handle. -/
theorem holds_bury (hs : Sound hashOf slots) {k : Key} (hr : slots[r]? = some (.full k v))
    {h : Handle} {w : Value} :
    Holds (slots.setIfInBounds r .tombstone) h w ↔ h ≠ k.handle ∧ Holds slots h w := by
  have hlt : r < slots.size := (Array.getElem?_eq_some_iff.1 hr).1
  constructor
  · rintro ⟨i, l, hi, rfl⟩
    rcases (full_setIfInBounds hlt).1 hi with ⟨-, he⟩ | ⟨hne, hi⟩
    · cases he
    · exact ⟨fun heq => hne (hs.unique hi hr heq), i, l, hi, rfl⟩
  · rintro ⟨hne, i, l, hi, rfl⟩
    refine ⟨i, l, (full_setIfInBounds hlt).2 (.inr ⟨?_, hi⟩), rfl⟩
    rintro rfl
    rw [hr] at hi
    cases hi
    exact hne rfl

end Sound

/-! ## Counting places -/

/-- Whether a place holds a key. -/
def Slot.isFull : Slot → Bool
  | .full _ _ => true
  | _ => false

/-- Whether a place is a tombstone. -/
def Slot.isTombstone : Slot → Bool
  | .tombstone => true
  | _ => false

@[simp] theorem Slot.isFull_empty : Slot.empty.isFull = false := rfl
@[simp] theorem Slot.isFull_tombstone : Slot.tombstone.isFull = false := rfl
@[simp] theorem Slot.isFull_full (k : Key) (v : Value) : (Slot.full k v).isFull = true := rfl
@[simp] theorem Slot.isTombstone_empty : Slot.empty.isTombstone = false := rfl
@[simp] theorem Slot.isTombstone_tombstone : Slot.tombstone.isTombstone = true := rfl
@[simp] theorem Slot.isTombstone_full (k : Key) (v : Value) :
    (Slot.full k v).isTombstone = false := rfl

/-- Places that are neither full nor tombstones are empty. -/
theorem exists_empty {slots : Array Slot}
    (h : slots.countP Slot.isFull + slots.countP Slot.isTombstone < slots.size) :
    ∃ i : Nat, slots[i]? = some .empty := by
  by_contra hno
  push Not at hno
  have htomb : slots.countP Slot.isTombstone = slots.countP (fun a => decide ¬a.isFull = true) := by
    rw [← Array.countP_toList, ← Array.countP_toList]
    apply List.countP_congr
    intro a ha
    obtain ⟨i, hi⟩ := List.getElem?_of_mem ha
    rw [Array.getElem?_toList] at hi
    cases a with
    | empty => exact absurd hi (hno i)
    | tombstone => simp
    | full k v => simp
  rw [htomb] at h
  have : slots.size = slots.countP Slot.isFull + slots.countP (fun a => decide ¬a.isFull = true) :=
    Array.size_eq_countP_add_countP
  omega

/-- Overwriting a place moves one from the count of what stood there to that of what stands
there. -/
theorem countP_setIfInBounds {slots : Array Slot} {r : Nat} {old : Slot} (p : Slot → Bool)
    (hr : slots[r]? = some old) (slot : Slot) :
    (slots.setIfInBounds r slot).countP p + (p old).toNat = slots.countP p + (p slot).toNat := by
  obtain ⟨hlt, hget⟩ := Array.getElem?_eq_some_iff.1 hr
  have hpos : (p old).toNat ≤ slots.countP p := by
    cases hp : p old with
    | false => exact Nat.zero_le _
    | true => exact Array.countP_pos_iff.2 ⟨old, hget ▸ Array.getElem_mem hlt, hp⟩
  rw [Array.setIfInBounds, dif_pos hlt, Array.countP_set]
  subst hget
  cases hp : p slots[r] <;> cases hq : p slot <;> simp_all

end ScriptEngine.NameTable
