import ScriptEngine.Proofs.Interning

/-!
# One interned string for each text

Names are compared by handle, so the set of interned strings must have one string for each text, and
must not forget a live one. `Stocked` lists the heaps that the operations on strings, allocation of
other objects and collections make from an empty one. In all of them the set has exactly the live
strings that are marked as interned, each once and under its hash; `Canonical` says so and what
follows for interning, looking up and taking keys.
-/

namespace ScriptEngine.Heap

open NameTable

/-- The heaps that operations on strings, allocation and collections make. -/
inductive Stocked : Heap → Prop
  | create (firstThreshold : Nat) (growRate : Number) (maxBytes : Option Nat) :
    Stocked (create firstThreshold growRate maxBytes)
  | intern {heap : Heap} (data : ByteArray) (hs : Stocked heap) : Stocked (heap.intern data).1
  | internKey {heap : Heap} (name : String) (hs : Stocked heap) : Stocked (heap.internKey name).1
  | newString {heap : Heap} (data : ByteArray) (hs : Stocked heap) :
    Stocked (heap.newString data).1
  | keyOf {heap : Heap} (h : Handle) (hs : Stocked heap) : Stocked (heap.keyOf h).1
  | insert {heap : Heap} (o : Object) (ho : ∀ s, o ≠ .string s) (hs : Stocked heap) :
    Stocked (heap.insert o).1
  | collect {heap : Heap} (roots : List Handle) (hs : Stocked heap) :
    Stocked (heap.collect roots).1

/-- The string behind a handle is live, marked as interned and has the given octets. -/
def HoldsInterned (heap : Heap) (data : ByteArray) (h : Handle) : Prop :=
  heap.string? h = some (internedString data)

/-- The invariant: strings know their hashes, and no string that is marked as interned is missing
from the set. -/
structure Registered (heap : Heap) : Prop extends Interned heap where
  /-- Each string has the hash of its octets. -/
  hashes : ∀ {h s}, heap.string? h = some s → s.hash = Text.fnv1a s.data
  /-- Each string marked as interned is in the set. -/
  complete : ∀ {h s}, heap.string? h = some s → s.interned = true → ⟨h, s.hash⟩ ∈ heap.keys

/-! ## Strings after an operation -/

section Strings

variable {heap : Heap} {h x : Handle} {data : ByteArray}

/-- After a string was inserted, its handle stands for it and every other for what it stood for. -/
theorem string?_insert (ht : Tidy heap) (s : StringObject) (x : Handle) :
    (heap.insert (.string s)).1.string? x =
      if x = (heap.insert (.string s)).2 then some s else heap.string? x := by
  unfold string?
  rw [get?_insert ht]
  by_cases heq : x = (heap.insert (.string s)).2
  · rw [if_pos heq, if_pos heq]
  · rw [if_neg heq, if_neg heq]

/-- Inserting something else than a string makes no string. -/
theorem string?_insert_other (ht : Tidy heap) {o : Object} (ho : ∀ s, o ≠ .string s)
    (x : Handle) {s : StringObject} (hs : (heap.insert o).1.string? x = some s) :
    heap.string? x = some s := by
  have hget := get?_of_string? hs
  rw [get?_insert ht] at hget
  split at hget
  · exact absurd (Option.some.inj hget) (ho s)
  · unfold string?
    rw [hget]

/-- A text that is there already is not interned again. -/
theorem intern_of_findInterned (hf : heap.findInterned data (Text.fnv1a data) = some h) :
    heap.intern data = (heap, h) := by
  unfold Heap.intern
  simp only [hf]

/-- Interning adds at most the string it gives. -/
theorem Interned.string?_intern (hi : Interned heap) (data : ByteArray) (x : Handle) :
    (heap.intern data).1.string? x =
      if x = (heap.intern data).2 then some (internedString data) else heap.string? x := by
  cases hf : heap.findInterned data (Text.fnv1a data) with
  | some h =>
    rw [intern_of_findInterned hf]
    split
    · next heq =>
      subst heq
      exact (hi.findInterned.1 hf).2
    · rfl
  | none =>
    have hstrings : ∀ x, (heap.intern data).1.string? x =
        (heap.insert (.string (internedString data))).1.string? x := by
      intro x
      unfold Heap.intern
      simp only [hf]
      rfl
    have hhandle : (heap.intern data).2 = (heap.insert (.string (internedString data))).2 := by
      unfold Heap.intern
      simp only [hf]
      rfl
    rw [hstrings, hhandle, string?_insert hi.toTidy]

end Strings

/-! ## The invariant -/

section Registered

variable {heap : Heap} {h : Handle} {data : ByteArray} {name : String}

/-- A heap starts with its interned strings registered: none. -/
theorem registered_create (firstThreshold : Nat) (growRate : Number) (maxBytes : Option Nat) :
    Registered (create firstThreshold growRate maxBytes) where
  toTidy := (Made.create firstThreshold growRate maxBytes).tidy
  contents := nofun
  distinct := nofun
  hashes := nofun
  complete := nofun

/-- Interning keeps the interned strings registered. -/
theorem Registered.intern (hr : Registered heap) (data : ByteArray) :
    Registered (heap.intern data).1 := by
  obtain ⟨hi, hfound, -, hkeys⟩ := hr.toInterned.intern data
  refine ⟨hi, ?_, ?_⟩
  · intro x s hs
    rw [hr.string?_intern] at hs
    split at hs
    · cases hs
      rfl
    · exact hr.hashes hs
  · intro x s hs hmarked
    rw [hr.string?_intern] at hs
    rw [hkeys]
    split at hs
    · next heq =>
      subst heq
      cases hs
      exact .inl rfl
    · exact .inr (hr.complete hs hmarked)

/-- A string outside the set may have any octets. -/
theorem Registered.newString (hr : Registered heap) (data : ByteArray) :
    Registered (heap.newString data).1 := by
  have hstrings := string?_insert hr.toTidy ⟨data, Text.fnv1a data, false⟩
  have hkeys : (heap.newString data).1.keys = heap.keys :=
    congrArg (fun t => t.toList.map Prod.fst) (insert_strings heap _)
  refine ⟨(hr.toInterned.insert _).1, ?_, ?_⟩
  · intro x s hs
    rw [show (heap.newString data).1.string? x = _ from hstrings x] at hs
    split at hs
    · cases hs
      rfl
    · exact hr.hashes hs
  · intro x s hs hmarked
    rw [show (heap.newString data).1.string? x = _ from hstrings x] at hs
    rw [hkeys]
    split at hs
    · cases hs
      cases hmarked
    · exact hr.complete hs hmarked

/-- Inserting something else than a string keeps the interned strings registered. -/
theorem Registered.insert (hr : Registered heap) {o : Object} (ho : ∀ s, o ≠ .string s) :
    Registered (heap.insert o).1 := by
  have hkeys : (heap.insert o).1.keys = heap.keys :=
    congrArg (fun t => t.toList.map Prod.fst) (insert_strings heap o)
  refine ⟨(hr.toInterned.insert o).1, ?_, ?_⟩
  · intro x s hs
    exact hr.hashes (string?_insert_other hr.toTidy ho x hs)
  · intro x s hs hmarked
    rw [hkeys]
    exact hr.complete (string?_insert_other hr.toTidy ho x hs) hmarked

/-- A collection takes an entry out of the set just in case it frees the string. -/
theorem Registered.collect (hr : Registered heap) (roots : List Handle) :
    Registered (heap.collect roots).1 := by
  have hold : ∀ {x s}, (heap.collect roots).1.string? x = some s →
      (heap.collect roots).1.isLive x = true ∧ heap.string? x = some s := by
    intro x s hs
    have hlive := isLive_of_string? hs
    exact ⟨hlive, string?_congr (get?_collect hlive) ▸ hs⟩
  refine ⟨(hr.toInterned.collect roots).1, ?_, ?_⟩
  · intro x s hs
    exact hr.hashes (hold hs).2
  · intro x s hs hmarked
    obtain ⟨hlive, hs⟩ := hold hs
    obtain ⟨e, he, hkey⟩ := List.mem_map.1 (hr.complete hs hmarked)
    refine List.mem_map.2 ⟨e, hr.toTidy.mem_strings_collect.2 ⟨he, ?_⟩, hkey⟩
    rw [hkey]
    exact hlive

/-- A string is interned just in case its entry is in the set. -/
theorem Registered.holdsInterned_iff (hr : Registered heap) :
    HoldsInterned heap data h ↔ heap.findInterned data (Text.fnv1a data) = some h := by
  rw [hr.findInterned]
  exact ⟨fun hs => ⟨hr.complete hs rfl, hs⟩, And.right⟩

/-- Interned strings have the form that interning gives them. -/
theorem Registered.eq_internedString (hr : Registered heap) {s : StringObject}
    (hs : heap.string? h = some s) (hmarked : s.interned = true) :
    HoldsInterned heap s.data h := by
  unfold HoldsInterned internedString
  rw [hs, ← hr.hashes hs, ← hmarked]

/-- The key of a string has the handle that interning its octets gives, interned or not. -/
theorem Registered.keyOf_eq (hr : Registered heap) {s : StringObject}
    (hs : heap.string? h = some s) :
    heap.keyOf h =
      ((heap.intern s.data).1, some ⟨(heap.intern s.data).2, Text.fnv1a s.data⟩) := by
  unfold Heap.keyOf
  simp only [hs]
  split
  · next hmarked =>
    have hf := hr.holdsInterned_iff.1 (hr.eq_internedString hs hmarked)
    rw [intern_of_findInterned hf, hr.hashes hs]
  · rw [hr.hashes hs]

/-- Making a key keeps the interned strings registered. -/
theorem Registered.keyOf (hr : Registered heap) (h : Handle) : Registered (heap.keyOf h).1 := by
  cases hs : heap.string? h with
  | none =>
    have hsame : heap.keyOf h = (heap, none) := by
      unfold Heap.keyOf
      simp only [hs]
    rw [hsame]
    exact hr
  | some s =>
    rw [hr.keyOf_eq hs]
    exact hr.intern s.data

/-- Every heap that the operations make is registered. -/
theorem Stocked.registered (hs : Stocked heap) : Registered heap := by
  induction hs with
  | create firstThreshold growRate maxBytes => exact registered_create firstThreshold growRate maxBytes
  | intern data _ ih => exact ih.intern data
  | internKey name _ ih => exact ih.intern (Text.octets name)
  | newString data _ ih => exact ih.newString data
  | keyOf h _ ih => exact ih.keyOf h
  | insert o ho _ ih => exact ih.insert ho
  | collect roots _ ih => exact ih.collect roots

end Registered

/-! ## What the set is good for -/

/-- The set of interned strings has the live interned strings, and the operations on strings go by
it. -/
structure Canonical (heap : Heap) : Prop where
  /-- An entry is a live string marked as interned, under the hash of its octets. -/
  entries : ∀ k, k ∈ heap.keys ↔
    ∃ s, heap.string? k.handle = some s ∧ s.interned = true ∧ k.hash = Text.fnv1a s.data
  /-- No string has two entries. -/
  once : (heap.keys.map Key.handle).Nodup
  /-- Interned strings with equal octets are the same. -/
  unique : ∀ h h' s s', heap.string? h = some s → heap.string? h' = some s' →
    s.interned = true → s'.interned = true → s.data = s'.data → h = h'
  /-- Interning gives a live interned string of the octets. -/
  interns : ∀ data, ∃ s, (heap.intern data).1.string? (heap.intern data).2 = some s ∧
    s.interned = true ∧ s.data = data
  /-- Where there is one already, it is given and nothing changes. -/
  reuses : ∀ data h s, heap.string? h = some s → s.interned = true → s.data = data →
    heap.intern data = (heap, h)
  /-- Octets are found just in case a live interned string has them. -/
  finds : ∀ data h, heap.findInterned data (Text.fnv1a data) = some h ↔
    ∃ s, heap.string? h = some s ∧ s.interned = true ∧ s.data = data
  /-- So are texts, under the hash of their octets. -/
  looksUp : ∀ name k, heap.lookupKey name = some k ↔ k.hash = Text.fnv1a (Text.octets name) ∧
    ∃ s, heap.string? k.handle = some s ∧ s.interned = true ∧ s.data = Text.octets name
  /-- Strings with equal octets have equal keys, whether the second key is taken in the same heap or
  after the first one. -/
  keys : ∀ a b s t, heap.string? a = some s → heap.string? b = some t → s.data = t.data →
    ∃ k, (heap.keyOf a).2 = some k ∧ (heap.keyOf b).2 = some k ∧
      ((heap.keyOf a).1.keyOf b).2 = some k

section Canonical

variable {heap : Heap} {h : Handle} {data : ByteArray}

/-- The set holds a handle for a text if and only if an interned string of that text has the
handle. -/
theorem Registered.holdsInterned_iff_exists (hr : Registered heap) : HoldsInterned heap data h ↔
    ∃ s, heap.string? h = some s ∧ s.interned = true ∧ s.data = data := by
  constructor
  · intro hs
    exact ⟨_, hs, rfl, rfl⟩
  · rintro ⟨s, hs, hmarked, rfl⟩
    exact hr.eq_internedString hs hmarked

/-- The keys are those of the interned strings, each with the hash of its text. -/
theorem Registered.mem_keys (hr : Registered heap) {k : Key} : k ∈ heap.keys ↔
    ∃ s, heap.string? k.handle = some s ∧ s.interned = true ∧ k.hash = Text.fnv1a s.data := by
  constructor
  · intro hk
    obtain ⟨data, hs, hh⟩ := hr.contents k hk
    exact ⟨_, hs, rfl, hh⟩
  · rintro ⟨s, hs, hmarked, hh⟩
    have hmem := hr.complete hs hmarked
    rwa [hr.hashes hs, ← hh] at hmem

/-- No two keys share a handle. -/
theorem Registered.nodup_handles (hr : Registered heap) : (heap.keys.map Key.handle).Nodup := by
  obtain ⟨hashOf, m, hrep, -⟩ := hr.strings
  unfold keys
  rw [List.map_map]
  exact hrep.nodup

/-- A text that was interned is found. -/
theorem Registered.findInterned_intern (hr : Registered heap) (data : ByteArray) :
    (heap.intern data).1.findInterned data (Text.fnv1a data) = some (heap.intern data).2 :=
  (hr.toInterned.intern data).2.1

/-- A string keeps its octets while other octets are interned. -/
theorem Registered.string?_intern_of_live (hr : Registered heap) {s : StringObject}
    (hs : heap.string? h = some s) (data : ByteArray) :
    (heap.intern data).1.string? h = some s := by
  have hold := (hr.toInterned.intern data).2.2.1 h (isLive_of_string? hs)
  rw [string?_congr hold, hs]

/-- Strings of one text have one key, whichever of them asks first. -/
theorem Registered.keyOf_agree (hr : Registered heap) {a b : Handle} {s t : StringObject}
    (ha : heap.string? a = some s) (hb : heap.string? b = some t) (hdata : s.data = t.data) :
    ∃ k, (heap.keyOf a).2 = some k ∧ (heap.keyOf b).2 = some k ∧
      ((heap.keyOf a).1.keyOf b).2 = some k := by
  refine ⟨⟨(heap.intern s.data).2, Text.fnv1a s.data⟩, ?_, ?_, ?_⟩
  · rw [hr.keyOf_eq ha]
  · rw [hr.keyOf_eq hb, hdata]
  · have hb' := hr.string?_intern_of_live hb s.data
    rw [hr.keyOf_eq ha, (hr.intern s.data).keyOf_eq hb', ← hdata,
      intern_of_findInterned (hr.findInterned_intern s.data)]

/-- Whatever is done with strings, other objects and collections, the set of interned strings has
exactly the live interned strings, so that a text has one interned string and one key. -/
theorem Stocked.canonical (hs : Stocked heap) : Canonical heap where
  entries _ := hs.registered.mem_keys
  once := hs.registered.nodup_handles
  unique h h' s s' hh hh' hmarked hmarked' hdata := by
    have hr := hs.registered
    have hf := hr.holdsInterned_iff.1 (hr.eq_internedString hh hmarked)
    have hf' := hr.holdsInterned_iff.1 (hr.eq_internedString hh' hmarked')
    rw [hdata, hf'] at hf
    exact (Option.some.inj hf).symm
  interns data := by
    have hr := hs.registered
    have hf := (hr.intern data).holdsInterned_iff.2 (hr.findInterned_intern data)
    exact (hr.intern data).holdsInterned_iff_exists.1 hf
  reuses data h s hh hmarked hdata := by
    have hr := hs.registered
    have hf := hr.holdsInterned_iff.1 (hr.eq_internedString hh hmarked)
    rw [← hdata]
    exact intern_of_findInterned hf
  finds data h := by
    have hr := hs.registered
    rw [← hr.holdsInterned_iff, hr.holdsInterned_iff_exists]
  looksUp name k := by
    have hr := hs.registered
    rw [← hr.holdsInterned_iff_exists, hr.holdsInterned_iff]
    unfold Heap.lookupKey
    rw [Option.map_eq_some_iff]
    constructor
    · rintro ⟨h, hf, rfl⟩
      exact ⟨rfl, hf⟩
    · rintro ⟨hh, hf⟩
      exact ⟨k.handle, hf, by rw [← hh]⟩
  keys _ _ _ _ ha hb hdata := hs.registered.keyOf_agree ha hb hdata

end Canonical

/-- A heap where a text was interned twice and forgotten, its slot went to a string of the same text
outside the set, and the text was interned again for a key of that string. -/
def reusedSlot : Heap :=
  let heap := ((create 0 .zero none).intern ⟨#[7]⟩).1
  let heap := ((heap.internKey "a").1.internKey "a").1
  let heap := ((heap.collect [⟨0⟩]).1.newString (Text.octets "a")).1
  ((heap.insert (.list #[])).1.keyOf ⟨1⟩).1

theorem stocked_reusedSlot : Stocked reusedSlot :=
  (((((((Stocked.create 0 .zero none).intern ⟨#[7]⟩).internKey "a").internKey "a").collect
    [⟨0⟩]).newString (Text.octets "a")).insert (.list #[]) nofun).keyOf ⟨1⟩

/-- The string in the reused slot is not the one that is found. -/
theorem canonical_reusedSlot : (reusedSlot.lookupKey "a").map (·.handle) = some ⟨3⟩ ∧
    (reusedSlot.string? ⟨1⟩).map (·.interned) = some false ∧ Canonical reusedSlot :=
  ⟨by decide +kernel, by decide +kernel, stocked_reusedSlot.canonical⟩

end ScriptEngine.Heap
