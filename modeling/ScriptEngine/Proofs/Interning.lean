import ScriptEngine.Proofs.Collecting

/-!
# Interned strings and tables of names

Interning gives each text at most one string object, so a text stands for a key as long as its
string lives. `Interned` is the invariant that makes it so. Tables of names are then maps from texts:
`Binds` says which, and inserting under the key of a text binds the text, whatever else the heap
does.
-/

namespace ScriptEngine.Heap

open NameTable

/-- The string object that interning makes of some octets. -/
def internedString (data : ByteArray) : StringObject := ⟨data, Text.fnv1a data, true⟩

/-- The keys of the interned strings. -/
def keys (heap : Heap) : List Key := heap.strings.toList.map Prod.fst

/-- The hash of the string behind a handle. -/
def hashOf (heap : Heap) (h : Handle) : UInt32 := ((heap.string? h).map (·.hash)).getD 0

/-- The set of interned strings holds strings, with their hashes, and no octets twice. -/
structure Interned (heap : Heap) : Prop extends Tidy heap where
  /-- Each key is that of an interned string. -/
  contents : ∀ k ∈ heap.keys, ∃ data, heap.string? k.handle = some (internedString data) ∧
    k.hash = Text.fnv1a data
  /-- No two strings have the same octets. -/
  distinct : ∀ k ∈ heap.keys, ∀ k' ∈ heap.keys, heap.string? k.handle = heap.string? k'.handle →
    k = k'

/-! ## Objects after an operation -/

section Objects

variable {heap : Heap} {h x : Handle} {o : Object}

/-- The new object is there, and the others are as they were. -/
theorem get?_insert (ht : Tidy heap) (o : Object) (x : Handle) :
    (heap.insert o).1.get? x = if x = (heap.insert o).2 then some o else heap.get? x := by
  obtain ⟨-, c, rfl, hcells⟩ := ht.insert_cells o
  unfold get?
  rw [hcells]
  by_cases heq : x = (heap.insert c.object).2
  · rw [if_pos heq, if_pos (congrArg Handle.index heq)]
    rfl
  · rw [if_neg heq, if_neg fun hi => heq (congrArg Handle.mk hi)]

/-- What was live is as it was. -/
theorem get?_insert_of_live (ht : Tidy heap) (o : Object) (hx : heap.isLive x = true) :
    (heap.insert o).1.get? x = heap.get? x := by
  rw [get?_insert ht, if_neg]
  rintro rfl
  rw [(ht.insert_cells o).1] at hx
  cases hx

/-- The object is changed, and the others are as they were. -/
theorem get?_update (heap : Heap) (h x : Handle) (f : Object → Object) :
    (heap.update h f).get? x = if x = h then (heap.get? x).map f else heap.get? x := by
  obtain ⟨cells, free, strings, bytes, next, first, rate, limit, disabled, stats, clear⟩ := heap
  simp only [get?, Heap.update, Array.getElem?_modify]
  by_cases heq : x = h
  · subst heq
    simp only [if_true]
    cases cells[x.index]? with
    | none => rfl
    | some c => cases c <;> rfl
  · rw [if_neg heq, if_neg fun hi => heq (congrArg Handle.mk hi.symm)]

/-- A new size changes no object. -/
theorem get?_resize (heap : Heap) (h x : Handle) : (heap.resize h).get? x = heap.get? x := by
  obtain ⟨cells, free, strings, bytes, next, first, rate, limit, disabled, stats, clear⟩ := heap
  unfold Heap.resize
  simp only
  split
  · next cell hcell =>
    simp only [get?, Array.getElem?_modify]
    split
    · next heq =>
      rw [← heq, hcell]
      rfl
    · rfl
  · rfl

/-- A string is an object of the heap. -/
theorem get?_of_string? {s : StringObject} (hs : heap.string? h = some s) :
    heap.get? h = some (.string s) := by
  unfold string? at hs
  split at hs
  · next s' hg =>
    cases hs
    exact hg
  · cases hs

/-- A string is live. -/
theorem isLive_of_string? {s : StringObject} (hs : heap.string? h = some s) :
    heap.isLive h = true := by
  unfold isLive
  rw [get?_of_string? hs]
  rfl

@[simp] theorem update_strings (heap : Heap) (h : Handle) (f : Object → Object) :
    (heap.update h f).strings = heap.strings := by
  cases heap
  rfl

@[simp] theorem resize_strings (heap : Heap) (h : Handle) :
    (heap.resize h).strings = heap.strings := by
  cases heap
  unfold Heap.resize
  simp only
  split <;> rfl

/-- A string that stays the same object stays the same string. -/
theorem string?_congr {heap' : Heap} (hg : heap'.get? h = heap.get? h) :
    heap'.string? h = heap.string? h := by
  unfold string?
  rw [hg]

end Objects

/-! ## Finding interned strings -/

section Finding

variable {heap heap' : Heap} {k : Key} {h : Handle} {data : ByteArray} {name : String}

/-- A key is of a live string. -/
theorem Interned.isLive (hi : Interned heap) (hk : k ∈ heap.keys) : heap.isLive k.handle = true := by
  obtain ⟨data, hs, -⟩ := hi.contents k hk
  exact isLive_of_string? hs

/-- Octets are compared octet by octet. -/
theorem beq_octets {a b : ByteArray} : (a == b) = true ↔ a = b := by
  obtain ⟨a⟩ := a
  obtain ⟨b⟩ := b
  change (a == b) = true ↔ _
  simp

/-- Whether a handle is taken for the interned string of some octets. -/
def hasOctets (heap : Heap) (data : ByteArray) (h : Handle) : Bool :=
  match heap.string? h with
  | some s => s.data == data
  | none => data.isEmpty

/-- A string is found by its octets just in case it is interned. -/
theorem Interned.findInterned (hi : Interned heap) :
    heap.findInterned data (Text.fnv1a data) = some h ↔
      ⟨h, Text.fnv1a data⟩ ∈ heap.keys ∧ heap.string? h = some (internedString data) := by
  obtain ⟨hashOf, m, hr, -⟩ := hi.strings
  have hmem : ∀ {k : Key}, k ∈ heap.keys ↔ k.hash = hashOf k.handle ∧ (m k.handle).isSome := by
    intro k
    unfold keys
    rw [List.mem_map]
    constructor
    · rintro ⟨⟨k, v⟩, he, rfl⟩
      obtain ⟨hh, hm⟩ := hr.mem_toList.1 he
      exact ⟨hh, by rw [hm]; rfl⟩
    · rintro ⟨hh, hm⟩
      obtain ⟨v, hv⟩ := Option.isSome_iff_exists.1 hm
      exact ⟨(k, v), hr.mem_toList.2 ⟨hh, hv⟩, rfl⟩
  have hdata : ∀ {h}, (m h).isSome → hashOf h = Text.fnv1a data →
      (heap.hasOctets data h = true ↔ heap.string? h = some (internedString data)) := by
    intro h hm hh
    obtain ⟨data', hs, -⟩ := hi.contents ⟨h, hashOf h⟩ (hmem.2 ⟨rfl, hm⟩)
    unfold hasOctets
    rw [show heap.string? h = _ from hs]
    simp only [internedString, beq_octets, Option.some.injEq, StringObject.mk.injEq, and_true]
    exact ⟨fun h => ⟨h, h ▸ rfl⟩, fun h => h.1⟩
  have hfound := hr.findContent (Text.fnv1a data) (heap.hasOctets data)
  have hsearch : heap.findInterned data (Text.fnv1a data) =
      heap.strings.findContent (Text.fnv1a data) (heap.hasOctets data) := rfl
  rw [hsearch]
  constructor
  · intro heq
    rw [heq] at hfound
    obtain ⟨hm, hh, hmatch⟩ := hfound
    exact ⟨hmem.2 ⟨hh.symm, hm⟩, (hdata hm hh).1 hmatch⟩
  · rintro ⟨hk, hs⟩
    obtain ⟨hh, hm⟩ := hmem.1 hk
    split at hfound
    · next h' heq =>
      -- what is found has the same octets, so it is the same string
      obtain ⟨hm', hh', hmatch⟩ := hfound
      have hs' := (hdata hm' hh').1 hmatch
      have hsame := hi.distinct ⟨h', Text.fnv1a data⟩ (hmem.2 ⟨hh'.symm, hm'⟩) _ hk
        (hs'.trans hs.symm)
      exact heq.trans (congrArg (fun k : Key => some k.handle) hsame)
    · have := hfound h hm hh.symm
      rw [(hdata hm hh.symm).2 hs] at this
      cases this

/-- A text has the key of the interned string with its octets. -/
theorem Interned.lookupKey (hi : Interned heap) :
    heap.lookupKey name = some k ↔
      k ∈ heap.keys ∧ heap.string? k.handle = some (internedString (Text.octets name)) := by
  unfold Heap.lookupKey
  simp only [Option.map_eq_some_iff, hi.findInterned]
  constructor
  · rintro ⟨h, hk, rfl⟩
    exact hk
  · rintro ⟨hk, hs⟩
    obtain ⟨data, hs', hh⟩ := hi.contents k hk
    obtain rfl : data = Text.octets name := by
      have := hs'.symm.trans hs
      simp only [internedString, Option.some.injEq, StringObject.mk.injEq] at this
      exact this.1
    obtain ⟨h, hash⟩ := k
    obtain rfl : hash = _ := hh
    exact ⟨h, ⟨hk, hs⟩, rfl⟩

/-- The key of a text has the hash of its string. -/
theorem Interned.hash_lookupKey (hi : Interned heap) (hk : heap.lookupKey name = some k) :
    k.hash = heap.hashOf k.handle ∧ k.hash = Text.fnv1a (Text.octets name) := by
  obtain ⟨hmem, hs⟩ := hi.lookupKey.1 hk
  obtain ⟨data, hs', hh⟩ := hi.contents k hmem
  have heq := hs'.symm.trans hs
  simp only [internedString, Option.some.injEq, StringObject.mk.injEq] at heq
  refine ⟨?_, heq.1 ▸ hh⟩
  unfold hashOf
  rw [hs, hh, heq.1]
  rfl

/-- Texts with the same string are equal. -/
theorem Interned.lookupKey_inj (hi : Interned heap) {name' : String} {k' : Key}
    (hk : heap.lookupKey name = some k) (hk' : heap.lookupKey name' = some k')
    (heq : k.handle = k'.handle) : name = name' := by
  have hs := (hi.lookupKey.1 hk).2
  have hs' := (hi.lookupKey.1 hk').2
  rw [heq, hs'] at hs
  simp only [internedString, Option.some.injEq, StringObject.mk.injEq] at hs
  exact String.toByteArray_inj.1 hs.1.symm

/-- A heap whose interned strings are among those of another one. -/
theorem Interned.of_subset (hi : Interned heap) (ht : Tidy heap')
    (hk : ∀ k ∈ heap'.keys, k ∈ heap.keys)
    (hs : ∀ k ∈ heap'.keys, heap'.string? k.handle = heap.string? k.handle) : Interned heap' where
  toTidy := ht
  contents k hk' := by
    rw [hs k hk']
    exact hi.contents k (hk k hk')
  distinct k hk₁ k' hk₂ heq := by
    rw [hs k hk₁, hs k' hk₂] at heq
    exact hi.distinct k (hk k hk₁) k' (hk k' hk₂) heq

/-- A text has the key that it had, if no key was added. -/
theorem Interned.lookupKey_of_subset (hi : Interned heap) (hi' : Interned heap')
    (hk : ∀ k ∈ heap'.keys, k ∈ heap.keys)
    (hs : ∀ k ∈ heap'.keys, heap'.string? k.handle = heap.string? k.handle) :
    heap'.lookupKey name = some k ↔ heap.lookupKey name = some k ∧ k ∈ heap'.keys := by
  rw [hi.lookupKey, hi'.lookupKey]
  constructor
  · rintro ⟨hmem, hstr⟩
    exact ⟨⟨hk k hmem, hs k hmem ▸ hstr⟩, hmem⟩
  · rintro ⟨⟨-, hstr⟩, hmem⟩
    exact ⟨hmem, hs k hmem ▸ hstr⟩

/-- Where the interned strings stay as they are, so do the keys of texts. -/
theorem Interned.same_keys (hi : Interned heap) (ht : Tidy heap') (hk : heap'.strings = heap.strings)
    (hs : ∀ k ∈ heap.keys, heap'.string? k.handle = heap.string? k.handle) :
    Interned heap' ∧ ∀ name, heap'.lookupKey name = heap.lookupKey name := by
  have hkeys : heap'.keys = heap.keys := congrArg (fun t => t.toList.map Prod.fst) hk
  have hi' : Interned heap' := hi.of_subset ht (hkeys ▸ fun _ h => h) (hkeys ▸ hs)
  refine ⟨hi', fun name => Option.ext fun k => ?_⟩
  rw [hi.lookupKey_of_subset hi' (hkeys ▸ fun _ h => h) (hkeys ▸ hs), hkeys]
  exact ⟨fun h => h.1, fun h => ⟨h, (hi.lookupKey.1 h).1⟩⟩

end Finding

/-! ## Operations -/

section Operations

variable {heap : Heap} {h x : Handle} {o : Object} {data : ByteArray} {name : String} {k : Key}

/-- A new object changes no key. -/
theorem Interned.insert (hi : Interned heap) (o : Object) :
    Interned (heap.insert o).1 ∧
      ∀ name, (heap.insert o).1.lookupKey name = heap.lookupKey name := by
  refine hi.same_keys (hi.toTidy.insert o) (insert_strings heap o) fun k hk => string?_congr ?_
  exact get?_insert_of_live hi.toTidy o (hi.isLive hk)

/-- A change of an object that is no string. -/
theorem Interned.update (hi : Interned heap) {f : Object → Object}
    (hf : ∀ s, heap.get? h ≠ some (.string s)) :
    Interned (heap.update h f) ∧
      ∀ name, (heap.update h f).lookupKey name = heap.lookupKey name := by
  refine hi.same_keys (hi.toTidy.update h f) (update_strings heap h f) fun k hk => string?_congr ?_
  rw [get?_update, if_neg]
  rintro rfl
  obtain ⟨data, hs, -⟩ := hi.contents k hk
  exact hf _ (get?_of_string? hs)

/-- Neither does a new size. -/
theorem Interned.resize (hi : Interned heap) (h : Handle) :
    Interned (heap.resize h) ∧ ∀ name, (heap.resize h).lookupKey name = heap.lookupKey name := by
  refine hi.same_keys (hi.toTidy.resize h) (resize_strings heap h) fun k _ => string?_congr ?_
  exact get?_resize heap h k.handle

/-- Interning some octets gives them a string and leaves other strings alone. -/
theorem Interned.intern (hi : Interned heap) (data : ByteArray) :
    Interned (heap.intern data).1 ∧
      (heap.intern data).1.findInterned data (Text.fnv1a data) = some (heap.intern data).2 ∧
      (∀ x, heap.isLive x = true → (heap.intern data).1.get? x = heap.get? x) ∧
      ∀ k, k ∈ (heap.intern data).1.keys ↔
        k = ⟨(heap.intern data).2, Text.fnv1a data⟩ ∨ k ∈ heap.keys := by
  cases hfound : heap.findInterned data (Text.fnv1a data) with
  | some h =>
    have hsame : heap.intern data = (heap, h) := by
      unfold Heap.intern
      simp only [hfound]
    rw [hsame]
    refine ⟨hi, hfound, fun _ _ => rfl, fun k => ⟨.inr, ?_⟩⟩
    rintro (rfl | hk)
    · exact (hi.findInterned.1 hfound).1
    · exact hk
  | none =>
    have hnew : heap.intern data =
        ({ (heap.insert (.string (internedString data))).1 with
            strings := heap.strings.insert
              ⟨(heap.insert (.string (internedString data))).2, Text.fnv1a data⟩ .null },
          (heap.insert (.string (internedString data))).2) := by
      unfold Heap.intern
      simp only [hfound]
      rw [insert_strings]
      rfl
    have ht := hi.toTidy.intern data
    obtain ⟨hfresh, -⟩ := hi.toTidy.insert_cells (.string (internedString data))
    have hget := get?_insert hi.toTidy (.string (internedString data))
    rw [hnew] at ht ⊢
    generalize hins : heap.insert (.string (internedString data)) = r at hfresh hget ht ⊢
    obtain ⟨heap₁, h⟩ := r
    simp only at hfresh hget ht ⊢
    generalize hlarger : { heap₁ with strings := heap.strings.insert ⟨h, Text.fnv1a data⟩ .null } =
      heap₂ at ht ⊢
    have hget₂ : ∀ x, heap₂.get? x = heap₁.get? x := fun x => hlarger ▸ rfl
    have hold : ∀ x, heap.isLive x = true → heap₂.get? x = heap.get? x := by
      intro x hx
      rw [hget₂, hget, if_neg]
      rintro rfl
      rw [hfresh] at hx
      cases hx
    have hstring : heap₂.string? h = some (internedString data) := by
      unfold string?
      rw [hget₂, hget, if_pos rfl]
    have hkeys : ∀ k, k ∈ heap₂.keys ↔ k = ⟨h, Text.fnv1a data⟩ ∨ k ∈ heap.keys := by
      intro k
      obtain ⟨hashOf, m, hr, hlive⟩ := hi.strings
      have hm : m h = none := by
        by_contra hm
        rw [hlive h (Option.isSome_iff_ne_none.2 hm)] at hfresh
        cases hfresh
      have hentries := hr.mem_toList_insert hm (Text.fnv1a data) .null
      have hstrings : heap₂.strings = heap.strings.insert ⟨h, Text.fnv1a data⟩ .null := hlarger ▸ rfl
      unfold keys
      rw [hstrings]
      simp only [List.mem_map, hentries]
      constructor
      · rintro ⟨e, rfl | he, rfl⟩
        · exact .inl rfl
        · exact .inr ⟨e, he, rfl⟩
      · rintro (rfl | ⟨e, he, rfl⟩)
        · exact ⟨_, .inl rfl, rfl⟩
        · exact ⟨e, .inr he, rfl⟩
    have hkept : ∀ k ∈ heap.keys, heap₂.string? k.handle = heap.string? k.handle :=
      fun k hk => string?_congr (hold _ (hi.isLive hk))
    -- no string had these octets before
    have hother : ∀ k ∈ heap.keys, heap.string? k.handle ≠ some (internedString data) := by
      intro k hk hs
      obtain ⟨data', hs', hh⟩ := hi.contents k hk
      obtain rfl : data' = data := by
        have := hs'.symm.trans hs
        simp only [internedString, Option.some.injEq, StringObject.mk.injEq] at this
        exact this.1
      obtain ⟨x, hash⟩ := k
      obtain rfl : hash = _ := hh
      rw [hi.findInterned.2 ⟨hk, hs⟩] at hfound
      cases hfound
    have hi₂ : Interned heap₂ := by
      refine ⟨ht, fun k hk => ?_, fun k hk k' hk' heq => ?_⟩
      · rcases (hkeys k).1 hk with rfl | hk
        · exact ⟨data, hstring, rfl⟩
        · rw [hkept k hk]
          exact hi.contents k hk
      · rcases (hkeys k).1 hk with rfl | hk <;> rcases (hkeys k').1 hk' with rfl | hk'
        · rfl
        · rw [hstring, hkept k' hk'] at heq
          exact absurd heq.symm (hother k' hk')
        · rw [hstring, hkept k hk] at heq
          exact absurd heq (hother k hk)
        · rw [hkept k hk, hkept k' hk'] at heq
          exact hi.distinct k hk k' hk' heq
    exact ⟨hi₂, hi₂.findInterned.2 ⟨(hkeys _).2 (.inl rfl), hstring⟩, hold, hkeys⟩

/-- A text that has a key is not interned again. -/
theorem internKey_of_lookupKey (hk : heap.lookupKey name = some k) :
    heap.internKey name = (heap, k) := by
  obtain ⟨h, hfound, rfl⟩ := Option.map_eq_some_iff.1 hk
  have hsame : heap.intern (Text.octets name) = (heap, h) := by
    unfold Heap.intern
    simp only [hfound]
  unfold Heap.internKey
  simp only [hsame]

/-- Interning a text gives it a key; other texts keep theirs. -/
theorem Interned.internKey (hi : Interned heap) (name : String) :
    Interned (heap.internKey name).1 ∧
      (∀ x, heap.isLive x = true → (heap.internKey name).1.get? x = heap.get? x) ∧
      ∀ other, (heap.internKey name).1.lookupKey other =
        if other = name then some (heap.internKey name).2 else heap.lookupKey other := by
  obtain ⟨hi', hfound, hold, hkeys⟩ := hi.intern (Text.octets name)
  refine ⟨hi', hold, fun other => ?_⟩
  change (heap.intern (Text.octets name)).1.lookupKey other = if other = name then some
    ⟨(heap.intern (Text.octets name)).2, Text.fnv1a (Text.octets name)⟩ else heap.lookupKey other
  generalize heap.intern (Text.octets name) = r at hi' hfound hold hkeys
  obtain ⟨heap', h⟩ := r
  simp only at hi' hfound hold hkeys ⊢
  split
  · next heq =>
    subst heq
    exact congrArg (Option.map fun h => (⟨h, _⟩ : Key)) hfound
  · next hne =>
    have hs := (hi'.findInterned.1 hfound).2
    refine Option.ext fun k => ?_
    rw [hi'.lookupKey, hi.lookupKey, hkeys]
    constructor
    · rintro ⟨rfl | hk, hstr⟩
      · have := hs.symm.trans hstr
        simp only [internedString, Option.some.injEq, StringObject.mk.injEq] at this
        exact absurd (String.toByteArray_inj.1 this.1).symm hne
      · exact ⟨hk, string?_congr (hold _ (hi.isLive hk)) ▸ hstr⟩
    · rintro ⟨hk, hstr⟩
      exact ⟨.inr hk, string?_congr (hold _ (hi.isLive hk)) ▸ hstr⟩

/-- A collection takes keys away from texts whose strings are freed. -/
theorem Interned.collect (hi : Interned heap) (roots : List Handle) :
    Interned (heap.collect roots).1 ∧
      ∀ name k, (heap.collect roots).1.lookupKey name = some k ↔
        heap.lookupKey name = some k ∧ (heap.collect roots).1.isLive k.handle = true := by
  have hkeys : ∀ k, k ∈ (heap.collect roots).1.keys ↔
      k ∈ heap.keys ∧ (heap.collect roots).1.isLive k.handle = true := by
    intro k
    unfold keys
    simp only [List.mem_map]
    constructor
    · rintro ⟨e, he, rfl⟩
      obtain ⟨he, hlive⟩ := hi.toTidy.mem_strings_collect.1 he
      exact ⟨⟨e, he, rfl⟩, hlive⟩
    · rintro ⟨⟨e, he, rfl⟩, hlive⟩
      exact ⟨e, hi.toTidy.mem_strings_collect.2 ⟨he, hlive⟩, rfl⟩
  have hsub : ∀ k ∈ (heap.collect roots).1.keys, k ∈ heap.keys := fun k hk => ((hkeys k).1 hk).1
  have hsame : ∀ k ∈ (heap.collect roots).1.keys,
      (heap.collect roots).1.string? k.handle = heap.string? k.handle :=
    fun k hk => string?_congr (get?_collect ((hkeys k).1 hk).2)
  have hi' := hi.of_subset (hi.toTidy.collect roots) hsub hsame
  refine ⟨hi', fun name k => ?_⟩
  rw [hi.lookupKey_of_subset hi' hsub hsame, hkeys]
  exact ⟨fun h => ⟨h.1, h.2.2⟩, fun h => ⟨h.1, (hi.lookupKey.1 h.1).1, h.2⟩⟩

end Operations

/-! ## Tables as maps from texts -/

/-- A table of names binds texts to values. -/
def Binds (heap : Heap) (t : NameTable) (g : String → Option Value) : Prop :=
  ∃ m : Map, Represents heap.hashOf t m ∧
    (∀ h, (m h).isSome → ∃ name k, heap.lookupKey name = some k ∧ k.handle = h) ∧
    (∀ name k, heap.lookupKey name = some k → m k.handle = g name) ∧
    ∀ name, heap.lookupKey name = none → g name = none

section Binds

variable {heap heap' : Heap} {t : NameTable} {g : String → Option Value} {name : String} {k : Key}

/-- A new table binds nothing. -/
theorem binds_empty (heap : Heap) : Binds heap .empty fun _ => none :=
  ⟨fun _ => none, represents_empty, nofun, fun _ _ _ => rfl, fun _ _ => rfl⟩

/-- A key is the handle of its text with the hash of it. -/
theorem Interned.key_eq (hi : Interned heap) (hk : heap.lookupKey name = some k) :
    k = keyWith heap.hashOf k.handle := by
  obtain ⟨h, hash⟩ := k
  exact congrArg (Key.mk h) (hi.hash_lookupKey hk).1

/-- Looking up the key of a text gives what the text is bound to. -/
theorem Binds.get? (hb : Binds heap t g) (hi : Interned heap) (hk : heap.lookupKey name = some k) :
    t.get? k = g name := by
  obtain ⟨m, hr, -, hm, -⟩ := hb
  rw [hi.key_eq hk, hr.get?, hm name k hk]

/-- Inserting under the key of a text binds the text. -/
theorem Binds.insert (hb : Binds heap t g) (hi : Interned heap)
    (hk : heap.lookupKey name = some k) (v : Value) :
    Binds heap (t.insert k v) fun x => if x = name then some v else g x := by
  obtain ⟨m, hr, hdom, hm, hnone⟩ := hb
  have hput := (hr.put k.handle v).1
  rw [← hi.key_eq hk] at hput
  refine ⟨m.set k.handle v, hput, fun h hs => ?_, fun x k' hk' => ?_, fun x hx => ?_⟩
  · by_cases heq : h = k.handle
    · exact ⟨name, k, hk, heq.symm⟩
    · rw [Map.set, if_neg heq] at hs
      exact hdom h hs
  · change (if k'.handle = k.handle then some v else m k'.handle) = if x = name then some v else g x
    by_cases heq : k'.handle = k.handle
    · rw [if_pos heq, if_pos (hi.lookupKey_inj hk' hk heq)]
    · rw [if_neg heq, if_neg, hm x k' hk']
      rintro rfl
      exact heq (congrArg Key.handle (Option.some.inj (hk'.symm.trans hk)))
  · change (if x = name then some v else g x) = none
    rw [if_neg, hnone x hx]
    rintro rfl
    rw [hk] at hx
    cases hx

/-- A table binds the same texts in another heap that has kept the keys of those texts. -/
theorem Binds.mono (hb : Binds heap t g) (hi : Interned heap) (hi' : Interned heap')
    (hkeep : ∀ name k, heap.lookupKey name = some k → (g name).isSome →
      heap'.lookupKey name = some k) : Binds heap' t g := by
  obtain ⟨m, hr, hdom, hm, hnone⟩ := hb
  have hdom' : ∀ h, (m h).isSome →
      ∃ name k, heap.lookupKey name = some k ∧ heap'.lookupKey name = some k ∧ k.handle = h ∧
        (g name).isSome := by
    intro h hs
    obtain ⟨name, k, hk, rfl⟩ := hdom h hs
    rw [hm name k hk] at hs
    exact ⟨name, k, hk, hkeep name k hk hs, rfl, hs⟩
  refine ⟨m, hr.rehash fun h hs => ?_, fun h hs => ?_, fun name k hk => ?_, fun name hn => ?_⟩
  · obtain ⟨name, k, hk, hk', rfl, -⟩ := hdom' h hs
    rw [← (hi.hash_lookupKey hk).1, ← (hi'.hash_lookupKey hk').1]
  · obtain ⟨name, k, -, hk', rfl, -⟩ := hdom' h hs
    exact ⟨name, k, hk', rfl⟩
  · cases hs : g name with
    | some v =>
      cases hk₀ : heap.lookupKey name with
      | none =>
        rw [hnone name hk₀] at hs
        cases hs
      | some k₀ =>
        have := hkeep name k₀ hk₀ (by rw [hs]; rfl)
        obtain rfl := Option.some.inj (hk.symm.trans this)
        rw [hm name k hk₀, hs]
    | none =>
      by_contra hne
      obtain ⟨name', k', -, hk', heq, hs'⟩ := hdom' k.handle (Option.isSome_iff_ne_none.2 hne)
      rw [hi'.lookupKey_inj hk' hk heq, hs] at hs'
      cases hs'
  · by_contra hne
    cases hk₀ : heap.lookupKey name with
    | none => exact hne (hnone name hk₀)
    | some k₀ =>
      rw [hkeep name k₀ hk₀ (Option.isSome_iff_ne_none.2 hne)] at hn
      cases hn

end Binds

end ScriptEngine.Heap
