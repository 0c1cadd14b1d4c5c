import ScriptEngine.Proofs.TableMap

/-!
# Tables over their lives

A table begins as a literal and then answers one request after the other as a map does. Whatever
happens between two requests makes no difference as long as it leaves the table alone and its keys
stand for the same; a collection does, if the table can be reached. Keys come with what they stand
for, so that a map is a list of items of which no two have the same meaning.
-/

namespace ScriptEngine

/-! ## Requests -/

/-- What is asked of a table. A key comes with what it stands for. -/
inductive TableRequest where
  | get (key : Value) (k : TableKey)
  | set (key : Value) (k : TableKey) (value : Value)
  | delete (key : Value) (k : TableKey)
  | contains (key : Value) (k : TableKey)
  | len
  /-- The first keys of an iteration, so many of them. -/
  | keys (count : Nat)

namespace TableRequest

/-- The key of a request and what it stands for. -/
def key? : TableRequest → Option (Value × TableKey)
  | .get key k | .set key k _ | .delete key k | .contains key k => some (key, k)
  | .len | .keys _ => none

/-- What a request does with a table. -/
def action (h : Handle) : TableRequest → Act (List Value)
  | .get key _ => do return (← Act.tableGet h key).toList
  | .set key _ value => do
    Act.tableSet h key value
    return []
  | .delete key _ => do return [← Act.ask h "delete" #[key]]
  | .contains key _ => do return [← Act.ask h "contains" #[key]]
  | .len => do return [← Act.ask h "len" #[]]
  | .keys count => Act.iterate h count .null

/-- What a map with some items answers. -/
def answer (items : List TableItem) : TableRequest → List Value
  | .get _ k => (TableItem.find items k).toList
  | .set _ _ _ => []
  | .delete _ k | .contains _ k => [.bool (items.any (·.meaning = k))]
  | .len => [.number (.ofNat items.length)]
  | .keys count => (items.map (·.key)).take count

/-- The items of a map after a request. -/
def result (items : List TableItem) : TableRequest → List TableItem
  | .set key k value => TableItem.assign items k key value
  | .delete _ k => TableItem.remove items k
  | _ => items

/-- What a map with some items answers to one request after the other. -/
def answers (items : List TableItem) : List TableRequest → List (List Value)
  | [] => []
  | r :: rest => r.answer items :: answers (r.result items) rest

/-- The items of a map after some requests. -/
def results (items : List TableItem) (requests : List TableRequest) : List TableItem :=
  requests.foldl result items

/-- A request that can be made: there is room for a call, its key is a key, and an iteration does
not come to positions that are no numbers. -/
structure Admitted (r : TableRequest) (s : State) (h : Handle) : Prop where
  room : s.reentrant < s.settings.maxReentrant
  key : ∀ p ∈ r.key?, s.IsKey p.1 p.2
  positions : ∀ count, r = .keys count → ∀ t, s.heap.get? h = some (.table t) →
    t.entries.size ≤ 2 ^ 53

end TableRequest

namespace State

/-- A state that differs in one table at most. -/
inductive Amends (s : State) (h : Handle) : State → Prop
  | same : Amends s h s
  | changed (f : ValueTable → ValueTable) : Amends s h (s.update h (Object.mapTable f))

/-- A table is a map with some items. -/
structure Tabled (s : State) (h : Handle) (items : List TableItem) : Prop where
  furnished : s.Furnished
  interned : s.heap.Interned
  held : ∃ t, s.heap.get? h = some (.table t) ∧ s.Holds t items

variable {s u : State} {h : Handle} {t : ValueTable} {items : List TableItem}

/-- Changing a table keeps the outline of the object. -/
theorem outline_mapTable (f : ValueTable → ValueTable) (o : Object) :
    (Object.mapTable f o).outline = o.outline := by cases o <;> rfl

/-- Changing a table changes no class. -/
theorem class?_mapTable (f : ValueTable → ValueTable) (x : Handle) :
    (s.update h (Object.mapTable f)).class? x = s.class? x := by
  unfold class?
  rw [get?_update]
  by_cases hx : x = h
  · rw [if_pos hx]
    cases s.heap.get? x with
    | none => rfl
    | some o => cases o <;> rfl
  · rw [if_neg hx]

/-- Changing a table keeps the core module in place. -/
theorem Furnished.mapTable (hf : s.Furnished) (hi : s.heap.Interned)
    (f : ValueTable → ValueTable) : (s.update h (Object.mapTable f)).Furnished := by
  refine hf.of_kept hi (texts_update hi h fun _ => rfl) rfl ?_ (fun x _ o ho => ?_) fun x n hn => ?_
  · refine (hf.hashed.update h fun o _ text ho => ?_).resize h
    cases o <;> first | exact ho | cases ho
  all_goals
    rw [get?_update]
    split <;> simp_all [Object.mapTable]

/-- Keys stand for what they stand for, whatever happens to tables. -/
theorem IsKey.mapTable {v : Value} {k : TableKey} (hv : s.IsKey v k)
    (f : ValueTable → ValueTable) : (s.update h (Object.mapTable f)).IsKey v k := by
  refine ⟨hv.reads.mono (fun _ => True) (fun _ _ => trivial) (fun x o _ hx => ?_)
    (fun _ _ _ _ _ _ => trivial)
    (fun x owner fields _ _ hp => hp.mono rfl (class?_mapTable f _) (class?_mapTable f _)),
    hv.definite⟩
  rw [get?_update, hx]
  split
  · exact ⟨_, rfl, outline_mapTable f o⟩
  · exact ⟨o, rfl, rfl⟩

/-- The table of a state becomes another one. -/
theorem Tabled.changed {items' : List TableItem} (hs : s.Tabled h items)
    (ht : s.heap.get? h = some (.table t)) (f : ValueTable → ValueTable)
    (hh : s.Holds (f t) items') : (s.update h (Object.mapTable f)).Tabled h items' where
  furnished := hs.furnished.mapTable hs.interned f
  interned := (texts_update hs.interned h fun _ => rfl).1
  held := by
    refine ⟨f t, ?_, { hh with reads := fun i hi => (hh.reads i hi).mapTable f }⟩
    rw [get?_update, if_pos rfl, ht]
    rfl

/-- A table answers a request as a map does, and the map is then what the request makes of it. -/
theorem Tabled.answers (hs : s.Tabled h items) {r : TableRequest} (hr : r.Admitted s h) :
    ∃ u, (r.action h s).Ends (r.answer items) u ∧ s.Amends h u ∧ u.Tabled h (r.result items) := by
  obtain ⟨t, hget, hh⟩ := hs.held
  obtain ⟨hroom, hkey, hpositions⟩ := hr
  have ht : s.table? (.object h) = some t := by simp [table?, hget]
  cases r with
  | get key k =>
    have hfound := Act.ends_tableGet hs.furnished hs.interned hroom (hkey _ rfl) ht hh
    exact ⟨s, Act.ends_bind hfound (.done _ _), .same, hs⟩
  | set key k value =>
    obtain ⟨f, hset, hholds⟩ :=
      Act.ends_tableSet hs.furnished hs.interned hroom (hkey _ rfl) ht hh value
    exact ⟨_, Act.ends_bind hset (.done _ _), .changed f, hs.changed hget f hholds⟩
  | delete key k =>
    obtain ⟨u, hdeleted, hu⟩ :=
      Act.ends_delete hs.furnished hs.interned hroom hget hh (hkey _ rfl)
    refine ⟨u, Act.ends_bind hdeleted (.done _ _), ?_⟩
    obtain ⟨rfl, hholds⟩ | ⟨f, rfl, hholds⟩ := hu
    · exact ⟨.same, hs.furnished, hs.interned, t, hget, hholds⟩
    · exact ⟨.changed f, hs.changed hget f hholds⟩
  | contains key k =>
    have hfound := Act.ends_contains hs.furnished hs.interned hroom hget hh (hkey _ rfl)
    exact ⟨s, Act.ends_bind hfound (.done _ _), .same, hs⟩
  | len =>
    have hlen := Act.ends_len hs.furnished hs.interned hroom hget hh
    exact ⟨s, Act.ends_bind hlen (.done _ _), .same, hs⟩
  | keys count =>
    obtain ⟨cells, rfl, hentries⟩ := hh.cells
    have hkeys := Act.ends_iterate hs.furnished hs.interned hroom hget (hpositions _ rfl _ hget)
      count [] cells hentries (rfl : Act.tablePosition? .null = _) rfl
    exact ⟨s, hkeys, .same, hs⟩

/-! ## Between requests -/

/-- What happens leaves a table alone, and its keys stand for the same. -/
structure Spares (s : State) (h : Handle) (u : State) : Prop where
  furnished : u.Furnished
  interned : u.heap.Interned
  table : u.heap.get? h = s.heap.get? h
  keys : ∀ t, s.heap.get? h = some (.table t) → ∀ e ∈ t.toList, ∀ k,
    s.IsKey e.key k → u.IsKey e.key k

/-- A table that holds items lists them. -/
theorem Holds.toList (hh : s.Holds t items) : t.toList = items.map TableItem.entry := by
  obtain ⟨cells, rfl, hentries⟩ := hh.cells
  rw [ValueTable.toList, hentries]
  exact List.reduceOption_map

/-- A table keeps its items while it is spared. -/
theorem Tabled.spares (hs : s.Tabled h items) (hu : s.Spares h u) : u.Tabled h items := by
  obtain ⟨t, hget, hh⟩ := hs.held
  refine ⟨hu.furnished, hu.interned, t, hu.table.trans hget, { hh with reads := fun i hi => ?_ }⟩
  refine hu.keys t hget i.entry ?_ i.meaning (hh.reads i hi)
  rw [hh.toList]
  exact List.mem_map_of_mem hi

/-- A class that the machine holds stays as it is. -/
theorem Lasts.class? (hl : s.Lasts u) (hk : Heap.Keeps s.roots s.heap u.heap) {c : Handle}
    (hc : Heap.Reaches s.heap.cells s.roots c) : u.class? c = s.class? c := by
  refine Option.ext fun o => ?_
  have hiff : ∀ s : State, s.class? c = some o ↔ s.heap.get? c = some (.classObject o) := fun s =>
    Heap.class?_eq_some
  rw [hiff, hiff]
  exact ⟨hl.old rfl, hk.objects c _ hc⟩

/-- Keys that the machine holds stand for the same if nothing that is held changes. -/
theorem IsKey.held {v : Value} {k : TableKey} (hv : s.IsKey v k) (hf : s.Furnished)
    (hl : s.Lasts u) (hk : Heap.Keeps s.roots s.heap u.heap)
    (hheld : ∀ x, v = .object x → Heap.Reaches s.heap.cells s.roots x) : u.IsKey v k := by
  have hroot : Heap.Reaches s.heap.cells s.roots (s.coreClass .object) := by
    obtain ⟨found, hfound⟩ := hf.methods
    obtain ⟨x, -, hx, -⟩ := hfound CoreClass.object.index _ rfl
    rw [coreClass_eq hx]
    refine .root ?_
    simp [roots, Array.mem_of_getElem? hx]
  refine ⟨hv.reads.mono (Heap.Reaches s.heap.cells s.roots) hheld
    (fun x o hx ho => ⟨o, hk.objects x o hx ho, rfl⟩)
    (fun x values hx ho y hy => hx.reference ho ?_)
    (fun x owner fields hx ho hp => hp.mono hl.core (hl.class? hk (hx.reference ho ?_))
      (hl.class? hk hroot)), hv.definite⟩
  · exact List.mem_filterMap.2 ⟨_, Array.mem_toList_iff.2 hy, rfl⟩
  all_goals simp [Object.references]

/-- A change of host-side code that changes nothing that is held spares a table that is held. -/
theorem HostChange.spares (hu : s.HostChange u) (hf : s.Furnished) (hi : s.heap.Interned)
    (hk : Heap.Keeps s.roots s.heap u.heap) (hget : s.heap.get? h = some (.table t))
    (hheld : Heap.Reaches s.heap.cells s.roots h) : s.Spares h u where
  furnished := hf.neutral hi (.hostChange hu)
  interned := hk.interned
  table := (hk.objects h _ hheld hget).trans hget.symm
  keys t' ht' e he k hkey := by
    refine hkey.held hf (lasts_hostChange hu hi.toTidy) hk fun x hx => hheld.reference ht' ?_
    exact List.mem_flatMap.2 ⟨e, he, by simp [hx, Value.handle?]⟩

/-! ## Histories -/

/-- Some requests that are made of a table one after the other, with their answers. -/
inductive Uses (h : Handle) : State → List (TableRequest × List Value) → State → Prop
  | rest (s : State) : Uses h s [] s
  | request {s t u : State} {r : TableRequest} {answer : List Value}
    {log : List (TableRequest × List Value)} (hr : r.Admitted s h)
    (hend : (r.action h s).Ends answer t) (hrest : Uses h t log u) : Uses h s ((r, answer) :: log) u
  | meanwhile {s t u : State} {log : List (TableRequest × List Value)} (ht : s.Spares h t)
    (hrest : Uses h t log u) : Uses h s log u

/-- The answers are those of a map. -/
theorem Uses.answers {log : List (TableRequest × List Value)} (hu : Uses h s log u)
    (hs : s.Tabled h items) :
    log.map (·.2) = TableRequest.answers items (log.map (·.1)) ∧
      u.Tabled h (TableRequest.results items (log.map (·.1))) := by
  induction hu generalizing items with
  | rest s => exact ⟨rfl, hs⟩
  | request hr hend _ ih =>
    obtain ⟨t, hend', -, ht⟩ := hs.answers hr
    obtain ⟨rfl, rfl⟩ := hend.unique hend'
    obtain ⟨hanswers, hlast⟩ := ih ht
    exact ⟨by rw [List.map_cons, hanswers]; rfl, hlast⟩
  | meanwhile ht _ ih => exact ih (hs.spares ht)

end State

/-! ## Literals -/

namespace TableItem

/-- The slots of some keys, each followed by its value. -/
def slots (pairs : List TableItem) : List Value := pairs.flatMap fun i => [i.key, i.value]

/-- The items of a literal, of which the last value for a key counts. -/
def literal (pairs : List TableItem) : List TableItem :=
  pairs.foldl (fun items i => assign items i.meaning i.key i.value) []

variable {pairs : List TableItem}

@[simp] theorem length_slots (pairs : List TableItem) : (slots pairs).length = pairs.length * 2 := by
  simp [slots, List.length_flatMap]

/-- The slots of a literal alternate between keys and values. -/
theorem getElem?_slots {j : Nat} {i : TableItem} (h : pairs[j]? = some i) :
    (slots pairs)[j * 2]? = some i.key ∧ (slots pairs)[j * 2 + 1]? = some i.value := by
  induction pairs generalizing j with
  | nil => cases h
  | cons p pairs ih =>
    cases j with
    | zero =>
      obtain rfl := Option.some.inj h
      exact ⟨rfl, rfl⟩
    | succ j =>
      have hlater := ih (j := j) h
      rw [Nat.succ_mul]
      exact hlater

end TableItem

namespace Act

variable {s : State}

/-- Making an object keeps keys that the machine holds. -/
theorem alloc_cases (hf : s.Furnished) (hi : s.heap.Interned) {o : Object}
    (ho : o.isLight = true) :
    (alloc o s = .fault .heapLimit ∧ s.heap.maxBytes.isSome) ∨ ∃ heap x, alloc o s = .done x { s with heap := heap } ∧
      State.Furnished { s with heap := heap } ∧ heap.Interned ∧ heap.get? x = some o ∧
      ∀ v k, (∀ y, v = .object y → Heap.Reaches s.heap.cells s.roots y) → s.IsKey v k →
        State.IsKey { s with heap := heap } v k := by
  have hreserve : (reserve o.estimatedBytes o.references s = .fault .heapLimit ∧
        s.heap.maxBytes.isSome) ∨
      ∃ heap, reserve o.estimatedBytes o.references s = .done () { s with heap := heap } ∧
        (heap = s.heap ∨ heap = (s.heap.collect (s.roots ++ o.references)).1) := by
    obtain ⟨heap, hcollect, hheap⟩ : ∃ heap,
        s.collect o.references = ({ s with heap := heap }, (s.collect o.references).2) ∧
          (heap = s.heap ∨ heap = (s.heap.collect (s.roots ++ o.references)).1) := by
      unfold State.collect
      split
      · exact ⟨_, rfl, .inr rfl⟩
      · exact ⟨_, rfl, .inl rfl⟩
    unfold reserve
    rw [hcollect]
    split
    · dsimp only
      split
      · next hlimit =>
        have hceiling : heap.maxBytes = s.heap.maxBytes := by obtain rfl | rfl := hheap <;> rfl
        refine .inl ⟨rfl, ?_⟩
        rw [← hceiling]
        unfold Heap.exceedsLimit at hlimit
        cases hmax : heap.maxBytes with
        | none => simp [hmax] at hlimit
        | some limit => rfl
      · exact .inr ⟨heap, rfl, hheap⟩
    · exact .inr ⟨_, rfl, .inl rfl⟩
  obtain ⟨hfault, hceiling⟩ | ⟨heap, hdone, hheap⟩ := hreserve
  · refine .inl ⟨?_, hceiling⟩
    rw [alloc_eq, allocIn, bind_run, hfault]
    rfl
  right
  have hkeep : Heap.Keeps s.roots s.heap heap := by
    obtain rfl | rfl := hheap
    · exact .refl hi
    · exact Heap.keeps_collect hi fun _ => List.mem_append_left _
  have hfirst : State.Furnished { s with heap := heap } ∧ s.Lasts { s with heap := heap } := by
    obtain rfl | rfl := hheap
    · exact ⟨hf, State.lasts_of_get? rfl rfl fun _ => rfl⟩
    · have hcollect : s.HostChange
        { s with heap := (s.heap.collect (s.roots ++ o.references)).1 } :=
        .heap (.collect _)
      exact ⟨hf.neutral hi (.hostChange hcollect), State.lasts_hostChange hcollect hi.toTidy⟩
  have hinsert : State.HostChange { s with heap := heap } { s with heap := (heap.insert o).1 } :=
    .heap (.insert o ho)
  have hinterned := hkeep.interned
  refine ⟨_, _, by rw [alloc_eq, allocIn, bind_run, hdone]; rfl,
    hfirst.1.neutral hinterned (.hostChange hinsert), (hinterned.insert o).1,
    (Heap.get?_insert hinterned.toTidy _ _).trans (if_pos rfl), fun v k hheld hv => ?_⟩
  refine (hv.held hf hfirst.2 hkeep hheld).held hfirst.1
    (State.lasts_hostChange hinsert hinterned.toTidy)
    ((Heap.grows_insert hinterned o).keeps fun _ _ => id) fun x hx => hkeep.reaches (hheld x hx)

/-- Entries are set one after the other. -/
theorem ends_setEntries {x : Handle} {start n : Nat} {items pairs : List TableItem}
    (hs : s.Tabled x items) (hroom : s.reentrant < s.settings.maxReentrant)
    (hslots : ∀ (j : Nat) (i : TableItem), pairs[j]? = some i →
      s.stack[start + (n + j) * 2]? = some i.key ∧ s.stack[start + (n + j) * 2 + 1]? = some i.value)
    (hkeys : ∀ i ∈ pairs, s.IsKey i.key i.meaning) :
    ∃ u, (setEntries x start pairs.length n s).Ends () u ∧ u.stack = s.stack ∧
      u.reentrant = s.reentrant ∧ u.settings = s.settings ∧ u.Tabled x
        (pairs.foldl (fun items i => TableItem.assign items i.meaning i.key i.value) items) := by
  induction pairs generalizing s n items with
  | nil => exact ⟨s, .done _ _, rfl, rfl, rfl, hs⟩
  | cons i pairs ih =>
    obtain ⟨hkey, hvalue⟩ := hslots 0 i rfl
    obtain ⟨t, hget, hh⟩ := hs.held
    have htable : s.table? (.object x) = some t := by simp [State.table?, hget]
    obtain ⟨f, hset, hholds⟩ := ends_tableSet hs.furnished hs.interned hroom
      (hkeys i List.mem_cons_self) htable hh i.value
    have hs' := hs.changed hget f hholds
    obtain ⟨u, hrest, hu⟩ := ih (n := n + 1) hs' hroom
      (fun j i' hi' => by
        rw [show n + 1 + j = n + (j + 1) by omega]
        exact hslots (j + 1) i' hi')
      fun i' hi' => (hkeys i' (List.mem_cons_of_mem _ hi')).mapTable f
    refine ⟨u, ?_, hu⟩
    refine ends_bind (ends_of_run (require_run _ _ hkey)) ?_
    refine ends_bind (ends_of_run (require_run _ _ hvalue)) ?_
    exact ends_bind hset hrest

/-- A literal makes a map, unless the heap is at its limit. -/
theorem ends_newTable (hf : s.Furnished) (hi : s.heap.Interned)
    (hroom : s.reentrant < s.settings.maxReentrant) {rest : Array Value} {pairs : List TableItem}
    (hstack : s.stack = rest ++ (TableItem.slots pairs).toArray)
    (hkeys : ∀ i ∈ pairs, s.IsKey i.key i.meaning) :
    (newTable pairs.length s = .fault .heapLimit ∧ s.heap.maxBytes.isSome) ∨
      ∃ t x, (newTable pairs.length s).Ends () t ∧ t.stack = rest.push (.object x) ∧
        t.reentrant = s.reentrant ∧ t.settings = s.settings ∧
          t.Tabled x (TableItem.literal pairs) := by
  have hsize : s.stack.size = rest.size + pairs.length * 2 := by simp [hstack]
  have hstart : start (pairs.length * 2) s = .done rest.size s := by
    refine require_run _ _ ?_
    rw [if_pos (by omega), hsize, Nat.add_sub_cancel]
  obtain ⟨hfault, hceiling⟩ | ⟨heap, x, halloc, hfurnished, hinterned, hget, hheld⟩ :=
    alloc_cases hf hi (o := .table .empty) rfl
  · refine .inl ⟨?_, hceiling⟩
    unfold newTable
    rw [bind_run, hstart, Proc.bind_done, bind_run, hfault]
    rfl
  right
  -- the state in which the entries are set
  obtain ⟨t, ht⟩ : ∃ t, t = State.push { s with heap := heap } (.object x) := ⟨_, rfl⟩
  have hbeside : State.Beside { s with heap := heap } t := by subst ht; exact ⟨rfl, rfl, rfl, rfl⟩
  have htabled : t.Tabled x [] := by
    refine ⟨hfurnished.beside hbeside, ?_, .empty, ?_, State.holds_empty _⟩
    all_goals rw [hbeside.heap]
    · exact hinterned
    · exact hget
  have hroom' : t.reentrant < t.settings.maxReentrant := by
    rw [hbeside.reentrant, hbeside.settings]
    exact hroom
  have hstack' : t.stack = (rest ++ (TableItem.slots pairs).toArray).push (.object x) := by
    rw [ht, ← hstack]
    rfl
  have hkeys' : ∀ i ∈ pairs, t.IsKey i.key i.meaning := by
    intro i hmem
    refine (hheld i.key i.meaning (fun y hy => .root ?_) (hkeys i hmem)).beside hbeside
    have hslot : i.key ∈ s.stack.toList := by
      rw [hstack]
      simp only [Array.toList_append, List.mem_append]
      exact .inr (List.mem_flatMap.2 ⟨i, hmem, by simp⟩)
    have hroot : y ∈ Object.handlesOf s.stack.toList := List.mem_filterMap.2 ⟨_, hslot, by rw [hy]; rfl⟩
    unfold State.roots
    simp only [List.mem_append]
    exact .inl (.inl (.inl (.inl hroot)))
  have hslots : ∀ (j : Nat) (i : TableItem), pairs[j]? = some i →
      t.stack[rest.size + (0 + j) * 2]? = some i.key ∧
        t.stack[rest.size + (0 + j) * 2 + 1]? = some i.value := by
    intro j i hj
    obtain ⟨hkey, hvalue⟩ := TableItem.getElem?_slots hj
    have hslot : ∀ (n : Nat) (v : Value), (TableItem.slots pairs)[n]? = some v →
        t.stack[rest.size + n]? = some v := by
      intro n v hn
      have hlt := (List.getElem?_eq_some_iff.1 hn).1
      rw [hstack', Array.getElem?_push, if_neg (by simp at hlt ⊢; omega),
        Array.getElem?_append_right (Nat.le_add_right _ _), Nat.add_sub_cancel_left]
      simpa using hn
    rw [Nat.zero_add]
    exact ⟨hslot _ _ hkey, hslot _ _ hvalue⟩
  obtain ⟨u, hset, hstack'', hreentrant, hsettings, hu⟩ := ends_setEntries htabled hroom' hslots hkeys'
  have hlast : State.Beside u ((u.truncate rest.size).push (.object x)) := ⟨rfl, rfl, rfl, rfl⟩
  refine ⟨(u.truncate rest.size).push (.object x), x, ?_, ?_, ?_, ?_, ?_⟩
  · refine ends_bind (ends_of_run hstart) (ends_bind (ends_of_run halloc) ?_)
    refine ends_bind (t := t) (by subst ht; exact .done () _) ?_
    exact ends_bind hset (ends_bind (.done () _) (.done () _))
  · simp [State.truncate, State.push, hstack'', hstack']
  · exact hreentrant.trans hbeside.reentrant
  · exact hsettings.trans hbeside.settings
  · obtain ⟨hfurnished', hinterned', table, htable, hholds⟩ := hu
    exact ⟨hfurnished'.beside hlast, hinterned', table, htable, hholds.beside hlast⟩

end Act

/-! ## Runs -/

/-- In all states of all runs in which nothing has been done to core classes, a literal makes a map
of its keys and values, unless the heap is at its limit. From then on a table answers every request
as a map does, whatever happens in between. -/
theorem Hosted.tables_are_maps {settings : Settings} {log log' : List ClassEvent} {s : State}
    (h : Hosted (.create settings) log s) {name : String} {module : Bytecode.Module} {m : Machine}
    (hd : (Act.evalModule name module s).During log' m)
    (hcore : ∀ e ∈ log ++ log', e.subject ∉ m.state.core.classes)
    (hroom : m.state.reentrant < m.state.settings.maxReentrant) :
    (∀ (rest : Array Value) (pairs : List TableItem),
      m.state.stack = rest ++ (TableItem.slots pairs).toArray →
      (∀ i ∈ pairs, m.state.IsKey i.key i.meaning) →
        (Act.newTable pairs.length m.state = .fault .heapLimit ∧
          m.state.heap.maxBytes.isSome) ∨
          ∃ t x, (Act.newTable pairs.length m.state).Ends () t ∧
            t.stack = rest.push (.object x) ∧ t.reentrant = m.state.reentrant ∧
            t.settings = m.state.settings ∧ t.Tabled x (TableItem.literal pairs)) ∧
    ∀ t x items, State.Tabled t x items →
      (∀ r : TableRequest, r.Admitted t x → ∃ u, (r.action x t).Ends (r.answer items) u) ∧
      ∀ history u, State.Uses x t history u →
        history.map (·.2) = TableRequest.answers items (history.map (·.1)) ∧
          u.Tabled x (TableRequest.results items (history.map (·.1))) := by
  have hinterned := (h.during hd).1.interned
  have hfurnished := h.furnished hd hcore
  refine ⟨fun rest pairs hstack hkeys =>
    Act.ends_newTable hfurnished hinterned hroom hstack hkeys, fun t x items ht => ?_⟩
  refine ⟨fun r hr => ?_, fun history u hu => hu.answers ht⟩
  obtain ⟨u, hend, -, -⟩ := ht.answers hr
  exact ⟨u, hend⟩

/-- Top-level code that makes a table in which a number comes twice. -/
def literalModule : Bytecode.Module where
  file := ""
  main :=
    { name := ""
      arity := 0
      defaults := #[]
      vararg := false
      upvalueCount := 0
      chunk :=
        { code := #[.constant 0, .null, .constant 0, .true, .newTable 2, .return]
          constants := #[.number ⟨0x3ff0000000000000⟩]
          lines := ⟨#[⟨1, 6⟩]⟩ } }

/-- Its literal. -/
def literalPairs : List TableItem :=
  [⟨.number ⟨0x3ff0000000000000⟩, .number ⟨0x3ff0000000000000⟩, .null⟩,
    ⟨.number ⟨0x3ff0000000000000⟩, .number ⟨0x3ff0000000000000⟩, .bool true⟩]

/-- The table has one key, and the later value for it. -/
theorem Hosted.tables_are_maps_literalModule : ∃ m t x u,
    (Act.evalModule Act.mainModule literalModule (.create .default)).During [] m ∧
      m.state.reentrant < m.state.settings.maxReentrant ∧
      (Act.newTable literalPairs.length m.state).Ends () t ∧
      State.Uses x t [(.get (.number ⟨0x3ff0000000000000⟩) (.number ⟨0x3ff0000000000000⟩),
        [.bool true])] u := by
  have hrun :
      ((Act.evalModule Act.mainModule literalModule (.create .default)).trace 5).map
        (fun r => (r.1, decide (r.2.state.reentrant < r.2.state.settings.maxReentrant),
          r.2.state.stack.toList.drop 1, r.2.state.heap.maxBytes)) =
        some ([], true, TableItem.slots literalPairs, none) := by
    decide +kernel
  obtain ⟨⟨log, m⟩, hm, hshown⟩ := Option.map_eq_some_iff.1 hrun
  simp only [Prod.mk.injEq, decide_eq_true_eq] at hshown
  obtain ⟨rfl, hroom, hslots, hceiling⟩ := hshown
  have hd := Proc.during_of_trace hm
  have hstack : m.state.stack =
      (m.state.stack.toList.take 1).toArray ++ (TableItem.slots literalPairs).toArray := by
    rw [← hslots, List.append_toArray, List.take_append_drop]
  obtain ⟨hliteral, huses⟩ := Hosted.tables_are_maps .start hd (by simp) hroom
  have hkey : ∀ s : State,
      s.IsKey (.number ⟨0x3ff0000000000000⟩) (.number ⟨0x3ff0000000000000⟩) :=
    fun s => ⟨.number _, by decide⟩
  obtain ⟨-, hlimit⟩ | ⟨t, x, hmade, -, hreentrant, hsettings, ht⟩ :=
    hliteral _ literalPairs hstack (by simp [literalPairs, hkey])
  · rw [hceiling] at hlimit
    cases hlimit
  have hadmitted : (TableRequest.get (.number ⟨0x3ff0000000000000⟩)
      (.number ⟨0x3ff0000000000000⟩)).Admitted t x :=
    ⟨hreentrant ▸ hsettings ▸ hroom, by simp [TableRequest.key?, hkey], nofun⟩
  obtain ⟨u, hend⟩ := (huses t x _ ht).1 _ hadmitted
  refine ⟨m, t, x, u, hd, hroom, hmade, .request hadmitted ?_ (.rest u)⟩
  have hanswer : TableRequest.answer (TableItem.literal literalPairs)
      (.get (.number ⟨0x3ff0000000000000⟩) (.number ⟨0x3ff0000000000000⟩)) = [.bool true] := by
    decide
  rwa [hanswer] at hend

end ScriptEngine
