import Mathlib.Data.List.ReduceOption
import ScriptEngine.Proofs.Bucketing
import ScriptEngine.Proofs.Counting
import ScriptEngine.Proofs.Keying

/-!
# Tables are maps in the order of insertion

What a table holds is a list of items, one for each key, in the order in which the keys came in.
Finding a key compares it with those of the same hash only, which is enough because equal keys hash
the same, so that a search ends with the one item whose key stands for the same, or with none. A
value is overwritten in its place, a new item comes last, and deleting an item keeps the others in
order, whether it leaves a hole or the table is compacted.
-/

namespace ScriptEngine

open ValueTable (hasHash)

/-- An item of a table. -/
structure TableItem where
  /-- What the key stands for. -/
  meaning : TableKey
  /-- The key, as it was when the item came in. -/
  key : Value
  /-- The value. -/
  value : Value

namespace TableItem

/-- The entry that holds an item. -/
def entry (i : TableItem) : ValueTable.Entry := ⟨i.meaning.hash, i.key, i.value⟩

variable {items before after : List TableItem} {i : TableItem} {k : TableKey}

/-- The value of a key. -/
def find (items : List TableItem) (k : TableKey) : Option Value :=
  (items.find? (·.meaning = k)).map (·.value)

/-- Sets the value of a key, in its place if there is one and else behind all others. -/
def assign (items : List TableItem) (k : TableKey) (key value : Value) : List TableItem :=
  if items.any (·.meaning = k) then
    items.map fun i => if i.meaning = k then { i with value := value } else i
  else items ++ [⟨k, key, value⟩]

/-- Deletes a key. -/
def remove (items : List TableItem) (k : TableKey) : List TableItem :=
  items.filter (·.meaning ≠ k)

/-- Keys of other items than the one in the middle stand for something else. -/
theorem meaning_ne (h : ((before ++ i :: after).map (·.meaning)).Nodup) :
    (∀ j ∈ before, j.meaning ≠ i.meaning) ∧ ∀ j ∈ after, j.meaning ≠ i.meaning := by
  rw [List.map_append, List.map_cons, List.nodup_append] at h
  obtain ⟨-, hafter, hne⟩ := h
  refine ⟨fun j hj => hne _ (List.mem_map_of_mem hj) _ List.mem_cons_self, fun j hj heq => ?_⟩
  exact (List.nodup_cons.1 hafter).1 (heq ▸ List.mem_map_of_mem hj)

/-- An item is found by what its key stands for. -/
theorem find_append (h : ((before ++ i :: after).map (·.meaning)).Nodup) :
    find (before ++ i :: after) i.meaning = some i.value := by
  obtain ⟨hbefore, -⟩ := meaning_ne h
  unfold find
  rw [List.find?_append, List.find?_eq_none.2 fun j hj => by simpa using hbefore j hj]
  simp

/-- What is not there is not found. -/
theorem find_of_absent (h : ∀ j ∈ items, j.meaning ≠ k) : find items k = none := by
  unfold find
  rw [List.find?_eq_none.2 fun j hj => by simpa using h j hj]
  rfl

/-- Something is found exactly if there is an item for it. -/
theorem isSome_find (items : List TableItem) (k : TableKey) :
    (find items k).isSome = items.any (·.meaning = k) := by
  rw [find, Option.isSome_map, List.isSome_find?]

/-- An item that is there gets another value. -/
theorem assign_append (h : ((before ++ i :: after).map (·.meaning)).Nodup) (key value : Value) :
    assign (before ++ i :: after) i.meaning key value =
      before ++ { i with value := value } :: after := by
  obtain ⟨hbefore, hafter⟩ := meaning_ne h
  have hsame : ∀ l : List TableItem, (∀ j ∈ l, j.meaning ≠ i.meaning) →
      l.map (fun j => if j.meaning = i.meaning then { j with value := value } else j) = l :=
    fun l hl => (List.map_congr_left fun j hj => if_neg (hl j hj)).trans (List.map_id l)
  unfold assign
  rw [if_pos (by simp), List.map_append, List.map_cons, hsame _ hbefore, hsame _ hafter, if_pos rfl]

/-- A new item comes last. -/
theorem assign_of_absent (h : ∀ j ∈ items, j.meaning ≠ k) (key value : Value) :
    assign items k key value = items ++ [⟨k, key, value⟩] := by
  unfold assign
  rw [if_neg]
  simpa using h

/-- An item that is there is removed. -/
theorem remove_append (h : ((before ++ i :: after).map (·.meaning)).Nodup) :
    remove (before ++ i :: after) i.meaning = before ++ after := by
  obtain ⟨hbefore, hafter⟩ := meaning_ne h
  unfold remove
  rw [List.filter_append, List.filter_cons_of_neg (by simp),
    List.filter_eq_self.2 fun j hj => by simpa using hbefore j hj,
    List.filter_eq_self.2 fun j hj => by simpa using hafter j hj]

/-- What is not there need not be removed. -/
theorem remove_of_absent (h : ∀ j ∈ items, j.meaning ≠ k) : remove items k = items := by
  unfold remove
  exact List.filter_eq_self.2 fun j hj => by simpa using h j hj

end TableItem

/-- Changes an object if it is a table. -/
def Object.mapTable (f : ValueTable → ValueTable) : Object → Object
  | .table t => .table (f t)
  | o => o

namespace State

/-- A table has these items. -/
structure Holds (s : State) (t : ValueTable) (items : List TableItem) : Prop where
  sound : t.Sound
  cells : ∃ cells : List (Option TableItem), cells.reduceOption = items ∧
    t.entries.toList = cells.map (Option.map TableItem.entry)
  reads : ∀ i ∈ items, s.IsKey i.key i.meaning
  distinct : (items.map (·.meaning)).Nodup

/-- What a table holds does not depend on stack, frames or flags. -/
theorem Holds.beside {s u : State} {t : ValueTable} {items : List TableItem}
    (hh : s.Holds t items) (hu : s.Beside u) : u.Holds t items :=
  { hh with reads := fun i hi => (hh.reads i hi).beside hu }

/-- A table has an item at a position. -/
structure Places (t : ValueTable) (items : List TableItem) (position : Nat) (i : TableItem) : Prop where
  intro ::
  cells : ∃ before after : List (Option TableItem), position = before.length ∧
    items = before.reduceOption ++ i :: after.reduceOption ∧
    t.entries.toList = before.map (Option.map TableItem.entry) ++
      some i.entry :: after.map (Option.map TableItem.entry)

variable {s : State} {t : ValueTable} {items : List TableItem} {position : Nat} {i : TableItem}

/-- The size of a table is the number of its items. -/
theorem Holds.size (hh : s.Holds t items) : t.size = items.length := by
  obtain ⟨cells, rfl, hentries⟩ := hh.cells
  have hlist : t.toList = (cells.map (Option.map TableItem.entry)).reduceOption := by
    rw [ValueTable.toList, hentries]
    rfl
  rw [ValueTable.size, hh.sound.live, hlist, List.reduceOption_map, List.length_map]

/-- A new table holds nothing. -/
theorem holds_empty (s : State) : s.Holds .empty [] where
  sound := ValueTable.sound_empty
  cells := ⟨[], rfl, rfl⟩
  reads := nofun
  distinct := .nil

/-- The entry at the position of an item. -/
theorem Places.entryAt? (hp : Places t items position i) : t.entryAt? position = some i.entry := by
  obtain ⟨before, after, rfl, -, hentries⟩ := hp
  simpa using ValueTable.entryAt?_append hentries

/-- The item at a place is the one that is found. -/
theorem Places.find (hp : Places t items position i) (hh : s.Holds t items) :
    TableItem.find items i.meaning = some i.value := by
  obtain ⟨before, after, -, rfl, -⟩ := hp
  exact TableItem.find_append hh.distinct

/-- It is there. -/
theorem Places.any (hp : Places t items position i) :
    items.any (·.meaning = i.meaning) = true := by
  obtain ⟨before, after, -, rfl, -⟩ := hp
  simp

/-- The value of an item is overwritten. -/
theorem Holds.setValue (hh : s.Holds t items) (hp : Places t items position i)
    (key value : Value) :
    s.Holds (t.setValue position value) (TableItem.assign items i.meaning key value) := by
  obtain ⟨before, after, rfl, rfl, hentries⟩ := hp
  have hdistinct := hh.distinct
  rw [TableItem.assign_append hdistinct]
  rw [← List.length_map (f := Option.map TableItem.entry)]
  refine ⟨hh.sound.setValue hentries value, ?_, ?_, ?_⟩
  · refine ⟨before ++ some { i with value := value } :: after, by simp [List.reduceOption_append], ?_⟩
    rw [ValueTable.entries_setValue hentries]
    simp [TableItem.entry]
  · intro j hj
    rw [List.mem_append, List.mem_cons] at hj
    obtain hj | rfl | hj := hj
    · exact hh.reads j (by simp [hj])
    · exact hh.reads i (by simp)
    · exact hh.reads j (by simp [hj])
  · simpa using hdistinct

/-- A new item comes last. -/
theorem Holds.insertNew (hh : s.Holds t items) {k : TableKey} (hk : ∀ j ∈ items, j.meaning ≠ k)
    {key : Value} (hkey : s.IsKey key k) (value : Value) :
    s.Holds (t.insertNew k.hash key value) (TableItem.assign items k key value) := by
  rw [TableItem.assign_of_absent hk]
  obtain ⟨cells, rfl, hentries⟩ := hh.cells
  refine ⟨hh.sound.insertNew _ _ _, ⟨cells ++ [some ⟨k, key, value⟩],
    by simp [List.reduceOption_append], ?_⟩, ?_, ?_⟩
  · rw [ValueTable.entries_insertNew, hentries]
    simp [TableItem.entry]
  · intro j hj
    rw [List.mem_append, List.mem_singleton] at hj
    obtain hj | rfl := hj
    · exact hh.reads j hj
    · exact hkey
  · rw [List.map_append, List.map_singleton]
    refine List.Nodup.append hh.distinct (List.nodup_singleton _) ?_
    simpa using hk

/-- An item is deleted. -/
theorem Holds.remove (hh : s.Holds t items) (hp : Places t items position i) :
    s.Holds (t.remove position).1 (TableItem.remove items i.meaning) := by
  obtain ⟨before, after, rfl, rfl, hentries⟩ := hp
  have hdistinct := hh.distinct
  have hsublist : (before.reduceOption ++ after.reduceOption).Sublist
      (before.reduceOption ++ i :: after.reduceOption) :=
    (List.Sublist.refl _).append (List.sublist_cons_self _ _)
  rw [TableItem.remove_append hdistinct]
  rw [← List.length_map (f := Option.map TableItem.entry)]
  obtain ⟨hsound, hremoved⟩ := ValueTable.remove_eq hh.sound hentries
  refine ⟨hsound, ?_, fun j hj => hh.reads j (hsublist.subset hj),
    hdistinct.sublist (hsublist.map _)⟩
  obtain hremoved | hremoved := hremoved
  · exact ⟨before ++ none :: after, by simp [List.reduceOption_append], by rw [hremoved]; simp⟩
  · refine ⟨(before ++ after).reduceOption.map some, ?_, ?_⟩
    · simp [List.reduceOption]
    · rw [hremoved, ← List.map_append, ← List.reduceOption, List.reduceOption_map]
      simp

end State

namespace Act

variable {s : State} {v : Value} {k : TableKey} {h : Handle} {t : ValueTable}

/-- The search among the entries of a hash ends with the item whose key stands for the same. -/
theorem ends_firstEqual (hf : s.Furnished) (hi : s.heap.Interned)
    (hroom : s.reentrant < s.settings.maxReentrant) (hv : s.IsKey v k)
    (ht : s.table? (.object h) = some t) (cells : List (Option TableItem))
    (hreads : ∀ i ∈ cells.reduceOption, s.IsKey i.key i.meaning)
    (before : List (Option ValueTable.Entry))
    (hentries : t.entries.toList = before ++ cells.map (Option.map TableItem.entry)) :
    let search := firstEqual h v
      ((cells.map (Option.map TableItem.entry)).findIdxs (hasHash k.hash) before.length) s
    (∃ (before' : List (Option TableItem)) (i : TableItem) (after : List (Option TableItem)),
      cells = before' ++ some i :: after ∧ i.meaning = k ∧
      search.Ends (some (before.length + before'.length)) s) ∨
    ((∀ i ∈ cells.reduceOption, i.meaning ≠ k) ∧ search.Ends none s) := by
  induction cells generalizing before with
  | nil => exact .inr ⟨by simp, .done _ _⟩
  | cons cell cells ih =>
    obtain ih := ih (fun i hi => hreads i (by cases cell <;> simp_all))
      (before ++ [cell.map TableItem.entry]) (by simpa using hentries)
    -- the search goes on behind the first entry
    have hskip : ∀ {p : Proc (Option Nat)}, (∀ i, cell = some i → i.meaning ≠ k) →
        (∀ r, (firstEqual h v ((cells.map (Option.map TableItem.entry)).findIdxs (hasHash k.hash)
          (before.length + 1)) s).Ends r s → p.Ends r s) →
        (∃ (before' : List (Option TableItem)) (i : TableItem) (after : List (Option TableItem)),
          cell :: cells = before' ++ some i :: after ∧ i.meaning = k ∧
          p.Ends (some (before.length + before'.length)) s) ∨
        ((∀ i ∈ (cell :: cells).reduceOption, i.meaning ≠ k) ∧ p.Ends none s) := by
      intro p hne hp
      rw [List.length_append, List.length_singleton] at ih
      obtain ⟨before', i, after, rfl, hk, hends⟩ | ⟨habsent, hends⟩ := ih
      · refine .inl ⟨cell :: before', i, after, rfl, hk, ?_⟩
        simpa [Nat.add_assoc, Nat.add_comm 1] using hp _ hends
      · refine .inr ⟨fun i hi => ?_, hp _ hends⟩
        rw [List.reduceOption_mem_iff, List.mem_cons] at hi
        exact hi.elim (fun heq => hne i heq.symm) fun hmem =>
          habsent i (List.reduceOption_mem_iff.2 hmem)
    have hentry : tableEntry h before.length s = .done (cell.map TableItem.entry) s := by
      unfold tableEntry
      rw [gets_run, ht, Option.bind_some, ValueTable.entryAt?_append hentries]
    rw [List.map_cons, List.findIdxs_cons]
    cases cell with
    | none => exact hskip nofun fun r hr => hr
    | some i =>
      have hkey := hreads i (by simp)
      have hequal := ends_equal hf hi (fun _ => hroom) hkey.reads s ⟨rfl, rfl, rfl, rfl⟩ v k hv.reads
      rw [hkey.equals_eq hv] at hequal
      by_cases hk : i.meaning = k
      · refine .inl ⟨[], i, cells, rfl, hk, ?_⟩
        rw [if_pos (by simp [hasHash, TableItem.entry, hk])]
        rw [decide_eq_true hk] at hequal
        exact ends_bind (ends_of_run hentry) (ends_bind hequal (.done _ _))
      · refine hskip (fun _ heq => Option.some.inj heq ▸ hk) fun r hr => ?_
        split
        · rw [decide_eq_false hk] at hequal
          exact ends_bind (ends_of_run hentry) (ends_bind hequal hr)
        · exact hr

/-- The search for a key ends at its item if there is one. -/
theorem ends_tableFind {items : List TableItem} (hf : s.Furnished) (hi : s.heap.Interned)
    (hroom : s.reentrant < s.settings.maxReentrant) (hv : s.IsKey v k)
    (ht : s.table? (.object h) = some t) (hh : s.Holds t items) :
    (∃ position i, State.Places t items position i ∧ i.meaning = k ∧
      (tableFind h v k.hash s).Ends (some position) s) ∨
    ((∀ i ∈ items, i.meaning ≠ k) ∧ (tableFind h v k.hash s).Ends none s) := by
  obtain ⟨cells, rfl, hentries⟩ := hh.cells
  have hcandidates : tableFind h v k.hash s = firstEqual h v
      ((cells.map (Option.map TableItem.entry)).findIdxs (hasHash k.hash)) s := by
    unfold tableFind
    rw [bind_run, gets_run, ht, Option.map_some, Option.getD_some, hh.sound.buckets, hentries]
    rfl
  rw [hcandidates]
  obtain ⟨before, i, after, rfl, hk, hends⟩ | hnone :=
    ends_firstEqual hf hi hroom hv ht cells hh.reads [] hentries
  · refine .inl ⟨before.length, i, ⟨before, after, rfl,
      by simp [List.reduceOption_append], by simpa using hentries⟩, hk, ?_⟩
    simpa using hends
  · exact .inr hnone

/-! ## Getting, setting and deleting -/

section Operations

variable {items : List TableItem} (hf : s.Furnished) (hi : s.heap.Interned)
  (hroom : s.reentrant < s.settings.maxReentrant) (hv : s.IsKey v k)
  (ht : s.table? (.object h) = some t) (hh : s.Holds t items)
include hf hi hroom hv ht hh

/-- Getting gives the value of the item. -/
theorem ends_tableGet : (tableGet h v s).Ends (TableItem.find items k) s := by
  have hhash := ends_hash hf hi (fun _ => hroom) hv.reads s ⟨rfl, rfl, rfl, rfl⟩
  refine ends_bind hhash ?_
  obtain ⟨position, i, hp, rfl, hfound⟩ | ⟨habsent, hfound⟩ := ends_tableFind hf hi hroom hv ht hh
  · have hentry : tableEntry h position s = .done (some i.entry) s := by
      unfold tableEntry
      rw [gets_run, ht, Option.bind_some, hp.entryAt?]
    rw [hp.find hh]
    exact ends_bind hfound (ends_bind (ends_of_run hentry) (.done _ _))
  · rw [TableItem.find_of_absent habsent]
    exact ends_bind hfound (.done _ _)

/-- Setting overwrites the value of the item or makes a new one. -/
theorem ends_tableSet (value : Value) : ∃ f,
    (tableSet h v value s).Ends () (s.update h (Object.mapTable f)) ∧
      s.Holds (f t) (TableItem.assign items k v value) := by
  have hhash := ends_hash hf hi (fun _ => hroom) hv.reads s ⟨rfl, rfl, rfl, rfl⟩
  obtain ⟨position, i, hp, rfl, hfound⟩ | ⟨habsent, hfound⟩ := ends_tableFind hf hi hroom hv ht hh
  · exact ⟨(·.setValue position value), ends_bind hhash (ends_bind hfound (.done _ _)),
      hh.setValue hp v value⟩
  · exact ⟨(·.insertNew k.hash v value), ends_bind hhash (ends_bind hfound (.done _ _)),
      hh.insertNew habsent hv value⟩

/-- Deleting tells whether there was an item. -/
theorem ends_tableDelete : ∃ u,
    (tableDelete h v s).Ends (items.any (·.meaning = k)) u ∧
      (u = s ∧ s.Holds t (TableItem.remove items k) ∨
        ∃ f, u = s.update h (Object.mapTable f) ∧ s.Holds (f t) (TableItem.remove items k)) := by
  have hhash := ends_hash hf hi (fun _ => hroom) hv.reads s ⟨rfl, rfl, rfl, rfl⟩
  obtain ⟨position, i, hp, rfl, hfound⟩ | ⟨habsent, hfound⟩ := ends_tableFind hf hi hroom hv ht hh
  · have hentry : tableEntry h position s = .done (some i.entry) s := by
      unfold tableEntry
      rw [gets_run, ht, Option.bind_some, hp.entryAt?]
    refine ⟨_, ?_, .inr ⟨fun t => (t.remove position).1, rfl, hh.remove hp⟩⟩
    rw [hp.any]
    exact ends_bind hhash (ends_bind hfound (ends_bind (ends_of_run hentry) (.done _ _)))
  · refine ⟨s, ?_, .inl ⟨rfl, ?_⟩⟩
    · rw [show items.any (·.meaning = k) = false by simpa using habsent]
      exact ends_bind hhash (ends_bind hfound (.done _ _))
    · rwa [TableItem.remove_of_absent habsent]

end Operations

/-! ## Methods -/

/-- Calls a method of a table by name and takes the result. -/
def ask (h : Handle) (name : String) (args : Array Value) : Act Value := do
  push (.object h)
  modify fun s => { s with stack := s.stack ++ args }
  callMethodNamed name args.size
  pop

/-- The keys that an iteration over a table gives from a state on, up to a number of them. -/
def iterate (h : Handle) : Nat → Value → Act (List Value)
  | 0, _ => pure []
  | count + 1, state => do
    let next ← ask h "__iter__" #[state]
    if next.isTruthy then
      let key ← ask h "__next__" #[next]
      let rest ← iterate h count next
      return key :: rest
    else return []

/-- What the class of tables declares. -/
def tableDecl : CoreClassDecl := CoreClassDecl.schedule[CoreClass.table.index]

/-- A method that the receiver's class has is called at once. -/
theorem callMethodNamed_run {name : String} {key : Key} {argc : Nat} {receiver m : Value}
    {c : Handle} (hkey : s.heap.lookupKey name = some key) (hpeek : s.peek? argc = some receiver)
    (hclass : s.classOf? receiver = some c) (hm : s.method? c key = some m) :
    callMethodNamed name argc s = callMethodSync m argc s := by
  have hintern : internKey name s = .done key s := by
    unfold internKey modifyGet
    simp only [Heap.internKey_of_lookupKey hkey]
  have hreceiver : peek argc s = .done receiver s := require_run _ _ hpeek
  have hclass : classOf receiver s = .done c s := require_run _ _ hclass
  simp only [callMethodNamed, bind_run, hintern, hreceiver, hclass, gets_run, Proc.bind, hm]

/-- The receiver stands below the arguments. -/
theorem peek?_receiver (s : State) (v : Value) (args : Array Value) :
    State.peek? { s with stack := s.stack.push v ++ args } args.size = some v := by
  have hsize : (s.stack.push v ++ args).size - 1 - args.size = s.stack.size := by
    simp
  unfold State.peek?
  dsimp only
  rw [if_pos (by simp), hsize]
  simp [Array.getElem?_append]

/-- A method of tables gives what its function pushes. -/
theorem ends_ask (hf : s.Furnished) (hi : s.heap.Interned)
    (hroom : s.reentrant < s.settings.maxReentrant) (hget : s.heap.get? h = some (.table t))
    {name : String} {g : CoreSignature} (hg : tableDecl.own? name = some g) (hd : g.defaults = [])
    (hvararg : g.vararg = false) {args : Array Value} (hargs : args.size = g.arity.toNat)
    {heap : Heap} {r : Value}
    (hbody : (runCore g.function
      { s with stack := s.stack.push (.object h) ++ args, apiBase := s.stack.size }).Ends ()
      { s with
        stack := (s.stack.push (.object h) ++ args).push r
        apiBase := s.stack.size
        heap := heap }) : (ask h name args s).Ends r { s with heap := heap } := by
  obtain ⟨key, hkey⟩ := hf.named (c := .table) (d := tableDecl) rfl hg
  obtain ⟨x, o, hm, hx, ho⟩ := hf.own hi (c := .table) rfl hg hkey
  have hclass : s.classOf? (.object h) = some (s.coreClass .table) := by simp [State.classOf?, hget]
  have hcall := ends_callMethodSync hroom hx ho hd hvararg hargs hbody
  rw [← callMethodNamed_run (s := { s with stack := s.stack.push (.object h) ++ args }) hkey
    (peek?_receiver s _ args) hclass hm] at hcall
  refine ends_bind (.done () _) (ends_bind (.done () _) (ends_bind hcall ?_))
  exact ends_of_run (pop_pushed { s with heap := heap } r)

/-- A method of tables whose function is at fault never gives anything. -/
theorem not_ends_ask (hf : s.Furnished) (hi : s.heap.Interned)
    (hget : s.heap.get? h = some (.table t)) {name : String} {g : CoreSignature}
    (hg : tableDecl.own? name = some g) (hd : g.defaults = []) (hvararg : g.vararg = false)
    {args : Array Value} (hargs : args.size = g.arity.toNat) {e : Fault}
    (hbody : runCore g.function
      { s with stack := s.stack.push (.object h) ++ args, apiBase := s.stack.size } = .fault e)
    (r : Value) (u : State) : ¬ (ask h name args s).Ends r u := by
  obtain ⟨key, hkey⟩ := hf.named (c := .table) (d := tableDecl) rfl hg
  obtain ⟨x, o, hm, hx, ho⟩ := hf.own hi (c := .table) rfl hg hkey
  have hclass : s.classOf? (.object h) = some (s.coreClass .table) := by simp [State.classOf?, hget]
  have hask : ask h name args s =
      (callMethodSync (.object x) args.size { s with stack := s.stack.push (.object h) ++ args }).bind
        fun _ => pop := by
    rw [← callMethodNamed_run (s := { s with stack := s.stack.push (.object h) ++ args }) hkey
      (peek?_receiver s _ args) hclass hm]
    rfl
  intro hends
  rw [hask] at hends
  cases hends with
  | call hsize hroom hmethod hframes hrest =>
    rw [enterMethod_eq hx ho hd hvararg hargs, attempt, hbody] at hmethod
    cases hmethod

/-- The receiver of a method is a table. -/
theorem receiverTable_run (s : State) (stack args : Array Value)
    (ht : s.table? (.object h) = some t) :
    receiverTable { s with stack := stack.push (.object h) ++ args, apiBase := stack.size } =
      .done (some h) { s with stack := stack.push (.object h) ++ args, apiBase := stack.size } := by
  have hreceiver := getSlot_receiver s stack (.object h) args
  have htable : State.table? { s with
    stack := stack.push (.object h) ++ args, apiBase := stack.size } (.object h) = some t := ht
  simp only [receiverTable, bind_run, hreceiver, Proc.bind, gets_run, htable]
  rfl

/-- The stack and the base have nothing to do with what values stand for. -/
theorem beside_call (s : State) (stack : Array Value) (base : Nat) :
    s.Beside { s with stack := stack, apiBase := base } := ⟨rfl, rfl, rfl, rfl⟩

section Methods

variable {items : List TableItem} (hf : s.Furnished) (hi : s.heap.Interned)
  (hroom : s.reentrant < s.settings.maxReentrant) (hget : s.heap.get? h = some (.table t))
  (hh : s.Holds t items)
include hf hi hroom hget hh

/-- Asking whether there is an item for a key. -/
theorem ends_contains (hv : s.IsKey v k) :
    (ask h "contains" #[v] s).Ends (.bool (items.any (·.meaning = k))) s := by
  have htable : s.table? (.object h) = some t := by simp [State.table?, hget]
  have hbeside := beside_call s (s.stack.push (.object h) ++ #[v]) s.stack.size
  have hfound := ends_tableGet (hf.beside hbeside) hi hroom (hv.beside hbeside) htable
    (hh.beside hbeside)
  rw [← TableItem.isSome_find]
  refine ends_ask hf hi hroom hget rfl rfl rfl rfl ?_
  refine ends_bind (ends_of_run (getSlot_argument s s.stack _ v)) ?_
  refine ends_bind (ends_of_run (receiverTable_run s s.stack #[v] htable)) ?_
  exact ends_bind hfound (.done _ _)

/-- Removing the item for a key. -/
theorem ends_delete (hv : s.IsKey v k) : ∃ u,
    (ask h "delete" #[v] s).Ends (.bool (items.any (·.meaning = k))) u ∧
      (u = s ∧ s.Holds t (TableItem.remove items k) ∨
        ∃ f, u = s.update h (Object.mapTable f) ∧ s.Holds (f t) (TableItem.remove items k)) := by
  have htable : s.table? (.object h) = some t := by simp [State.table?, hget]
  have hbeside := beside_call s (s.stack.push (.object h) ++ #[v]) s.stack.size
  obtain ⟨u, hdeleted, hu⟩ := ends_tableDelete (hf.beside hbeside) hi hroom (hv.beside hbeside)
    htable (hh.beside hbeside)
  obtain ⟨rfl, hholds⟩ | ⟨f, rfl, hholds⟩ := hu
  · refine ⟨s, ends_ask hf hi hroom hget rfl rfl rfl rfl ?_, .inl ⟨rfl, hholds.beside hbeside.symm⟩⟩
    refine ends_bind (ends_of_run (getSlot_argument s s.stack _ v)) ?_
    refine ends_bind (ends_of_run (receiverTable_run s s.stack #[v] htable)) ?_
    exact ends_bind hdeleted (.done _ _)
  · refine ⟨_, ends_ask hf hi hroom hget rfl rfl rfl rfl ?_, .inr ⟨f, rfl, hholds.beside hbeside.symm⟩⟩
    refine ends_bind (ends_of_run (getSlot_argument s s.stack _ v)) ?_
    refine ends_bind (ends_of_run (receiverTable_run s s.stack #[v] htable)) ?_
    exact ends_bind hdeleted (.done _ _)

/-- Asking for the number of items. -/
theorem ends_len : (ask h "len" #[] s).Ends (.number (.ofNat items.length)) s := by
  have hsize : ((s.table? (.object h)).map (·.size)).getD 0 = items.length := by
    simp [State.table?, hget, hh.size]
  rw [← hsize]
  refine ends_ask hf hi hroom hget rfl rfl rfl rfl ?_
  exact ends_bind (ends_of_run (getSlot_receiver s s.stack _ #[])) (.done _ _)

omit hh in
/-- The next state of an iteration is the position of the next item. -/
theorem ends_iter {state : Value} {after next : Option Nat}
    (hstate : tablePosition? state = some after) (hnext : t.nextPosition? after = some next) :
    (ask h "__iter__" #[state] s).Ends
      ((next.map fun p => Value.number (.ofNat p)).getD (.bool false)) s := by
  have hentry : nextEntry (State.table? { s with
      stack := s.stack.push (.object h) ++ #[state], apiBase := s.stack.size } (.object h)) after =
      some next := by
    rw [← hnext]
    simp [State.table?, hget, nextEntry]
  refine ends_ask hf hi hroom hget rfl rfl rfl rfl ?_
  refine ends_bind (ends_of_run (getSlot_receiver s s.stack _ #[state])) ?_
  refine ends_bind (ends_of_run (getSlot_argument s s.stack _ state)) ?_
  rw [hstate]
  refine ends_bind (ends_of_run (require_run _ .overflow hentry)) ?_
  cases next <;> exact .done _ _

omit hroom hh in
/-- Behind the greatest word there is no next state. -/
theorem not_ends_iter {state : Value} {after : Option Nat} (hstate : tablePosition? state = some after)
    (hnext : t.nextPosition? after = none) (r : Value) (u : State) :
    ¬ (ask h "__iter__" #[state] s).Ends r u := by
  have hentry : nextEntry (State.table? { s with
      stack := s.stack.push (.object h) ++ #[state], apiBase := s.stack.size } (.object h)) after =
      none := by
    rw [← hnext]
    simp [State.table?, hget, nextEntry]
  refine not_ends_ask hf hi hget rfl rfl rfl rfl (e := .overflow) ?_ r u
  have hreceiver := getSlot_receiver s s.stack (.object h) #[state]
  have hargument := getSlot_argument s s.stack (.object h) state
  simp only [runCore, bind_run, hreceiver, hargument, Proc.bind_done, hstate, require, hentry]
  rfl

omit hh in
/-- The element of a position is the key of its entry. -/
theorem ends_next {p : Nat} (hp : p < 2 ^ 53) {e : ValueTable.Entry} (he : t.entryAt? p = some e) :
    (ask h "__next__" #[.number (.ofNat p)] s).Ends e.key s := by
  have hentry : (s.table? (.object h)).bind (fun t =>
      (positionOf (.number (.ofNat p))).bind t.entryAt?) = some e := by
    simp [State.table?, hget, positionOf, Value.index?, Number.toIndex?_ofNat hp, he]
  refine ends_ask hf hi hroom hget rfl rfl rfl rfl ?_
  refine ends_bind (ends_of_run (getSlot_receiver s s.stack _ #[_])) ?_
  refine ends_bind (ends_of_run (getSlot_argument s s.stack _ _)) ?_
  refine ends_bind (ends_of_run (a := some e) (congrArg (Proc.done · _) hentry)) ?_
  exact .done () _

omit hf hi hroom hget hh in
/-- No entry comes next if there are no more items. -/
theorem nextFrom_of_nil {before rest : List (Option TableItem)}
    (hentries : t.entries.toList = (before ++ rest).map (Option.map TableItem.entry))
    (hrest : rest.reduceOption = []) : t.nextFrom before.length = none := by
  rw [List.map_append] at hentries
  rw [← List.length_map (f := Option.map TableItem.entry)]
  refine ValueTable.nextFrom_of_holes (fun cell hcell => ?_) hentries
  obtain ⟨cell, hmem, rfl⟩ := List.mem_map.1 hcell
  cases cell with
  | none => rfl
  | some i =>
    rw [← List.reduceOption_mem_iff, hrest] at hmem
    cases hmem

omit hf hi hroom hget hh in
/-- The entry of the first item comes next. -/
theorem nextFrom_of_cons {before rest : List (Option TableItem)} {i : TableItem}
    (hentries : t.entries.toList = (before ++ rest).map (Option.map TableItem.entry))
    (hrest : rest.reduceOption = i :: items) : ∃ holes rest', rest = holes ++ some i :: rest' ∧
      rest'.reduceOption = items ∧ t.nextFrom before.length = some (before.length + holes.length) := by
  obtain ⟨holes, cell, rest', rfl, hholes, rfl, hitems⟩ := List.filterMap_eq_cons_iff.1 hrest
  refine ⟨holes, rest', rfl, hitems, ?_⟩
  rw [List.map_append, List.map_append, List.map_cons] at hentries
  have hlength : ∀ cells : List (Option TableItem),
      cells.length = (cells.map (Option.map TableItem.entry)).length := by simp
  rw [hlength before, hlength holes]
  refine ValueTable.nextFrom_append (fun cell hcell => ?_) hentries
  obtain ⟨cell, hmem, rfl⟩ := List.mem_map.1 hcell
  rw [show cell = none from hholes cell hmem]
  rfl

omit hf hi hroom hget hh in
/-- The entry behind a number of holes. -/
theorem entryAt?_cells {before holes rest : List (Option TableItem)} {i : TableItem}
    (hentries : t.entries.toList =
      (before ++ (holes ++ some i :: rest)).map (Option.map TableItem.entry)) :
    t.entryAt? (before.length + holes.length) = some i.entry := by
  rw [← List.append_assoc, List.map_append, List.map_cons] at hentries
  simpa using ValueTable.entryAt?_append hentries

omit hh in
/-- An iteration gives the keys in order. -/
theorem ends_iterate (hsize : t.entries.size ≤ 2 ^ 53) (count : Nat)
    (before rest : List (Option TableItem))
    (hentries : t.entries.toList = (before ++ rest).map (Option.map TableItem.entry))
    {state : Value} {after : Option Nat} (hstate : tablePosition? state = some after)
    (hafter : t.nextPosition? after = some (t.nextFrom before.length)) :
    (iterate h count state s).Ends ((rest.reduceOption.map (·.key)).take count) s := by
  induction count generalizing before rest state after with
  | zero =>
    rw [List.take_zero]
    exact .done _ _
  | succ count ih =>
    have hiter := ends_iter hf hi hroom hget hstate hafter
    cases hrest : rest.reduceOption with
    | nil =>
      rw [nextFrom_of_nil hentries hrest] at hiter
      exact ends_bind hiter (.done _ _)
    | cons i items =>
      obtain ⟨holes, rest', rfl, rfl, hnext⟩ := nextFrom_of_cons hentries hrest
      rw [hnext] at hiter
      -- the iteration goes on behind the item
      have hentries' : t.entries.toList =
          ((before ++ holes ++ [some i]) ++ rest').map (Option.map TableItem.entry) := by
        simpa using hentries
      have hposition : before.length + holes.length + 1 ≤ t.entries.size := by
        rw [← Array.length_toList, hentries]
        simp
      have hexact : before.length + holes.length < 2 ^ 53 := by omega
      have hkey := ends_next hf hi hroom hget hexact (e := i.entry) (entryAt?_cells hentries)
      have hstate' : tablePosition? (.number (.ofNat (before.length + holes.length))) =
          some (some (before.length + holes.length)) := by
        simp [tablePosition?, Number.zero_lessEq_ofNat hexact, Number.clampWord_ofNat hexact]
      have hlater := ih (before ++ holes ++ [some i]) rest' hentries' hstate' (by
        rw [t.nextPosition?_of_lt (by rw [Number.pow2_eq]; omega)]
        simp [Nat.add_assoc])
      exact ends_bind hiter (ends_bind hkey (ends_bind hlater (.done _ _)))

end Methods

end Act

end ScriptEngine
