import ScriptEngine.Proofs.ExactSums
import ScriptEngine.Proofs.TableOrder
import ScriptEngine.Proofs.TableMap

/-!
# What the core module iterates over

Strings, lists, tuples and tables are iterated over by position. Two functions of the core module do
it: one goes from a state to the next one, beginning with null, the other gives the element that a
state stands for. From state to state they come by the positions of all elements in order, and end
with a falsy state. Positions must be exact as numbers; those of a table count its holes.
-/

namespace ScriptEngine

/-! ## Positions and elements -/

/-- Which functions of the core module iterate over an object. -/
structure Iterator where
  /-- The class that has them. -/
  owner : CoreClass
  /-- Gives the next state. -/
  iter : CoreFunction
  /-- Gives the element. -/
  next : CoreFunction

namespace Object

/-- What iterates over an object of the core module. -/
def iterator? : Object → Option Iterator
  | .string _ => some ⟨.string, .stringIter, .stringNext⟩
  | .list _ => some ⟨.list, .listIter, .listNext⟩
  | .tuple _ => some ⟨.tuple, .tupleIter, .tupleNext⟩
  | .table _ => some ⟨.table, .tableIter, .tableNext⟩
  | _ => none

/-- A bound for positions. -/
def extent : Object → Nat
  | .string t => t.data.size
  | .list items | .tuple items => items.size
  | .table t => t.entries.size
  | _ => 0

/-- The items of a list or a tuple. -/
def items? : Object → Option (Array Value)
  | .list items | .tuple items => some items
  | _ => none

/-- The positions of the elements, in order. -/
def positions : Object → List Nat
  | .string t => List.range t.data.size
  | .list items | .tuple items => List.range items.size
  | .table t => t.positions
  | _ => []

/-- The number of elements. -/
def count : Object → Nat
  | .string t => t.data.size
  | .list items | .tuple items => items.size
  | .table t => t.toList.length
  | _ => 0

/-- A value is an element of an object: an octet of a string as an interned string of its own, an
item of a list or a tuple, a key of a table. The keys of a table that changes have made are those
that have been inserted and not removed, in the order of their insertion. -/
def HasElement (o : Object) (heap : Heap) (k : Nat) (v : Value) : Prop :=
  match o with
  | .string t => ∃ b x, t.data.data[k]? = some b ∧ v = .object x ∧
      heap.string? x = some (Heap.internedString ⟨#[b]⟩)
  | .list items | .tuple items => items[k]? = some v
  | .table t => t.toList[k]?.map (·.key) = some v ∧
      ∀ changes, t = .ofChanges changes →
        ((ValueTable.ledger changes)[k]?).map (·.2.key) = some v
  | _ => False

/-- The state that stands for a position, or a falsy one. -/
def stateOf : Option Nat → Value
  | some p => .number (.ofNat p)
  | none => .bool false

/-- The state of an iteration that has come by so many positions. -/
def stateIn (positions : List Nat) : Nat → Value
  | 0 => .null
  | k + 1 => stateOf positions[k]?

/-- The state that comes after a state; `none` if the successor of its position overflows. -/
def stateAfter (o : Object) (state : Value) : Option Value :=
  match o with
  | .string t => nextIndex t.data.size state
  | .list items | .tuple items => nextIndex items.size state
  | .table t =>
    match Act.tablePosition? state with
    | some after => (t.nextPosition? after).map stateOf
    | none => some (.bool false)
  | _ => some (.bool false)

variable {o : Object} {t : ValueTable} {k n p : Nat}

/-! ## From state to state -/

/-- After the state for a position comes the one for the next position below the bound. -/
theorem nextIndex_range (h : p < n) (hn : n ≤ 2 ^ 53) :
    nextIndex n (stateOf (some p)) = some (stateOf (List.range n)[p + 1]?) := by
  have hp : p < 2 ^ 53 := by omega
  have hword : nextWord? p = some (p + 1) := nextWord?_of_lt (by rw [Number.pow2_eq]; omega)
  unfold nextIndex stateOf
  dsimp only
  rw [if_pos (Number.zero_lessEq_ofNat hp), Number.clampWord_ofNat hp, hword, Option.map_some]
  by_cases hnext : p + 1 < n
  · rw [if_pos hnext, List.getElem?_range hnext, Number.add_ofNat (by omega)]
  · rw [if_neg hnext, List.getElem?_eq_none (by simp; omega)]

/-- The indices of a sequence come one after another. -/
theorem nextIndex_stateIn (hk : k ≤ n) (hn : n ≤ 2 ^ 53) :
    nextIndex n (stateIn (List.range n) k) = some (stateOf (List.range n)[k]?) := by
  cases k with
  | zero =>
    unfold nextIndex stateIn
    by_cases h : 0 < n
    · rw [if_pos h, List.getElem?_range h]
      rfl
    · rw [if_neg h, List.getElem?_eq_none (by simp; omega)]
      rfl
  | succ k =>
    rw [stateIn, List.getElem?_range hk]
    exact nextIndex_range hk hn

/-- A walk goes on from any position that it comes by. -/
theorem nextPosition_walk {positions : List Nat} {start : Option Nat}
    (hwalk : ∀ steps, t.walk steps start = positions.take steps) :
    t.nextPosition start = positions[0]? ∧
      ∀ k p, positions[k]? = some p → t.nextPosition (some p) = positions[k + 1]? := by
  induction positions generalizing start with
  | nil =>
    have hfirst := hwalk 1
    refine ⟨?_, nofun⟩
    cases hnext : t.nextPosition start with
    | none => rfl
    | some p => simp [ValueTable.walk, hnext] at hfirst
  | cons q rest ih =>
    have hnext : t.nextPosition start = some q := by
      have hfirst := hwalk 1
      cases hnext : t.nextPosition start with
      | none => simp [ValueTable.walk, hnext] at hfirst
      | some p => simpa [ValueTable.walk, hnext] using hfirst
    have hrest : ∀ steps, t.walk steps (some q) = rest.take steps := by
      intro steps
      have hmore := hwalk (steps + 1)
      rw [ValueTable.walk, hnext, List.take_succ_cons] at hmore
      exact (List.cons.inj hmore).2
    obtain ⟨hzero, hlater⟩ := ih hrest
    refine ⟨hnext, fun k p hp => ?_⟩
    cases k with
    | zero =>
      obtain rfl := Option.some.inj hp
      exact hzero
    | succ k => exact hlater k p hp

/-- The positions of a table lie within its entries. -/
theorem mem_positions_lt (hp : p ∈ t.positions) : p < t.entries.size := by
  rw [ValueTable.positions, List.mem_findIdxs_iff_exists_getElem_pos] at hp
  obtain ⟨hlt, -⟩ := hp
  simpa using hlt

/-- The positions of the entries of a table come one after another. -/
theorem nextPosition_stateIn (hn : t.entries.size ≤ 2 ^ 53) (hk : k ≤ t.positions.length) :
    (Object.table t).stateAfter (stateIn t.positions k) = some (stateOf t.positions[k]?) := by
  have hsize : t.entries.size < pow2 64 := by
    rw [Number.pow2_eq]
    omega
  have hwalk : ∀ steps, t.walk steps none = t.positions.take steps :=
    ValueTable.walk_eq hsize (List.nil_append _).symm rfl
  obtain ⟨hzero, hlater⟩ := nextPosition_walk hwalk
  cases k with
  | zero => exact congrArg (fun next => some (stateOf next)) hzero
  | succ k =>
    have hget := List.getElem?_eq_getElem hk
    have hlt := mem_positions_lt (List.getElem_mem hk)
    have hexact : t.positions[k] < 2 ^ 53 := Nat.lt_of_lt_of_le hlt hn
    have hword : t.positions[k] + 1 < pow2 64 := Nat.lt_of_le_of_lt hlt hsize
    have hnext := hlater k _ hget
    rw [t.nextPosition_of_lt hword] at hnext
    have hposition : Act.tablePosition? (stateOf (some t.positions[k])) =
        some (some t.positions[k]) := by
      simp [stateOf, Act.tablePosition?, Number.zero_lessEq_ofNat hexact,
        Number.clampWord_ofNat hexact]
    rw [stateIn, hget, stateAfter, hposition]
    dsimp only
    rw [t.nextPosition?_of_lt hword, hnext, Option.map_some]

/-- An iteration goes from state to state by the positions of all elements in order. -/
theorem stateAfter_stateIn (hn : o.extent ≤ 2 ^ 53) (hk : k ≤ o.positions.length) :
    o.stateAfter (stateIn o.positions k) = some (stateOf o.positions[k]?) := by
  cases o with
  | string t => exact nextIndex_stateIn (by simpa [positions] using hk) hn
  | list items => exact nextIndex_stateIn (by simpa [positions] using hk) hn
  | tuple items => exact nextIndex_stateIn (by simpa [positions] using hk) hn
  | table t => exact nextPosition_stateIn hn hk
  | _ => simp [stateAfter, positions, stateOf]

/-- An object has as many positions as elements. -/
theorem length_positions (o : Object) : o.positions.length = o.count := by
  cases o with
  | table t =>
    have hlength := congrArg List.length (ValueTable.entryAt?_positions t)
    rwa [List.length_map, List.length_map] at hlength
  | _ => simp [positions, count]

/-- The positions of an object lie within its extent. -/
theorem mem_positions_extent (hp : p ∈ o.positions) : p < o.extent := by
  cases o with
  | table t => exact mem_positions_lt hp
  | string t => exact List.mem_range.1 hp
  | list items => exact List.mem_range.1 hp
  | tuple items => exact List.mem_range.1 hp
  | _ => cases hp

/-- The state for a position stands for it. -/
theorem positionOf_stateOf (h : p < 2 ^ 53) : positionOf (stateOf (some p)) = some p := by
  simp [positionOf, stateOf, Value.index?, Number.toIndex?_ofNat h]

/-- The entry at the position of a key has that key. -/
theorem hasElement_table (heap : Heap) (h : t.positions[k]? = some p) :
    ∃ e, t.entryAt? p = some e ∧ (Object.table t).HasElement heap k e.key := by
  have hentries := congrArg (·[k]?) (ValueTable.entryAt?_positions t)
  simp only [List.getElem?_map, h, Option.map_some] at hentries
  obtain ⟨e, he, hentry⟩ := Option.map_eq_some_iff.1 hentries.symm
  refine ⟨e, hentry.symm, by rw [he]; rfl, ?_⟩
  rintro changes rfl
  rw [ValueTable.ledger_lists, List.getElem?_map] at he
  obtain ⟨x, hx, rfl⟩ := Option.map_eq_some_iff.1 he
  rw [hx]
  rfl

end Object

/-! ## The functions of the core module -/

open Object

/-- A handle is that of a core function of one argument. -/
def Heap.Serves (heap : Heap) (x : Handle) (name : String) (f : CoreFunction) : Prop :=
  ∃ n, heap.get? x = some (.native n) ∧ n.Implements ⟨name, 1, f, [], false⟩

namespace Act

variable {s : State} {h x : Handle} {o : Object} {i : Iterator} {heap : Heap} {f : CoreFunction}
  {name : String} {v a r : Value} {k p : Nat}

/-- A function of the core module of one argument gives what it pushes. -/
theorem enterMethod_serves (hx : s.heap.Serves x name f)
    (hbody : runCore f { s with stack := s.stack.push v ++ #[a], apiBase := s.stack.size } =
      .done () { s with
        stack := (s.stack.push v ++ #[a]).push r
        apiBase := s.stack.size
        heap := heap }) :
    enterMethod (.object x) 1 { s with stack := s.stack.push v ++ #[a] } =
      .done .next { s with stack := s.stack.push r, heap := heap } := by
  obtain ⟨n, hget, hn⟩ := hx
  have hargs : (#[a] : Array Value).size = (1 : UInt8).toNat := rfl
  have henter := enterMethod_eq (v := v) hget hn rfl rfl hargs
  rw [attempt, hbody] at henter
  refine henter.trans ?_
  rw [Proc.attempt, Proc.bind_done, if_pos rfl, settle_push { s with heap := heap }]

/-- It gives nothing if what it does is at fault. -/
theorem enterMethod_fault (hx : s.heap.Serves x name f) {e : Fault}
    (hbody : runCore f { s with stack := s.stack.push v ++ #[a], apiBase := s.stack.size } =
      .fault e) :
    enterMethod (.object x) 1 { s with stack := s.stack.push v ++ #[a] } = .fault e := by
  obtain ⟨n, hget, hn⟩ := hx
  have hargs : (#[a] : Array Value).size = (1 : UInt8).toNat := rfl
  have henter := enterMethod_eq (v := v) hget hn rfl rfl hargs
  rw [attempt, hbody] at henter
  exact henter

/-- Calling a core method stops at the limit if its body does. -/
theorem enterMethod_capped (hx : s.heap.Serves x name f)
    (hbody : (runCore f { s with
      stack := s.stack.push v ++ #[a], apiBase := s.stack.size }).Capped s.heap) :
    (enterMethod (.object x) 1 { s with stack := s.stack.push v ++ #[a] }).Capped s.heap := by
  obtain ⟨n, hget, hn⟩ := hx
  have hargs : (#[a] : Array Value).size = (1 : UInt8).toNat := rfl
  have henter := enterMethod_eq (v := v) hget hn rfl rfl hargs
  rw [attempt, hbody.stopped] at henter
  exact ⟨hbody.ceiling, henter⟩

/-- The next state of an iteration. Behind the greatest word there is none. -/
theorem runCore_iter (hget : s.heap.get? h = some o) (hi : o.iterator? = some i) (state : Value) :
    runCore i.iter { s with
      stack := s.stack.push (.object h) ++ #[state], apiBase := s.stack.size } =
      match o.stateAfter state with
      | some next =>
        .done () { s with
          stack := (s.stack.push (.object h) ++ #[state]).push next
          apiBase := s.stack.size }
      | none => .fault .overflow := by
  have hreceiver := getSlot_receiver s s.stack (.object h) #[state]
  have hargument := getSlot_argument s s.stack (.object h) state
  have hnext : ∀ size n, size { s with
      stack := s.stack.push (.object h) ++ #[state], apiBase := s.stack.size } (.object h) = n →
      pushNextIndex size { s with
        stack := s.stack.push (.object h) ++ #[state], apiBase := s.stack.size } =
        match nextIndex n state with
        | some next =>
          .done () { s with
            stack := (s.stack.push (.object h) ++ #[state]).push next
            apiBase := s.stack.size }
        | none => .fault .overflow := by
    rintro size n rfl
    simp only [pushNextIndex, bind_run, hreceiver, hargument, Proc.bind_done, require]
    cases nextIndex _ state <;> rfl
  cases o with
  | string t =>
    cases hi
    exact hnext _ _ (by simp [octetCount, State.string?, Heap.string?, hget])
  | list items =>
    cases hi
    exact hnext _ _ (by simp [sizeOf, State.list?, hget])
  | tuple items =>
    cases hi
    exact hnext _ _ (by simp [sizeOf, State.tuple?, hget])
  | table t =>
    cases hi
    have htable : State.table? { s with
        stack := s.stack.push (.object h) ++ #[state], apiBase := s.stack.size } (.object h) =
        some t := by simp [State.table?, hget]
    simp only [runCore, bind_run, hreceiver, hargument, Proc.bind_done]
    unfold stateAfter
    cases hposition : tablePosition? state with
    | none => rfl
    | some after =>
      simp only [bind_run, require, htable, nextEntry]
      cases t.nextPosition? after with
      | none => rfl
      | some next => cases next <;> rfl
  | _ => cases hi

/-- The function of an object that goes from state to state gives the state after the one it is
given. -/
theorem runCore_iter_of_some (hget : s.heap.get? h = some o) (hi : o.iterator? = some i)
    {state next : Value} (hafter : o.stateAfter state = some next) :
    runCore i.iter { s with
      stack := s.stack.push (.object h) ++ #[state], apiBase := s.stack.size } =
      .done () { s with
        stack := (s.stack.push (.object h) ++ #[state]).push next
        apiBase := s.stack.size } := by
  rw [runCore_iter hget hi, hafter]

/-- The interned string of some octets may have to be made first. What the machine holds stays. -/
theorem intern_ends (hi : s.heap.Interned) (data : ByteArray) :
    (intern data s).Capped s.heap ∨
      ∃ heap' x, intern data s = .done x { s with heap := heap' } ∧ heap'.Interned ∧
        (∀ y ∈ s.roots, ∀ o, s.heap.get? y = some o → heap'.get? y = some o) ∧
        heap'.string? x = some (Heap.internedString data) := by
  unfold intern
  rw [bind_run, gets_run, Proc.bind_done]
  cases hfound : s.heap.findInterned data (Text.fnv1a data) with
  | some x => exact .inr ⟨s.heap, x, rfl, hi, fun _ _ _ h => h, (hi.findInterned.1 hfound).2⟩
  | none =>
    dsimp only
    rw [bind_run]
    obtain hcapped | ⟨heap₁, heq, hkeep⟩ := reserve_ends hi (List.Subset.refl s.roots) data.size []
    · exact .inl (hcapped.bind _)
    obtain ⟨hinterned, hmade, hold, -⟩ := hkeep.interned.intern data
    refine .inr ⟨(heap₁.intern data).1, (heap₁.intern data).2, ?_, hinterned, fun y hy o ho => ?_,
      (hinterned.findInterned.1 hmade).2⟩
    · rw [heq]
      rfl
    · have hkept := hkeep.objects y o (.root hy) ho
      rw [hold y (Heap.isLive_of_get? hkept), hkept]

section Next

variable (hget : s.heap.get? h = some o) (hi : o.iterator? = some i)
include hget hi

/-- An item of a list or a tuple. -/
theorem runCore_next_item {items : Array Value} (hitems : o.items? = some items) (hp : p < 2 ^ 53)
    {e : Value} (he : items[p]? = some e) :
    let inside : State := { s with
      stack := s.stack.push (.object h) ++ #[stateOf (some p)], apiBase := s.stack.size }
    runCore i.next inside = .done () { inside with stack := inside.stack.push e } := by
  intro inside
  have hreceiver : getSlot 0 inside = .done (.object h) inside :=
    getSlot_receiver s s.stack (.object h) #[stateOf (some p)]
  have hargument : getSlot 1 inside = .done (stateOf (some p)) inside :=
    getSlot_argument s s.stack (.object h) (stateOf (some p))
  have hpush : ∀ f : State → Value → Option (Array Value), f inside (.object h) = some items →
      pushElement f inside = .done () { inside with stack := inside.stack.push e } := by
    intro f hf
    simp only [pushElement, bind_run, hreceiver, hargument, Proc.bind_done, gets_run]
    simp [hf, positionOf_stateOf hp, he, State.push]
  cases o with
  | list items =>
    cases hi
    cases hitems
    exact hpush State.list? (by simp [inside, State.list?, hget])
  | tuple items =>
    cases hi
    cases hitems
    exact hpush State.tuple? (by simp [inside, State.tuple?, hget])
  | _ => cases hitems

/-- The element that a state stands for. There may be no room for one of a string. -/
theorem runCore_next (hinterned : s.heap.Interned) (hn : o.extent ≤ 2 ^ 53)
    (hk : o.positions[k]? = some p) :
    let inside : State := { s with
      stack := s.stack.push (.object h) ++ #[stateOf (some p)], apiBase := s.stack.size }
    ((∃ t, o = .string t) ∧ (runCore i.next inside).Capped s.heap) ∨
      ∃ heap' v, runCore i.next inside =
          .done () { inside with stack := inside.stack.push v, heap := heap' } ∧
        heap'.Interned ∧ (∀ y ∈ inside.roots, ∀ o, s.heap.get? y = some o → heap'.get? y = some o) ∧
        o.HasElement heap' k v := by
  intro inside
  have hreceiver : getSlot 0 inside = .done (.object h) inside :=
    getSlot_receiver s s.stack (.object h) #[stateOf (some p)]
  have hargument : getSlot 1 inside = .done (stateOf (some p)) inside :=
    getSlot_argument s s.stack (.object h) (stateOf (some p))
  have hexact : p < 2 ^ 53 :=
    Nat.lt_of_lt_of_le (mem_positions_extent (List.mem_of_getElem? hk)) hn
  have hposition := positionOf_stateOf hexact
  have hindex : ∀ n, (List.range n)[k]? = some p → p = k ∧ p < n := by
    intro n hrange
    obtain ⟨hlt, hp⟩ := List.getElem?_eq_some_iff.1 hrange
    rw [List.getElem_range] at hp
    rw [List.length_range] at hlt
    omega
  cases o with
  | string t =>
    cases hi
    obtain ⟨rfl, hp⟩ := hindex _ hk
    have hstring : inside.string? (.object h) = some t := by
      simp [inside, State.string?, Heap.string?, hget]
    have hoctet : runCore .stringNext inside = (do
        push (.object (← intern ⟨#[t.data.get p hp]⟩))) inside := by
      simp only [runCore, bind_run, hreceiver, hargument, Proc.bind_done, gets_run]
      simp [hstring, hposition, hp]
    rw [hoctet, bind_run]
    obtain hcapped | ⟨heap', x, heq, hinterned', hkept, hmade⟩ :=
      intern_ends (s := inside) hinterned ⟨#[t.data.get p hp]⟩
    · exact .inl ⟨⟨t, rfl⟩, hcapped.bind _⟩
    · rw [heq]
      refine .inr ⟨heap', .object x, rfl, hinterned', hkept, t.data.get p hp, x, ?_, rfl, hmade⟩
      exact Array.getElem?_eq_getElem hp
  | list items =>
    obtain ⟨rfl, hp⟩ := hindex _ hk
    have he := Array.getElem?_eq_getElem hp
    exact .inr ⟨s.heap, items[p], runCore_next_item hget hi rfl hexact he, hinterned,
      fun _ _ _ ho => ho, he⟩
  | tuple items =>
    obtain ⟨rfl, hp⟩ := hindex _ hk
    have he := Array.getElem?_eq_getElem hp
    exact .inr ⟨s.heap, items[p], runCore_next_item hget hi rfl hexact he, hinterned,
      fun _ _ _ ho => ho, he⟩
  | table t =>
    cases hi
    obtain ⟨e, he, helement⟩ := hasElement_table s.heap hk
    refine .inr ⟨s.heap, e.key, ?_, hinterned, fun _ _ _ ho => ho, helement⟩
    have htable : inside.table? (.object h) = some t := by simp [inside, State.table?, hget]
    simp only [runCore, bind_run, hreceiver, hargument, Proc.bind_done, gets_run]
    simp [htable, hposition, he, State.push]
    rfl
  | _ => cases hi

end Next

/-- The class of an object declares what iterates over it. -/
theorem iterator_declared (hi : o.iterator? = some i) :
    ∃ d, CoreClassDecl.schedule[i.owner.index]? = some d ∧
      d.own? "__iter__" = some ⟨"__iter__", 1, i.iter, [], false⟩ ∧
      d.own? "__next__" = some ⟨"__next__", 1, i.next, [], false⟩ := by
  cases o with
  | string | list | tuple | table =>
    cases hi
    exact ⟨_, rfl, rfl, rfl⟩
  | _ => cases hi

/-- The methods that a loop over an object keeps are functions of the core module. -/
theorem iterationMethods_run (hf : s.Furnished) (hinterned : s.heap.Interned)
    (hget : s.heap.get? h = some o) (hi : o.iterator? = some i) : ∃ x y,
      iterationMethods (.object h) s = .done (.object x, .object y) s ∧
        s.heap.Serves x "__iter__" i.iter ∧ s.heap.Serves y "__next__" i.next := by
  obtain ⟨d, hd, hiter, hnext⟩ := iterator_declared hi
  have hclass : classOf (.object h) s = .done (s.coreClass i.owner) s := by
    refine require_run _ _ ?_
    cases o with
    | string | list | tuple | table =>
      cases hi
      simp [State.classOf?, hget]
    | _ => cases hi
  have hiterKey := (hf.specials (.iter, "__iter__") (by decide)).1
  have hnextKey := (hf.specials (.next, "__next__") (by decide)).1
  obtain ⟨x, nx, hmx, hgx, hnx⟩ := hf.own hinterned hd hiter hiterKey
  obtain ⟨y, ny, hmy, hgy, hny⟩ := hf.own hinterned hd hnext hnextKey
  refine ⟨x, y, ?_, ⟨nx, hgx, hnx⟩, ⟨ny, hgy, hny⟩⟩
  simp only [iterationMethods, bind_run, hclass, special, gets_run, Proc.bind_done, hmx, hmy]
  rfl

end Act

end ScriptEngine
