import ScriptEngine.Proofs.ForLoops

/-!
# Spreading lists and tuples

Spreading appends the elements of a value to a list. Lists and tuples are copied at once; anything
else is asked for one element after the other, by the same two functions as a loop. For lists and
tuples it would make no difference to ask: both ways append the same items to the list, in the same
order, and change nothing else. Asking makes calls, and so takes room for one more nested call; the
copy does not.
-/

namespace ScriptEngine

open Object

namespace Act

/-- Spreading as a loop would do it. -/
def spreadByProtocol : Act Control := do
  let v ← peek 0
  let (iter, next) ← iterationMethods v
  push .null
  return .spread v iter next

/-- What is neither a list nor a tuple is spread as a loop would do it. -/
theorem extendList_protocol {s : State} {v : Value} (hv : s.peek? 0 = some v)
    (h : (s.list? v).or (s.tuple? v) = none) : extendList s = spreadByProtocol s := by
  have hpeek : peek 0 s = .done v s := require_run _ _ hv
  simp only [extendList, spreadByProtocol, bind_run, hpeek, Proc.bind_done, gets_run, h]

end Act

namespace State

/-- In `[list, iterable]`, the list has got some items and the iterable has gone; nothing else has
changed. -/
structure Spread (s : State) (below : Array Value) (list : Handle) (items : Array Value)
    (t : State) : Prop where
  /-- The items. -/
  target : t.heap.get? list = some (.list items)
  /-- Other objects stay. -/
  others : ∀ x, x ≠ list → t.heap.get? x = s.heap.get? x
  /-- So does the rest of the machine. -/
  rest : t = { s with stack := below.push (.object list), heap := t.heap }

variable {s : State} {list : Handle} {items more : Array Value}

/-- Appending to a list changes that list alone. -/
theorem get?_appendTo (h : s.heap.get? list = some (.list items)) (v : Value) (x : Handle) :
    (s.appendTo list v).heap.get? x =
      if x = list then some (.list (items.push v)) else s.heap.get? x := by
  unfold appendTo
  rw [get?_update]
  split
  · next heq =>
    rw [heq, h]
    rfl
  · rfl

end State

/-! ## Copying -/

namespace Act

variable {s : State} {below : Array Value} {list h : Handle} {o : Object} {old items : Array Value}

/-- A list or tuple of the heap is read as its items. -/
theorem items?_eq (hget : s.heap.get? h = some o) (hitems : o.items? = some items) :
    (s.list? (.object h)).or (s.tuple? (.object h)) = some items := by
  cases o with
  | list values =>
    cases hitems
    simp [State.list?, hget]
  | tuple values =>
    cases hitems
    simp [State.list?, State.tuple?, hget]
  | _ => cases hitems

/-- Lists and tuples are copied at once. -/
theorem extendList_copies (hstack : s.stack = below ++ #[.object list, .object h])
    (hlist : s.heap.get? list = some (.list old)) (hget : s.heap.get? h = some o)
    (hitems : o.items? = some items) :
    ∃ t, extendList s = .done .next t ∧ s.Spread below list (old ++ items) t := by
  have hpeek : peek 0 s = .done (.object h) s := by
    refine require_run _ _ ?_
    have hpeek := State.peek?_append s below #[.object list, .object h] (by decide : 0 < 2)
    rw [← hstack] at hpeek
    exact hpeek
  have hdrop : s.drop.stack = below.push (.object list) := by
    simp [State.drop, hstack]
  have htop : peek 0 s.drop = .done (.object list) s.drop := by
    refine require_run _ _ ?_
    simp [State.peek?, hdrop]
  refine ⟨?t, ?run, ?_, fun x hx => ?_, ?_⟩
  case run =>
    simp only [extendList, bind_run, hpeek, Proc.bind_done, gets_run, items?_eq hget hitems,
      modify_run, extendTop, htop]
    rfl
  · rw [State.get?_update, if_pos rfl]
    show (s.heap.get? list).map _ = _
    rw [hlist]
    rfl
  · rw [State.get?_update, if_neg hx]
    rfl
  · rw [← hdrop]
    rfl

end Act

/-! ## Asking -/

/-- The spreading of a list or a tuple by the protocol of loops. -/
structure Spreading where
  /-- The machine before. -/
  before : State
  /-- What stands below the list. -/
  below : Array Value
  /-- The list. -/
  target : Handle
  /-- Its items. -/
  old : Array Value
  /-- What is spread. -/
  source : Handle
  /-- The object there. -/
  object : Object
  /-- Its items. -/
  items : Array Value
  /-- What iterates over it. -/
  iterator : Iterator
  /-- The function for the next state. -/
  iter : Handle
  /-- The function for the element. -/
  next : Handle

namespace Spreading

/-- The list is another object than what is spread, whose class has the two functions, and there is
room for a call. -/
structure Sound (d : Spreading) : Prop where
  apart : d.target ≠ d.source
  target : d.before.heap.get? d.target = some (.list d.old)
  source : d.before.heap.get? d.source = some d.object
  items : d.object.items? = some d.items
  size : d.items.size ≤ 2 ^ 53
  iterator : d.object.iterator? = some d.iterator
  iter : d.before.heap.Serves d.iter "__iter__" d.iterator.iter
  next : d.before.heap.Serves d.next "__next__" d.iterator.next
  room : d.before.reentrant < d.before.settings.maxReentrant

/-- The stack while it is spread. -/
def slots (d : Spreading) (state : Value) : Array Value :=
  d.below ++ #[.object d.target, .object d.source, state]

/-- Some items have been appended. -/
structure At (d : Spreading) (k : Nat) (u : State) : Prop where
  target : u.heap.get? d.target = some (.list (d.old ++ d.items.extract 0 k))
  others : ∀ x, x ≠ d.target → u.heap.get? x = d.before.heap.get? x
  rest : u = { d.before with
    stack := d.slots (stateIn (List.range d.items.size) k), heap := u.heap }

variable {d : Spreading} {k : Nat} {u : State} {x : Handle} {name : String} {f : CoreFunction}

/-- While spreading goes on, an object serves the methods it served before. -/
theorem At.serves (hs : d.Sound) (hu : d.At k u) (h : d.before.heap.Serves x name f) :
    u.heap.Serves x name f := by
  obtain ⟨n, hget, hn⟩ := h
  refine ⟨n, ?_, hn⟩
  rw [hu.others x, hget]
  rintro rfl
  rw [hs.target] at hget
  cases hget

/-- While spreading goes on, the source is the object it was. -/
theorem At.source (hs : d.Sound) (hu : d.At k u) : u.heap.get? d.source = some d.object := by
  rw [hu.others _ hs.apart.symm, hs.source]

/-- While spreading goes on, a core method may be called. -/
theorem At.room (hs : d.Sound) (hu : d.At k u) : u.reentrant < u.settings.maxReentrant := by
  rw [hu.rest]
  exact hs.room

/-- The positions of the object are those of its items. -/
theorem Sound.positions (hs : d.Sound) : d.object.positions = List.range d.items.size ∧
    d.object.extent = d.items.size := by
  have hitems := hs.items
  cases ho : d.object with
  | list items =>
    rw [ho] at hitems
    cases hitems
    exact ⟨rfl, rfl⟩
  | tuple items =>
    rw [ho] at hitems
    cases hitems
    exact ⟨rfl, rfl⟩
  | _ =>
    rw [ho] at hitems
    cases hitems

/-- After each state of the iteration comes the one for the next item, or its end. -/
theorem Sound.stateAfter (hs : d.Sound) (hk : k ≤ d.items.size) :
    d.object.stateAfter (stateIn (List.range d.items.size) k) =
      some (stateOf (List.range d.items.size)[k]?) := by
  obtain ⟨hpositions, hextent⟩ := hs.positions
  have hafter := stateAfter_stateIn (o := d.object) (k := k) (hextent ▸ hs.size)
    (by rw [hpositions, List.length_range]; exact hk)
  rwa [hpositions] at hafter

/-- Putting back the slots spreading has made changes nothing. -/
theorem At.withStack (hu : d.At k u) :
    u.withStack (d.slots (stateIn (List.range d.items.size) k)) = u := by
  rw [hu.rest]
  rfl

/-- Calling one of the two functions with what is spread and a state. -/
theorem At.ends_call (hs : d.Sound) (hu : d.At k u) (stack : Array Value) {state r : Value}
    (hx : d.before.heap.Serves x name f)
    (hbody : Act.runCore f { u with
        stack := stack.push (.object d.source) ++ #[state], apiBase := stack.size } =
      .done () { u with
        stack := (stack.push (.object d.source) ++ #[state]).push r, apiBase := stack.size }) :
    (Act.callMethodSync (.object x) 1
      (u.withStack (stack.push (.object d.source) ++ #[state]))).Ends () (u.withStack (stack.push r)) := by
  obtain ⟨n, hget, hn⟩ := hu.serves hs hx
  have hroom := hu.room hs
  exact Act.ends_callMethodSync (s := u.withStack stack) hroom hget hn rfl rfl rfl
    (Act.ends_of_run hbody)

/-- What spreading finds on top of the stack: the state, the source and the target. -/
theorem peek_slots (d : Spreading) (u : State) (state : Value) {j : Nat} (hj : j < 3) {v : Value}
    (hv : (#[.object d.target, .object d.source, state] : Array Value)[2 - j]? = some v) :
    Act.peek j (u.withStack (d.slots state)) = .done v (u.withStack (d.slots state)) :=
  Act.require_run _ _ ((State.peek?_append u d.below _ hj).trans hv)

/-- The next state takes the place of the one before. -/
theorem set_slots (d : Spreading) (u : State) (state r : Value) :
    Act.start 1 (u.withStack (d.slots state)) =
        .done (d.below.size + 2) (u.withStack (d.slots state)) ∧
      Act.setSlotAt (d.below.size + 2) r (u.withStack (d.slots state)) =
        .done () (u.withStack (d.slots r)) := by
  constructor
  · refine Act.require_run _ _ ?_
    simp [slots, State.withStack]
  · have hset : (d.slots state).setIfInBounds (d.below.size + 2) r = d.slots r := by
      unfold slots
      rw [Array.setIfInBounds_append_right (by omega), Nat.add_sub_cancel_left]
      rfl
    unfold Act.setSlotAt
    rw [if_pos (by simp [slots, State.withStack])]
    exact congrArg (fun stack => Proc.done () (u.withStack stack)) hset

/-- With items left, the next one is appended. -/
theorem At.ends_item (hs : d.Sound) (hu : d.At k u) (hk : k < d.items.size) : ∃ t,
    (Act.spreadElement (.object d.source) (.object d.iter) (.object d.next) u).Ends
      (.spread (.object d.source) (.object d.iter) (.object d.next)) t ∧ d.At (k + 1) t := by
  obtain ⟨state, hstate⟩ : ∃ state, state = stateIn (List.range d.items.size) k := ⟨_, rfl⟩
  obtain ⟨r, hr⟩ : ∃ r, r = stateOf (some k) := ⟨_, rfl⟩
  have hafter : d.object.stateAfter state = some r := by
    rw [hstate, hr, hs.stateAfter (Nat.le_of_lt hk), List.getElem?_range hk]
  have hsource := hu.source hs
  have hiter := hu.ends_call hs (d.slots state) hs.iter
    (Act.runCore_iter_of_some (s := u.withStack (d.slots state)) hsource hs.iterator hafter)
  have hexact : k < 2 ^ 53 := Nat.lt_of_lt_of_le hk hs.size
  have hnext : (Act.callMethodSync (.object d.next) 1
      (u.withStack ((d.slots r).push (.object d.source) ++ #[r]))).Ends ()
        (u.withStack ((d.slots r).push d.items[k])) := by
    subst hr
    exact hu.ends_call hs _ hs.next (Act.runCore_next_item
      (s := u.withStack (d.slots (stateOf (some k)))) hsource hs.iterator hs.items hexact
        (Array.getElem?_eq_getElem hk))
  obtain ⟨hstart, hset⟩ := d.set_slots u state r
  have hold := d.peek_slots u state (by decide : 0 < 3) rfl
  have htarget := d.peek_slots u r (by decide : 2 < 3) rfl
  have hu' := hu.withStack
  rw [← hstate] at hu'
  refine ⟨(u.withStack (d.slots r)).appendTo d.target d.items[k], ?_, ?_⟩
  · rw [← hu']
    unfold Act.spreadElement
    refine Act.ends_bind (Act.ends_of_run hold) (Act.ends_bind (.done () _)
      (Act.ends_bind (.done () _) (Act.ends_bind hiter (Act.ends_bind
        (Act.ends_of_run (Act.pop_pushed (u.withStack (d.slots state)) r)) (Act.ends_bind
          (Act.ends_of_run hstart) (Act.ends_bind (Act.ends_of_run hset) ?_))))))
    rw [if_pos (by rw [hr]; rfl)]
    refine Act.ends_bind (.done () _) (Act.ends_bind (.done () _) (Act.ends_bind hnext
      (Act.ends_bind (Act.ends_of_run (Act.pop_pushed (u.withStack (d.slots r)) d.items[k]))
        (Act.ends_bind (Act.ends_of_run htarget) (Act.ends_bind (.done () _) (.done _ _))))))
  · have hget := State.get?_appendTo (s := u.withStack (d.slots r)) hu.target d.items[k]
    refine ⟨?_, fun x hx => ?_, ?_⟩
    · rw [hget, if_pos rfl, ← Array.append_push,
        Array.push_extract_getElem hk, Nat.zero_min]
    · rw [hget, if_neg hx]
      exact hu.others x hx
    · rw [stateIn, List.getElem?_range hk, ← hr]
      conv_lhs => rw [hu.rest]
      rfl

/-- With no item left, the state and what is spread are dropped. -/
theorem At.ends_end (hs : d.Sound) (hu : d.At d.items.size u) : ∃ t,
    (Act.spreadElement (.object d.source) (.object d.iter) (.object d.next) u).Ends .next t ∧
      d.before.Spread d.below d.target (d.old ++ d.items) t := by
  obtain ⟨state, hstate⟩ : ∃ state, state = stateIn (List.range d.items.size) d.items.size :=
    ⟨_, rfl⟩
  have hsource := hu.source hs
  have hafter : d.object.stateAfter state = some (.bool false) := by
    rw [hstate, hs.stateAfter (Nat.le_refl _), List.getElem?_eq_none (by simp)]
    rfl
  have hiter := hu.ends_call hs (d.slots state) hs.iter
    (Act.runCore_iter_of_some (s := u.withStack (d.slots state)) hsource hs.iterator hafter)
  obtain ⟨hstart, hset⟩ := d.set_slots u state (.bool false)
  have hold := d.peek_slots u state (by decide : 0 < 3) rfl
  have hdropped : (d.slots (.bool false)).pop.pop = d.below.push (.object d.target) := by
    simp [slots]
  have hu' := hu.withStack
  rw [← hstate] at hu'
  refine ⟨u.withStack (d.below.push (.object d.target)), ?_, ?_, hu.others, ?_⟩
  · rw [← hu']
    unfold Act.spreadElement
    refine Act.ends_bind (Act.ends_of_run hold) (Act.ends_bind (.done () _)
      (Act.ends_bind (.done () _) (Act.ends_bind hiter (Act.ends_bind
        (Act.ends_of_run (Act.pop_pushed (u.withStack (d.slots state)) (.bool false)))
          (Act.ends_bind (Act.ends_of_run hstart) (Act.ends_bind (Act.ends_of_run hset) ?_))))))
    rw [if_neg (by decide)]
    refine Act.ends_of_run ?_
    rw [← hdropped]
    rfl
  · have htarget := hu.target
    rwa [Array.extract_size] at htarget
  · conv_lhs => rw [hu.rest]
    rfl

open Proc.Ends in
/-- The machine goes on with what comes of a step. -/
theorem leadsTo_spread {v iter next : Value} {s t : State} {c : Control}
    (h : (Act.spreadElement v iter next s).Ends c t) (call : Call) (waiting : List Waiting) :
    LeadsTo (.running ⟨s, .spread v iter next, call, waiting⟩)
      (Machine.absorb call waiting (.done c t)) := by
  obtain ⟨n, hn⟩ := h.leadsTo Proc.forwards_id call waiting
  refine ⟨n + 1, fun k => ?_⟩
  rw [Nat.add_right_comm]
  exact hn k

open Proc.Ends in
/-- The machine asks for item after item. -/
theorem At.leadsTo (hs : d.Sound) (remaining : Nat) (hu : d.At k u)
    (hk : k + remaining = d.items.size) :
    ∃ t, d.before.Spread d.below d.target (d.old ++ d.items) t ∧ ∀ call waiting,
      LeadsTo
        (.running ⟨u, .spread (.object d.source) (.object d.iter) (.object d.next), call, waiting⟩)
        (Machine.absorb call waiting (.done .next t)) := by
  induction remaining generalizing k u with
  | zero =>
    obtain rfl : k = d.items.size := hk
    obtain ⟨t, hends, hspread⟩ := hu.ends_end hs
    exact ⟨t, hspread, leadsTo_spread hends⟩
  | succ remaining ih =>
    obtain ⟨t, hends, hat⟩ := hu.ends_item hs (by omega)
    obtain ⟨last, hspread, hlater⟩ := ih hat (by omega)
    exact ⟨last, hspread, fun call waiting =>
      Machine.leadsTo_trans (leadsTo_spread hends call waiting) (hlater call waiting)⟩

/-- Spreading as a loop would do it finds the functions and begins with null. -/
theorem Sound.begins (hs : d.Sound)
    (hstack : d.before.stack = d.below ++ #[.object d.target, .object d.source])
    (hmethods : Act.iterationMethods (.object d.source) d.before =
      .done (.object d.iter, .object d.next) d.before) :
    ∃ u, Act.spreadByProtocol d.before =
        .done (.spread (.object d.source) (.object d.iter) (.object d.next)) u ∧ d.At 0 u := by
  have hpeek : Act.peek 0 d.before = .done (.object d.source) d.before := by
    refine Act.require_run _ _ ?_
    have hpeek := State.peek?_append d.before d.below #[.object d.target, .object d.source]
      (by decide : 0 < 2)
    rw [← hstack] at hpeek
    exact hpeek
  have hpushed : d.before.stack.push .null = d.slots .null := by
    simp [hstack, slots]
  refine ⟨d.before.push .null, ?_, ?_, fun _ _ => rfl, ?_⟩
  · simp only [Act.spreadByProtocol, Act.bind_run, hpeek, hmethods, Proc.bind_done, Act.push_run]
    rfl
  · show d.before.heap.get? d.target = some (.list (d.old ++ d.items.extract 0 0))
    rw [hs.target, Array.extract_zero, Array.append_empty]
  · rw [stateIn, ← hpushed]
    rfl

end Spreading

/-! ## Loops and spreading -/

open Proc.Ends in
/-- Iteration over strings, lists, tuples and tables is complete, and spreading agrees with it. A loop
over such an object, however long and whatever its body does as long as it leaves the object and the
slots of the loop alone, has as many rounds as there are elements, each with the next element, and
then ends with a falsy state. Making an element of a string may stop the machine at a limit of its
memory. A list or a tuple that is spread is copied, and the list has the same items as if the machine
had asked for one after the other, with room for a call. -/
theorem iteration_complete {s : State} {h : Handle} {o : Object} {i : Iterator}
    (hf : s.Furnished) (hinterned : s.heap.Interned) (hget : s.heap.get? h = some o)
    (hi : o.iterator? = some i) (hn : o.extent ≤ 2 ^ 53) :
    (∀ (f : Frame) (below : Array Value) (exit : UInt16), s.frame? = some f →
      f.proto.chunk.code[f.ip]? = some .forPrep → f.proto.chunk.code[f.ip + 1]? = some .forIter →
      f.proto.chunk.code[f.ip + 2]? = some (.forNext exit) →
      s.stack = below ++ #[.object h, .null] →
      ∃ (l : Loop) (t : State), l.below = below ∧ l.source = h ∧ l.object = o ∧ l.exit = exit ∧
        Machine.action .next s = .done .next t ∧ l.At .null t ∧
        ∀ k state u, l.Rounds t k state u → k ≤ o.count ∧
          (k < o.count → ((∃ text, o = .string text) ∧ (Act.round u).Capped u.heap) ∨
            ∃ heap' next v,
              u.Comes (some v) { (u.advance 2).withStack ((l.slots next).push v) with
                heap := heap' } ∧ l.Holds heap' ∧ o.HasElement heap' k v) ∧
          (k = o.count → u.Comes none
            ((u.advance (2 + exit.toNat)).withStack (l.slots (.bool false))))) ∧
    (∀ (items old below : Array Value) (target : Handle), o.items? = some items →
      s.stack = below ++ #[.object target, .object h] → target ≠ h →
      s.heap.get? target = some (.list old) →
      (∃ t, Act.extendList s = .done .next t ∧ s.Spread below target (old ++ items) t) ∧
      (s.reentrant < s.settings.maxReentrant → ∃ c u t, Act.spreadByProtocol s = .done c u ∧
        s.Spread below target (old ++ items) t ∧ ∀ call waiting,
          LeadsTo (.running ⟨u, c, call, waiting⟩)
            (Machine.absorb call waiting (.done .next t)))) := by
  refine ⟨?_, ?_⟩
  · intro f below exit hframe hprep hiter hnext hstack
    obtain ⟨x, y, haction, hat⟩ :=
      Loop.exists_at hf hinterned hget hi hstack hframe hprep hiter hnext
    exact ⟨⟨below, h, o, i, x, y, exit⟩, _, rfl, rfl, rfl, rfl, haction, hat,
      fun k state u hrounds => hrounds.comes hn⟩
  · intro items old below target hitems hstack hapart htarget
    refine ⟨Act.extendList_copies hstack htarget hget hitems, fun hroom => ?_⟩
    obtain ⟨x, y, hmethods, hx, hy⟩ := Act.iterationMethods_run hf hinterned hget hi
    have hsize : items.size ≤ 2 ^ 53 := by
      cases o with
      | list values =>
        cases hitems
        exact hn
      | tuple values =>
        cases hitems
        exact hn
      | _ => cases hitems
    have hs : (⟨s, below, target, old, h, o, items, i, x, y⟩ : Spreading).Sound :=
      ⟨hapart, htarget, hget, hitems, hsize, hi, hx, hy, hroom⟩
    obtain ⟨u, hbegins, hat⟩ := hs.begins hstack hmethods
    obtain ⟨t, hspread, hleads⟩ := hat.leadsTo hs items.size (Nat.zero_add _)
    exact ⟨_, u, t, hbegins, hspread, hleads⟩

/-- A loop over a pair begins with its first item, and the pair is spread into an empty list. -/
theorem iteration_complete_pair : ∃ (s t u : State) (h target : Handle),
    s.heap.get? h = some (.tuple #[.bool true, .null]) ∧
      Machine.action .next { s with stack := #[.object h, .null] } = .done .next t ∧
      Act.round t = .done (some (.bool true)) u ∧
      ∃ v, Act.extendList { s with stack := #[.object target, .object h] } = .done .next v ∧
        v.heap.get? target = some (.list #[.bool true, .null]) := by
  obtain ⟨hfresh, -, -⟩ := State.fresh_create .default
  obtain ⟨s₁, h, hf₁, hi₁, hget₁, -⟩ := (State.furnished_create .default).exists_holding
    hfresh.interned (.tuple #[.bool true, .null]) rfl
  obtain ⟨s₂, target, hf₂, hi₂, htarget, hkept, -⟩ := hf₁.exists_holding hi₁ (.list #[]) rfl
  obtain ⟨hapart, hget⟩ := hkept h _ hget₁
  -- code that begins a loop
  obtain ⟨f, hcode⟩ : ∃ f : Frame, f.ip = 0 ∧
      f.proto.chunk.code = #[.forPrep, .forIter, .forNext 0] :=
    ⟨⟨h, h, { (default : Bytecode.Proto) with
      chunk := ⟨#[.forPrep, .forIter, .forNext 0], #[], .empty⟩ }, 0, 0, [], none⟩, rfl, rfl⟩
  obtain ⟨hip, hcode⟩ := hcode
  have hf : ∀ stack, State.Furnished { s₂ with frames := #[f], stack := stack } := fun _ =>
    ⟨hf₂.hashed, hf₂.specials, hf₂.methods⟩
  have hloop := iteration_complete (o := .tuple #[.bool true, .null]) (hf #[.object h, .null]) hi₂ hget
    rfl (by decide)
  have hspread := iteration_complete (o := .tuple #[.bool true, .null])
    (hf #[.object target, .object h]) hi₂ hget rfl (by decide)
  obtain ⟨l, t, -, -, -, -, haction, hat, hrounds⟩ := hloop.1 f #[] 0 rfl
    (by rw [hip, hcode]; rfl) (by rw [hip, hcode]; rfl) (by rw [hip, hcode]; rfl) rfl
  obtain ⟨-, hfirst, -⟩ := hrounds 0 .null t (.start hat)
  obtain ⟨⟨text, htext⟩, -⟩ | ⟨heap, next, v, hcomes, -, helement⟩ := hfirst (by decide)
  · cases htext
  · cases helement
    obtain ⟨⟨w, hcopied, hw⟩, -⟩ := hspread.2 #[.bool true, .null] #[] #[] target rfl rfl
      hapart.symm htarget
    exact ⟨{ s₂ with frames := #[f] }, t, _, h, target, hget, haction, hcomes.round, w, hcopied,
      hw.target⟩

end ScriptEngine
