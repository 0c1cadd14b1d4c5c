import ScriptEngine.Proofs.Furnishing

/-!
# Binding arguments

A callee takes at least as many arguments as it has parameters without a default, and no more than it
has parameters unless it packs what is beyond the last one. Then every parameter has a slot above the
callee, with the argument in its place or else its own default, and the tuple of the arguments
beyond the last parameter has one more. Packing may collect garbage; what the machine held is as it
was. Any other number of arguments is refused with an exception on top of a stack that is otherwise
unchanged.
-/

namespace ScriptEngine

/-! ## Slots and their parameters -/

namespace Signature

variable {g : Signature} {args : Array Value}

/-- The default of a parameter, counted from 0. The defaults are those of the last parameters. -/
def default? (g : Signature) (i : Nat) : Option Value :=
  if g.least ≤ i then g.defaults[i - g.least]? else none

/-- Slots above a callee that hold what its parameters are bound to. -/
structure Binds (g : Signature) (args slots : Array Value) (heap : Heap) : Prop where
  /-- There is a slot for each parameter, and one more for the arguments beyond the last. -/
  size : slots.size = g.arity + if g.vararg then 1 else 0
  /-- An argument that was supplied is in the slot of its parameter. -/
  supplied : ∀ i < g.arity, i < args.size → slots[i]? = args[i]?
  /-- The slot of a parameter without an argument has its default, which there is. -/
  default : ∀ i < g.arity, args.size ≤ i → ∃ v, g.default? i = some v ∧ slots[i]? = some v
  /-- The last slot has the tuple of the other arguments in order. -/
  packed : g.vararg = true → ∃ h, slots[g.arity]? = some (.object h) ∧
    heap.get? h = some (.tuple (args.extract g.arity args.size))

/-- The slots of the parameters, once the defaults are filled in. -/
def filled (g : Signature) (args : Array Value) : Array Value :=
  (args ++ g.missing args.size).take g.arity

/-- The number of defaults a call has to fill in. -/
theorem size_missing (argc : Nat) : (g.missing argc).size = g.defaults.size - (argc - g.least) := by
  rw [missing, Array.size_extract, Nat.min_self]

/-- Defaults are filled in up to the last parameter. -/
theorem size_filling (consistent : g.defaults.size ≤ g.arity) (enough : g.least ≤ args.size) :
    (args ++ g.missing args.size).size = max args.size g.arity := by
  rw [Array.size_append, size_missing]
  simp only [least] at enough ⊢
  omega

/-- Once defaults are filled in, there is an argument for every parameter at least. -/
theorem size_filled (consistent : g.defaults.size ≤ g.arity) (enough : g.least ≤ args.size) :
    (g.filled args).size = g.arity := by
  rw [filled, Array.take_eq_extract, Array.size_extract, size_filling consistent enough]
  omega

/-- The slots of the parameters, and above them the arguments beyond the last. -/
theorem filled_append (consistent : g.defaults.size ≤ g.arity) (enough : g.least ≤ args.size) :
    g.filled args ++ args.extract g.arity args.size = args ++ g.missing args.size := by
  have size := size_filling consistent enough
  have same : (args ++ g.missing args.size).extract g.arity (args ++ g.missing args.size).size =
      args.extract g.arity args.size := by
    rcases Nat.le_total args.size g.arity with few | many
    · rw [Array.extract_eq_empty_of_le (by omega), Array.extract_eq_empty_of_le (by omega)]
    · have none : g.missing args.size = #[] := by
        rw [Array.size_append] at size
        exact Array.size_eq_zero_iff.1 (by omega)
      rw [none, Array.append_empty]
  rw [filled, ← same, Array.take_eq_extract, Array.extract_append_extract, Nat.min_eq_left (by omega),
    Nat.max_eq_right (by omega), Array.extract_size]

/-- A parameter an argument was given for has that argument. -/
theorem filled_supplied {i : Nat} (inside : i < g.arity) (given : i < args.size) :
    (g.filled args)[i]? = args[i]? := by
  have short : i < (args ++ g.missing args.size).size := by
    rw [Array.size_append]
    omega
  rw [filled, Array.take_eq_extract, Array.getElem?_extract, Nat.zero_add, if_pos (by omega),
    Array.getElem?_append_left given]

/-- A parameter no argument was given for has its own default. -/
theorem filled_default (consistent : g.defaults.size ≤ g.arity) (enough : g.least ≤ args.size)
    {i : Nat} (inside : i < g.arity) (open' : args.size ≤ i) :
    ∃ v, g.default? i = some v ∧ (g.filled args)[i]? = some v := by
  have there : i - g.least < g.defaults.size := by
    simp only [least] at enough ⊢
    omega
  refine ⟨g.defaults[i - g.least], ?_, ?_⟩
  · rw [default?, if_pos (Nat.le_trans enough open'), Array.getElem?_eq_getElem there]
  · have place : args.size - g.least + (i - args.size) = i - g.least := by omega
    have short : i < (args ++ g.missing args.size).size := by
      rw [size_filling consistent enough]
      omega
    rw [filled, Array.take_eq_extract, Array.getElem?_extract, Nat.zero_add, if_pos (by omega),
      Array.getElem?_append_right open', missing, Array.getElem?_extract, place,
      if_pos (by omega), Array.getElem?_eq_getElem there]

/-- Without a slot for further arguments, the filled slots bind the arguments. -/
theorem binds_filled (consistent : g.defaults.size ≤ g.arity) (enough : g.least ≤ args.size)
    (plain : g.vararg = false) (heap : Heap) : g.Binds args (g.filled args) heap where
  size := by rw [size_filled consistent enough, plain]; rfl
  supplied _ inside given := filled_supplied inside given
  default _ inside rest := filled_default consistent enough inside rest
  packed further := by rw [plain] at further; cases further

/-- With a slot for further arguments, the tuple comes behind the filled slots. -/
theorem binds_packed (consistent : g.defaults.size ≤ g.arity) (enough : g.least ≤ args.size)
    (further : g.vararg = true) {heap : Heap} {h : Handle}
    (tuple : heap.get? h = some (.tuple (args.extract g.arity args.size))) :
    g.Binds args ((g.filled args).push (.object h)) heap := by
  have size := size_filled consistent enough
  have inside : ∀ i < g.arity, ((g.filled args).push (.object h))[i]? = (g.filled args)[i]? := by
    intro i below
    rw [Array.getElem?_push, if_neg (by omega)]
  refine ⟨?_, ?_, ?_, ?_⟩
  · rw [Array.size_push, size, further]
    rfl
  · intro i below given
    rw [inside i below, filled_supplied below given]
  · intro i below rest
    rw [inside i below]
    exact filled_default consistent enough below rest
  · intro _
    refine ⟨h, ?_, tuple⟩
    rw [← size, Array.getElem?_push_size]

end Signature

/-! ## Filling in and packing -/

namespace State

/-- What a machine holds it holds also when values have been pushed, along with the values. -/
theorem roots_append (s : State) (values : Array Value) :
    s.roots ++ Object.handlesOf values.toList ⊆
      ({ s with stack := s.stack ++ values } : State).roots := by
  intro x hx
  unfold roots Object.handlesOf at hx ⊢
  simp only [Array.toList_append, List.filterMap_append, List.mem_append, List.mem_cons] at hx ⊢
  tauto

end State

namespace Act

variable {s : State} {low items : Array Value}

/-- Packing takes the values from the top of the stack and pushes the object made of them. -/
theorem pack_ends (hi : s.heap.Interned) (stack : s.stack = low ++ items)
    {anchors : List Handle} (hsub : anchors ⊆ s.roots) (make : Array Value → Object) :
    (pack items.size make s).Capped s.heap ∨
      ∃ heap h, pack items.size make s =
          .done () { s with heap := heap, stack := low.push (.object h) } ∧
        heap.get? h = some (make items) ∧ Heap.Keeps anchors s.heap heap := by
  have size : s.stack.size - items.size = low.size := by
    rw [stack, Array.size_append, Nat.add_sub_cancel]
  have top : s.slotsFrom low.size = items := by
    rw [State.slotsFrom, stack]
    exact Array.toList_inj.1 (by simp)
  have bottom : s.stack.shrink low.size = low := by
    rw [stack]
    exact Array.toList_inj.1 (by simp)
  unfold pack
  rw [bind_run, start_run (by rw [stack, Array.size_append]; omega), size]
  simp only [Proc.bind_done, bind_run, gets_run, top, alloc_eq]
  obtain capped | ⟨heap, h, run, keep, made, -⟩ := allocIn_ends hi hsub
    (make items).estimatedBytes (make items).references (make items)
  · exact .inl (capped.bind _)
  · refine .inr ⟨heap, h, ?_, made, keep⟩
    simp only [run, Proc.bind_done, truncate, modify_run, push_run, State.truncate, State.push,
      bottom]

section Adjusting

variable {g : Signature} {below args : Array Value} {callee : Value}

/-- Whether there are too few arguments, or too many and nowhere to pack them. -/
theorem accepts_eq_false : g.accepts args.size = false ↔
    args.size < g.arity - g.defaults.size ∨ (g.arity < args.size ∧ g.vararg = false) := by
  rw [Signature.accepts, Bool.and_eq_false_iff, Bool.or_eq_false_iff, decide_eq_false_iff_not,
    decide_eq_false_iff_not, Nat.not_le, Nat.not_le, and_comm (a := g.vararg = false)]
  rfl

/-- Arguments that a callee does not accept are refused with a message, before anything is changed
on the stack. -/
theorem adjustArguments_refused (consistent : g.defaults.size ≤ g.arity) (hk : s.Keyed)
    (refused : g.accepts args.size = false) :
    (adjustArguments g args.size s).Capped s.heap ∨
      ∃ heap e fields, adjustArguments g args.size s =
          .raised { s with heap := heap, stack := s.stack.push (.object e) } ∧
        heap.get? e = some (.instanceOf (s.coreClass .typeException) fields) ∧
        (({ s with heap := heap, stack := s.stack.push (.object e) } : State).report
          (.object e)).message = g.arityMessage args.size ∧
        Heap.Keeps s.roots s.heap heap := by
  unfold adjustArguments
  rw [if_neg (Nat.not_lt.2 consistent), refused]
  simp only [Bool.false_eq_true, if_false, fail, bind_run, gets_run, Proc.bind_done]
  obtain capped | ⟨heap, e, text, trace, -, run, keep, made, words, -, -⟩ :=
    State.failWith_ends hk (s.coreClass .typeException) (g.arityMessage args.size)
  · exact .inl (capped _)
  · have message := hk.report_message
      (t := { s with heap := heap, stack := s.stack.push (.object e) })
      (keep.mono s.anchors_subset) rfl made words
    exact .inr ⟨heap, e, _, run _, made, message, keep⟩

/-- The slots of the parameters are filled whether or not there are further arguments. -/
theorem stack_filled (consistent : g.defaults.size ≤ g.arity) (enough : g.least ≤ args.size)
    (stack : s.stack = below.push callee ++ args) :
    s.stack ++ g.missing args.size =
      below.push callee ++ g.filled args ++ args.extract g.arity args.size := by
  rw [stack, Array.append_assoc, Array.append_assoc, Signature.filled_append consistent enough]

/-- A callee without a parameter for further arguments finds the arguments given, and its defaults,
above it. -/
theorem adjustArguments_plain (consistent : g.defaults.size ≤ g.arity)
    (stack : s.stack = below.push callee ++ args) (accepted : g.accepts args.size = true)
    (plain : g.vararg = false) :
    adjustArguments g args.size s =
        .done (g.filled args).size { s with stack := below.push callee ++ g.filled args } ∧
      g.Binds args (g.filled args) s.heap := by
  have range : g.least ≤ args.size ∧ args.size ≤ g.arity := by
    simpa [Signature.accepts, plain] using accepted
  have none : args.extract g.arity args.size = #[] := Array.extract_eq_empty_of_le (by omega)
  have filled := stack_filled consistent range.1 stack
  rw [none, Array.append_empty] at filled
  refine ⟨?_, Signature.binds_filled consistent range.1 plain _⟩
  unfold adjustArguments
  rw [if_neg (Nat.not_lt.2 consistent), accepted]
  simp only [if_true, bind_run, modify_run, Proc.bind_done, plain, Bool.false_eq_true, if_false,
    pure_run, filled, Signature.size_filled consistent range.1]

/-- A callee with a parameter for further arguments finds them packed in a tuple behind the
others. -/
theorem adjustArguments_packed (consistent : g.defaults.size ≤ g.arity) (hi : s.heap.Interned)
    (stack : s.stack = below.push callee ++ args) (accepted : g.accepts args.size = true)
    (further : g.vararg = true) :
    (adjustArguments g args.size s).Capped s.heap ∨
      ∃ heap h, adjustArguments g args.size s =
          .done ((g.filled args).push (.object h)).size
            { s with heap := heap, stack := below.push callee ++ (g.filled args).push (.object h) } ∧
        g.Binds args ((g.filled args).push (.object h)) heap ∧
        Heap.Keeps (s.roots ++ Object.handlesOf (g.missing args.size).toList) s.heap heap := by
  have enough : g.least ≤ args.size := by simpa [Signature.accepts, further] using accepted
  have filled := stack_filled consistent enough stack
  have count : args.size - g.arity = (args.extract g.arity args.size).size := by
    rw [Array.size_extract, Nat.min_self]
  unfold adjustArguments
  rw [if_neg (Nat.not_lt.2 consistent), accepted]
  simp only [if_true, bind_run, modify_run, Proc.bind_done, further, pushTuple, count]
  obtain capped | ⟨heap, h, run, made, keep⟩ := pack_ends
    (s := { s with stack := s.stack ++ g.missing args.size }) hi filled
    (s.roots_append (g.missing args.size)) .tuple
  · exact .inl (capped.bind _)
  · refine .inr ⟨heap, h, ?_, Signature.binds_packed consistent enough further made, keep⟩
    rw [run]
    simp only [Proc.bind_done, pure_run, Array.size_push, Array.append_push,
      Signature.size_filled consistent enough]

/-- Binding arguments. It is refused exactly when there are fewer arguments than parameters without a
default, or more than parameters and nowhere to pack them; then the exception is all that is new on
the stack. Otherwise the callee stays in its slot, which is where a frame for the slots above it is
based, and those slots bind the arguments. What could be reached from what the machine holds and
from the defaults that were filled in has not changed, whether or not garbage was collected. Only a
ceiling of the heap can prevent either. -/
theorem adjustArguments_binds (consistent : g.defaults.size ≤ g.arity) (hk : s.Keyed)
    (stack : s.stack = below.push callee ++ args) :
    (args.size < g.arity - g.defaults.size ∨ (g.arity < args.size ∧ g.vararg = false) →
      (adjustArguments g args.size s).Capped s.heap ∨
      ∃ heap e fields, adjustArguments g args.size s =
          .raised { s with heap := heap, stack := s.stack.push (.object e) } ∧
        heap.get? e = some (.instanceOf (s.coreClass .typeException) fields) ∧
        (({ s with heap := heap, stack := s.stack.push (.object e) } : State).report
          (.object e)).message = g.arityMessage args.size ∧
        Heap.Keeps s.roots s.heap heap) ∧
    (¬(args.size < g.arity - g.defaults.size ∨ (g.arity < args.size ∧ g.vararg = false)) →
      (g.vararg = true ∧ (adjustArguments g args.size s).Capped s.heap) ∨
      ∃ heap slots, adjustArguments g args.size s =
          .done slots.size { s with heap := heap, stack := below.push callee ++ slots } ∧
        g.Binds args slots heap ∧
        (∀ t : State, t.stack = below.push callee ++ slots →
          start (slots.size + 1) t = .done below.size t) ∧
        Heap.Keeps (s.roots ++ Object.handlesOf (g.missing args.size).toList) s.heap heap) := by
  have base : ∀ (slots : Array Value) (t : State), t.stack = below.push callee ++ slots →
      start (slots.size + 1) t = .done below.size t := by
    intro slots t above
    have size : t.stack.size = below.size + (slots.size + 1) := by
      rw [above, Array.size_append, Array.size_push]
      omega
    rw [start_run (by omega), size, Nat.add_sub_cancel]
  rw [← accepts_eq_false, Bool.not_eq_false]
  refine ⟨adjustArguments_refused consistent hk, fun accepted => ?_⟩
  cases further : g.vararg with
  | false =>
    obtain ⟨run, binds⟩ := adjustArguments_plain consistent stack accepted further
    exact .inr ⟨s.heap, _, run, binds, base _, .refl hk.interned⟩
  | true =>
    obtain capped | ⟨heap, h, run, binds, keep⟩ :=
      adjustArguments_packed consistent hk.interned stack accepted further
    · exact .inl ⟨rfl, capped⟩
    · exact .inr ⟨heap, _, run, binds, base _, keep⟩

/-- A machine with a callee and three arguments on its stack. -/
def calling (s : State) : State :=
  { s with
    stack := #[Value.null].push (Value.bool false) ++
      #[Value.bool true, Value.null, Value.bool true] }

/-- The machine that is about to make the call has its names interned. -/
theorem keyed_calling (hk : s.Keyed) : (calling s).Keyed := ⟨hk.interned, hk.specials⟩

/-- A function of one parameter and one with a default, which packs what is left. -/
def variadic : Signature := ⟨"f", 2, #[.null], true⟩

/-- Called on a machine that has run nothing, the function gets the first two arguments and a tuple
of the third. -/
theorem adjustArguments_binds_variadic : ∃ (t : State) (slots : Array Value) (h : Handle),
    adjustArguments variadic 3 (calling (State.create Settings.default)) = Proc.done 3 t ∧
      t.stack = #[Value.null].push (Value.bool false) ++ slots ∧
      slots[0]? = some (Value.bool true) ∧ slots[1]? = some Value.null ∧
      slots[2]? = some (Value.object h) ∧ t.heap.get? h = some (Object.tuple #[Value.bool true]) := by
  obtain ⟨fresh, ceiling, -⟩ := State.fresh_create Settings.default
  suffices bound : ∀ s : State, s.Keyed → s.heap.maxBytes = none →
      ∃ (t : State) (slots : Array Value) (h : Handle),
        adjustArguments variadic 3 (calling s) = Proc.done 3 t ∧
          t.stack = #[Value.null].push (Value.bool false) ++ slots ∧
          slots[0]? = some (Value.bool true) ∧ slots[1]? = some Value.null ∧
          slots[2]? = some (Value.object h) ∧ t.heap.get? h = some (Object.tuple #[Value.bool true]) from
    bound _ fresh.toEquipped.keyed ceiling
  intro s keyed ceiling
  have binds := (adjustArguments_binds (g := variadic) (s := calling s) (by decide)
    (keyed_calling keyed) rfl).2 (by decide)
  obtain ⟨-, capped⟩ | ⟨heap, slots, run, bound, -, -⟩ := binds
  · exact absurd ceiling capped.ceiling
  · obtain ⟨h, third, tuple⟩ := bound.packed rfl
    have count : slots.size = 3 := bound.size
    rw [count] at run
    exact ⟨_, slots, h, run, rfl, bound.supplied 0 (by decide) (by decide),
      bound.supplied 1 (by decide) (by decide), third, tuple⟩

end Adjusting

end Act

end ScriptEngine
