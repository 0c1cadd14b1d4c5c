import ScriptEngine.Proofs.Iterating
import ScriptEngine.Proofs.CodeMoves

/-!
# Loops over what the core module iterates over

A loop keeps four slots: what it iterates over, the state of the iteration, and the two functions
that iterate. Each round asks the first function for the next state, and ends the loop if that is
falsy; otherwise it asks the second function for the element. Whatever the body of a loop does, as
long as it leaves the slots and what stands there alone, each round gives the next element, and the
loop ends after the last one. The machine runs into a memory limit only for the elements of strings.
-/

namespace ScriptEngine

open Object

namespace State

variable {s : State} {f : Frame}

/-- Moves on in the code of the innermost frame. -/
def advance (s : State) (n : Nat) : State := s.modifyFrame fun f => { f with ip := f.ip + n }

/-- Going on by some instructions, and by some more, is going on by all of them. -/
theorem advance_advance (s : State) (m n : Nat) : (s.advance m).advance n = s.advance (m + n) := by
  unfold advance modifyFrame
  simp only [Array.size_modify]
  congr 1
  refine Array.ext (by simp) fun j hj _ => ?_
  simp only [Array.getElem_modify]
  split
  · simp [Nat.add_assoc]
  · rfl

/-- Going on moves the instruction pointer of the frame. -/
theorem frame?_advance (h : s.frame? = some f) (n : Nat) :
    (s.advance n).frame? = some { f with ip := f.ip + n } := frame?_modifyFrame h _

/-- Going on keeps the number of frames. -/
theorem size_advance (s : State) (n : Nat) : (s.advance n).frames.size = s.frames.size :=
  size_modifyFrame s _

/-- The machine with another stack. -/
def withStack (s : State) (stack : Array Value) : State := { s with stack := stack }

/-- What is on the stack is held by the machine. -/
theorem mem_roots_of_mem_stack {x : Handle} (h : .object x ∈ s.stack) : x ∈ s.roots := by
  have hx : x ∈ Object.handlesOf s.stack.toList :=
    List.mem_filterMap.2 ⟨.object x, Array.mem_toList_iff.2 h, rfl⟩
  simp [roots, hx]

/-- Peeking into values that have been added to the stack. -/
theorem peek?_append (s : State) (below top : Array Value) {k : Nat} (hk : k < top.size) :
    (s.withStack (below ++ top)).peek? k = top[top.size - 1 - k]? := by
  unfold State.peek? withStack
  dsimp only
  rw [Array.size_append, if_pos (by omega), Array.getElem?_append_right (by omega)]
  congr 1
  omega

end State

namespace Machine

/-- The next instruction is fetched and executed. -/
theorem action_next {s : State} {f : Frame} {op : Bytecode.Op} (hf : s.frame? = some f)
    (hop : f.proto.chunk.code[f.ip]? = some op) :
    action .next s = Act.execute op (s.advance 1) := by
  have hfetch : Act.fetch s = .done op (s.advance 1) := by
    unfold Act.fetch
    simp only [hf, hop]
    rfl
  show (Act.fetch s).bind Act.execute = _
  rw [hfetch]
  rfl

open Proc.Ends in
/-- What leads from one status to a second, and from there to a third, leads to the third. -/
theorem leadsTo_trans {a b c : Status} (h : LeadsTo a b) (h' : LeadsTo b c) : LeadsTo a c := by
  obtain ⟨n, hn⟩ := h
  obtain ⟨n', hn'⟩ := h'
  refine ⟨n + n', fun k => ?_⟩
  rw [Nat.add_assoc, hn, hn']

open Proc.Ends in
/-- In a frame of its call, the machine goes on with what an action says. -/
theorem leadsTo_action {s t : State} {c c' : Control} (h : action c s = .done c' t)
    (hc : ∀ b, c ≠ .leave b) {call : Call} (hdepth : t.frames.size ≠ call.depth)
    (hentered : call.entered = true) (waiting : List Waiting) :
    LeadsTo (.running ⟨s, c, call, waiting⟩) (.running ⟨t, c', call, waiting⟩) := by
  refine ⟨1, fun k => ?_⟩
  have hstep : step ⟨s, c, call, waiting⟩ = absorb call waiting (action c s) := by
    cases c with
    | leave b => exact absurd rfl (hc b)
    | _ => rfl
  have habsorb : absorb call waiting (.done c' t) = .running ⟨t, c', call, waiting⟩ := by
    cases c' with
    | next => rw [absorb, if_neg hdepth, if_pos hentered]
    | _ => rfl
  rw [Nat.add_comm, runStatus, hstep, h, habsorb]

end Machine

/-- The two instructions at the head of a loop with the calls they make: the element that the body
begins with, on top of the stack, if the loop goes on. -/
def Act.round : Act (Option Value) := do
  let asked ← Machine.action .next
  let _ ← Machine.action asked
  match ← Machine.action .next with
  | .enter method argc =>
    let _ ← Machine.action (.enter method argc)
    return some (← peek 0)
  | _ => return none

/-- A round has an outcome, which the machine comes to as well, whatever call it runs in. -/
structure State.Comes (s : State) (element : Option Value) (t : State) : Prop where
  /-- The outcome. -/
  round : Act.round s = .done element t
  /-- In a frame of its call, the machine comes to it. -/
  machine : ∀ call waiting, s.frames.size ≠ call.depth → call.entered = true →
    Proc.Ends.LeadsTo (.running ⟨s, .next, call, waiting⟩) (.running ⟨t, .next, call, waiting⟩)

/-! ## Loops -/

/-- A loop over an object of the core module. -/
structure Loop where
  /-- What stands below its slots. -/
  below : Array Value
  /-- What it iterates over. -/
  source : Handle
  /-- The object there. -/
  object : Object
  /-- What iterates over the object. -/
  iterator : Iterator
  /-- The function for the next state. -/
  iter : Handle
  /-- The function for the element. -/
  next : Handle
  /-- How far it is from the end of the head of the loop to the code behind the loop. -/
  exit : UInt16

namespace Loop

/-- The stack at the head of a loop. -/
def slots (l : Loop) (state : Value) : Array Value :=
  l.below ++ #[.object l.source, state, .object l.iter, .object l.next]

/-- What a loop relies on: the functions in its slots, and the object it iterates over. -/
structure Holds (l : Loop) (heap : Heap) : Prop where
  /-- The object has not been modified. -/
  source : heap.get? l.source = some l.object
  /-- It is one that the core module iterates over. -/
  iterator : l.object.iterator? = some l.iterator
  /-- The first function. -/
  iter : heap.Serves l.iter "__iter__" l.iterator.iter
  /-- The second function. -/
  next : heap.Serves l.next "__next__" l.iterator.next
  /-- Strings are interned. -/
  interned : heap.Interned

/-- The slots of a loop hold what they held while their objects are kept. -/
theorem Holds.kept {l : Loop} {heap heap' : Heap} (h : l.Holds heap) (hi : heap'.Interned)
    {state : Value} (hkept : ∀ x, .object x ∈ l.slots state → ∀ o, heap.get? x = some o →
      heap'.get? x = some o) : l.Holds heap' := by
  obtain ⟨nx, hx, hnx⟩ := h.iter
  obtain ⟨ny, hy, hny⟩ := h.next
  refine ⟨hkept _ ?_ _ h.source, h.iterator, ⟨nx, hkept _ ?_ _ hx, hnx⟩, ⟨ny, hkept _ ?_ _ hy, hny⟩,
    hi⟩
  all_goals simp [slots]

/-- A machine is at the head of a loop. -/
structure At (l : Loop) (state : Value) (s : State) : Prop extends l.Holds s.heap where
  /-- The slots of the loop are on top of the stack. -/
  stack : s.stack = l.slots state
  /-- The two instructions of the head come next. -/
  code : ∃ f, s.frame? = some f ∧ f.proto.chunk.code[f.ip]? = some .forIter ∧
    f.proto.chunk.code[f.ip + 1]? = some (.forNext l.exit)

variable {l : Loop} {s : State} {state r : Value} {k p : Nat}

/-- The state of the iteration has a slot of its own. -/
theorem set_slots (l : Loop) (state r : Value) :
    (l.slots state).setIfInBounds (l.below.size + 1) r = l.slots r := by
  unfold slots
  rw [Array.setIfInBounds_append_right (by omega), Nat.add_sub_cancel_left]
  rfl

/-- The slots can be peeked at. -/
theorem peek_slots (l : Loop) (s : State) (state : Value) {k : Nat} (hk : k < 4) {v : Value}
    (hv : (#[.object l.source, state, .object l.iter, .object l.next] : Array Value)[3 - k]? =
      some v) :
    Act.peek k (s.withStack (l.slots state)) = .done v (s.withStack (l.slots state)) :=
  Act.require_run _ _ ((State.peek?_append s l.below _ hk).trans hv)

/-- Asking for the next state calls the first function on the source and the state. -/
theorem askState_run (l : Loop) (s : State) (state : Value) :
    Act.askState (s.withStack (l.slots state)) = .done (.invoke (.object l.iter) 1)
      (s.withStack ((l.slots state).push (.object l.source) ++ #[state])) := by
  have hsource := l.peek_slots s state (by decide : 3 < 4) rfl
  have hstate := l.peek_slots s state (by decide : 2 < 4) rfl
  have hiter := l.peek_slots s state (by decide : 1 < 4) rfl
  simp only [Act.askState, Act.bind_run, hsource, hstate, hiter, Proc.bind_done, Act.push_run]
  rfl

/-- Asking for the element ends the loop if the state is falsy, and calls the second function
otherwise. -/
theorem askElement_run (l : Loop) (s : State) (state r : Value) (d : Nat) :
    Act.askElement d (s.withStack ((l.slots state).push r)) =
      if r.isTruthy then .done (.invoke (.object l.next) 1)
        (s.withStack ((l.slots r).push (.object l.source) ++ #[r]))
      else .done .next ((s.advance d).withStack (l.slots r)) := by
  have hpop : Act.pop (s.withStack ((l.slots state).push r)) =
      .done r (s.withStack (l.slots state)) := Act.pop_pushed (s.withStack (l.slots state)) r
  have hstart : Act.start 3 (s.withStack (l.slots state)) =
      .done (l.below.size + 1) (s.withStack (l.slots state)) := by
    refine Act.require_run _ _ ?_
    simp [slots, State.withStack]
  have hset : Act.setSlotAt (l.below.size + 1) r (s.withStack (l.slots state)) =
      .done () (s.withStack (l.slots r)) := by
    unfold Act.setSlotAt
    rw [if_pos (by simp [slots, State.withStack])]
    exact congrArg (fun stack => Proc.done () (s.withStack stack)) (l.set_slots state r)
  have hsource := l.peek_slots s r (by decide : 3 < 4) rfl
  have hnext := l.peek_slots s r (by decide : 0 < 4) rfl
  simp only [Act.askElement, Act.bind_run, hpop, hstart, hset, Proc.bind_done]
  split
  · simp only [Act.bind_run, hsource, hnext, Proc.bind_done, Act.push_run]
    rfl
  · rfl

/-- The head of a loop up to the decision whether it goes on. -/
theorem At.asks (h : l.At state s) {next : Value} (hafter : l.object.stateAfter state = some next) :
    Machine.action .next s = .done (.invoke (.object l.iter) 1)
        ((s.advance 1).withStack ((l.slots state).push (.object l.source) ++ #[state])) ∧
      Machine.action (.invoke (.object l.iter) 1)
          ((s.advance 1).withStack ((l.slots state).push (.object l.source) ++ #[state])) =
        .done .next ((s.advance 1).withStack ((l.slots state).push next)) ∧
      Machine.action .next
          ((s.advance 1).withStack ((l.slots state).push next)) =
        Act.askElement l.exit.toNat
          ((s.advance 2).withStack ((l.slots state).push next)) := by
  obtain ⟨f, hf, hiter, hnext⟩ := h.code
  have hf' := State.frame?_advance hf 1
  refine ⟨?_, ?_, ?_⟩
  · rw [Machine.action_next hf hiter]
    refine Eq.trans ?_ (l.askState_run (s.advance 1) state)
    rw [← h.stack]
    rfl
  · exact Act.enterMethod_serves (s := (s.advance 1).withStack (l.slots state)) h.iter
      (Act.runCore_iter_of_some (s := (s.advance 1).withStack (l.slots state)) h.source h.iterator hafter)
  · rw [← State.advance_advance s 1 1]
    exact Machine.action_next
      (s := (s.advance 1).withStack ((l.slots state).push next)) hf' hnext

/-- With no element left, a loop ends. -/
theorem At.comes_end (h : l.At state s) {next : Value}
    (hafter : l.object.stateAfter state = some next) (hend : next.isTruthy = false) :
    s.Comes none ((s.advance (2 + l.exit.toNat)).withStack (l.slots next)) := by
  obtain ⟨hask, hanswer, htake⟩ := h.asks hafter
  rw [askElement_run, hend, if_neg Bool.false_ne_true, State.advance_advance] at htake
  constructor
  · simp only [Act.round, Act.bind_run, hask, hanswer, htake, Proc.bind_done]
    rfl
  · intro call waiting hdepth hentered
    have hsize : ∀ n stack, ((s.advance n).withStack stack).frames.size ≠ call.depth :=
      fun n _ heq => hdepth ((s.size_advance n).symm.trans heq)
    refine Machine.leadsTo_trans (Machine.leadsTo_action hask nofun (hsize 1 _) hentered waiting) ?_
    refine Machine.leadsTo_trans
      (Machine.leadsTo_action hanswer nofun (hsize 1 _) hentered waiting) ?_
    exact Machine.leadsTo_action htake nofun (hsize _ _) hentered waiting

/-- With elements left, a loop goes on with the next one. -/
theorem At.comes_element (h : l.At state s) (hn : l.object.extent ≤ 2 ^ 53)
    (hk : l.object.positions[k]? = some p)
    (hafter : l.object.stateAfter state = some (stateOf (some p))) :
    ((∃ t, l.object = .string t) ∧ (Act.round s).Capped s.heap) ∨ ∃ heap' v,
      s.Comes (some v) { (s.advance 2).withStack ((l.slots (stateOf (some p))).push v) with
        heap := heap' } ∧
        l.Holds heap' ∧ l.object.HasElement heap' k v := by
  obtain ⟨hask, hanswer, htake⟩ := h.asks hafter
  rw [askElement_run, if_pos (by rfl)] at htake
  -- the machine as it enters the second function
  obtain ⟨u, hu⟩ : ∃ u, u = (s.advance 2).withStack (l.slots (stateOf (some p))) := ⟨_, rfl⟩
  have hround : Act.round s = (Machine.action (.invoke (.object l.next) 1) { u with
      stack := u.stack.push (.object l.source) ++ #[stateOf (some p)] }).bind fun _ t =>
        (Act.peek 0 t).bind fun v t => .done (some v) t := by
    simp only [Act.round, Act.bind_run, hask, hanswer, htake, Proc.bind_done, hu]
    rfl
  have hheap : u.heap = s.heap := by rw [hu]; rfl
  have hholds : l.Holds u.heap := hheap ▸ h.toHolds
  obtain ⟨hstring, hcapped⟩ | ⟨heap', v, hbody, hinterned, hkept, helement⟩ :=
    Act.runCore_next hholds.source hholds.iterator hholds.interned hn hk
  · have henter := Act.enterMethod_capped hholds.next hcapped
    rw [hround, ← hheap]
    exact .inl ⟨hstring, henter.bind _⟩
  · have henter : Machine.action (.invoke (.object l.next) 1) { u with
        stack := u.stack.push (.object l.source) ++ #[stateOf (some p)] } =
        .done .next { u with stack := u.stack.push v, heap := heap' } :=
      Act.enterMethod_serves hholds.next hbody
    have hpeek : Act.peek 0 { u with stack := u.stack.push v, heap := heap' } =
        .done v { u with stack := u.stack.push v, heap := heap' } := by
      refine Act.require_run _ _ ?_
      simp [State.peek?]
    have hslot : ∀ x, .object x ∈ l.slots (stateOf (some p)) → ∀ o, u.heap.get? x = some o →
        heap'.get? x = some o := by
      intro x hx o ho
      refine hkept x (State.mem_roots_of_mem_stack ?_) o ho
      simp [hu, State.withStack, hx]
    refine .inr ⟨heap', v, ⟨?_, ?_⟩, hholds.kept hinterned hslot, helement⟩
    · rw [hround, henter, Proc.bind_done, hpeek, hu]
      rfl
    · intro call waiting hdepth hentered
      have hsize : ∀ n (t : State), t.frames = (s.advance n).frames → t.frames.size ≠ call.depth :=
        fun n t ht heq => hdepth ((s.size_advance n).symm.trans (ht ▸ heq))
      refine Machine.leadsTo_trans
        (Machine.leadsTo_action hask nofun (hsize 1 _ rfl) hentered waiting) ?_
      refine Machine.leadsTo_trans
        (Machine.leadsTo_action hanswer nofun (hsize 1 _ rfl) hentered waiting) ?_
      refine Machine.leadsTo_trans
        (Machine.leadsTo_action htake nofun (hsize 2 _ rfl) hentered waiting) ?_
      subst hu
      exact Machine.leadsTo_action henter nofun (hsize 2 _ rfl) hentered waiting

/-! ### Rounds -/

/-- Some rounds of a loop: their number, the state of the iteration, and the machine before the next
round. Whatever the body does, it leaves the slots and what the loop relies on alone. -/
inductive Rounds (l : Loop) (before : State) : Nat → Value → State → Prop
  | start (hstart : l.At .null before) : Rounds l before 0 .null before
  | round {k : Nat} {state next v : Value} {s t u : State} (hrounds : Rounds l before k state s)
    (hround : Act.round s = .done (some v) t) (hslots : t.stack = (l.slots next).push v)
    (hbody : l.At next u) : Rounds l before (k + 1) next u

/-- The slots of a loop tell the state. -/
theorem slots_inj {state next v v' : Value} (h : (l.slots state).push v = (l.slots next).push v') :
    state = next := by
  have hslot := congrArg (·[l.below.size + 1]?) (Array.push_eq_push.1 h).2
  simpa [slots] using hslot

/-- A loop is at the head with the state that its rounds have led to. -/
theorem Rounds.at {before : State} (hr : l.Rounds before k state s)
    (hn : l.object.extent ≤ 2 ^ 53) :
    l.At state s ∧ k ≤ l.object.positions.length ∧ state = stateIn l.object.positions k := by
  induction hr with
  | start hstart => exact ⟨hstart, Nat.zero_le _, rfl⟩
  | @round k state next v s t u _ hround hslots hbody ih =>
    obtain ⟨hat, hk, rfl⟩ := ih
    have hafter := stateAfter_stateIn hn hk
    refine ⟨hbody, ?_⟩
    cases hp : l.object.positions[k]? with
    | none =>
      rw [hp] at hafter
      have hend := (hat.comes_end hafter rfl).round
      rw [hround] at hend
      cases hend
    | some p =>
      rw [hp] at hafter
      obtain ⟨-, hcapped⟩ | ⟨heap', v', hcomes, -, -⟩ := hat.comes_element hn hp hafter
      · have hstopped := hcapped.stopped
        rw [hround] at hstopped
        cases hstopped
      · have hdone := hcomes.round
        rw [hround] at hdone
        cases hdone
        refine ⟨(List.getElem?_eq_some_iff.1 hp).1, ?_⟩
        rw [stateIn, hp]
        exact slots_inj hslots.symm

/-- A round after some others gives the element that comes next, or ends the loop if there is none. -/
theorem Rounds.comes {before : State} (hr : l.Rounds before k state s)
    (hn : l.object.extent ≤ 2 ^ 53) :
    k ≤ l.object.count ∧
      (k < l.object.count → ((∃ t, l.object = .string t) ∧ (Act.round s).Capped s.heap) ∨
        ∃ heap' next v,
        s.Comes (some v) { (s.advance 2).withStack ((l.slots next).push v) with heap := heap' } ∧
          l.Holds heap' ∧ l.object.HasElement heap' k v) ∧
      (k = l.object.count →
        s.Comes none ((s.advance (2 + l.exit.toNat)).withStack (l.slots (.bool false)))) := by
  obtain ⟨hat, hk, rfl⟩ := hr.at hn
  have hafter := stateAfter_stateIn hn hk
  rw [← length_positions]
  refine ⟨hk, fun hlt => ?_, fun heq => ?_⟩
  · have hp := List.getElem?_eq_getElem hlt
    rw [hp] at hafter
    obtain hcapped | ⟨heap', v, hcomes, hholds, helement⟩ := hat.comes_element hn hp hafter
    · exact .inl hcapped
    · exact .inr ⟨heap', _, v, hcomes, hholds, helement⟩
  · rw [List.getElem?_eq_none (Nat.le_of_eq heq.symm)] at hafter
    exact hat.comes_end hafter rfl

/-- The instruction before a loop finds the functions for it. -/
theorem exists_at {h : Handle} {o : Object} {i : Iterator} {f : Frame} {below : Array Value}
    {exit : UInt16} (hfurnished : s.Furnished) (hinterned : s.heap.Interned)
    (hget : s.heap.get? h = some o) (hi : o.iterator? = some i)
    (hstack : s.stack = below ++ #[.object h, .null]) (hf : s.frame? = some f)
    (hprep : f.proto.chunk.code[f.ip]? = some .forPrep)
    (hiter : f.proto.chunk.code[f.ip + 1]? = some .forIter)
    (hnext : f.proto.chunk.code[f.ip + 2]? = some (.forNext exit)) :
    ∃ x y, Machine.action .next s = .done .next ((s.advance 1).withStack
        ((⟨below, h, o, i, x, y, exit⟩ : Loop).slots .null)) ∧
      (⟨below, h, o, i, x, y, exit⟩ : Loop).At .null ((s.advance 1).withStack
        ((⟨below, h, o, i, x, y, exit⟩ : Loop).slots .null)) := by
  have hfurnished' : (s.advance 1).Furnished :=
    ⟨hfurnished.hashed, hfurnished.specials, hfurnished.methods⟩
  obtain ⟨x, y, hmethods, hx, hy⟩ :=
    Act.iterationMethods_run (s := s.advance 1) hfurnished' hinterned hget hi
  refine ⟨x, y, ?_, ⟨hget, hi, hx, hy, hinterned⟩, rfl, _, State.frame?_advance hf 1, hiter, hnext⟩
  have hpeek : Act.peek 1 (s.advance 1) = .done (.object h) (s.advance 1) := by
    refine Act.require_run _ _ ?_
    have hpeek := State.peek?_append (s.advance 1) below #[.object h, .null] (by decide : 1 < 2)
    rw [← hstack] at hpeek
    exact hpeek
  have hpushed : (s.stack.push (.object x)).push (.object y) =
      (⟨below, h, o, i, x, y, exit⟩ : Loop).slots .null := by
    simp [hstack, slots]
  rw [Machine.action_next hf hprep]
  show Act.thenNext Act.prepareLoop (s.advance 1) = _
  simp only [Act.thenNext, Act.prepareLoop, Act.bind_run, hpeek, hmethods, Proc.bind_done,
    Act.push_run]
  rw [← hpushed]
  rfl

end Loop

end ScriptEngine
