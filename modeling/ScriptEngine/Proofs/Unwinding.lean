import ScriptEngine.Proofs.Lasting
import ScriptEngine.Proofs.Sharing

/-!
# Where unwinding ends

An exception goes to the handler installed last in the innermost frame that has one, or to whoever
called the outermost frame it may leave. Frames are left one at a time, from the inside out, and the
stack is cut once all of them are gone, so that captured variables are still there when their frame
is left. `Unwound` says what becomes of the heap on the way.

The exception has just been put on top of the stack and is no variable: captured variables, and the
heights of frames and handlers, are below it.
-/

namespace ScriptEngine

namespace State

variable {s t : State} {f : Frame} {outer inner left : List Frame} {freed : Nat → Bool}
  {height slot d : Nat} {exception : Value}

/-! ## What leaving does to the heap -/

/-- An object after generators have completed and upvalues of some slots are closed. -/
def parted (s : State) (left : List Frame) (freed : Nat → Bool) (x : Handle) : Object → Object
  | .generator o =>
    if left.any (·.generator = some x) then
      .generator { o with state := .done, stack := #[], handlers := [] }
    else .generator o
  | .upvalue (.opened slot) =>
    if x ∈ s.openUpvalues ∧ freed slot then closedWith s.stack slot else .upvalue (.opened slot)
  | o => o

/-- A state becomes another one when frames are left and upvalues of some slots are closed. -/
structure Parts (s : State) (left : List Frame) (freed : Nat → Bool) (t : State) : Prop where
  heap : ∀ x, t.heap.get? x = (s.heap.get? x).map (s.parted left freed x)
  opened : t.openUpvalues = s.openUpvalues.filter fun x => !(openSlot? s.heap x).any freed
  stack : t.stack = s.stack
  rest : t = { s with frames := t.frames, heap := t.heap, openUpvalues := t.openUpvalues }

/-- Before a frame is left, everything is as it is. -/
theorem Parts.refl (s : State) : s.Parts [] (fun _ => false) s where
  heap x := by
    cases s.heap.get? x with
    | none => rfl
    | some o => cases o with
      | upvalue u => cases u <;> simp [parted]
      | _ => rfl
  opened := by
    refine (List.filter_eq_self.2 fun x _ => ?_).symm
    cases openSlot? s.heap x <;> rfl
  stack := rfl
  rest := rfl

/-- Which upvalues are still open. -/
theorem Parts.stillOpen (h : s.Parts left freed t) (x : Handle) : openSlot? t.heap x =
    (openSlot? s.heap x).filter fun slot => !(decide (x ∈ s.openUpvalues) && freed slot) := by
  have hx := h.heap x
  unfold State.openSlot?
  rw [hx]
  cases s.heap.get? x with
  | none => rfl
  | some o =>
    cases o with
    | upvalue u =>
      cases u with
      | opened slot =>
        by_cases hc : x ∈ s.openUpvalues ∧ freed slot = true
        · simp [parted, closedWith, hc, Option.filter_some]
        · rw [Option.map_some, parted, if_neg hc]
          simpa [Option.filter] using hc
      | closed v => rfl
    | generator o =>
      rw [Option.map_some, parted]
      by_cases hc : left.any (·.generator = some x)
      · rw [if_pos hc]; rfl
      · rw [if_neg hc]; rfl
    | _ => rfl

/-- Closing upvalues, some of them more than once, closes each of them. -/
theorem get?_foldl_closeUpvalue {stack : Array Value} {heap : Heap} (hs : List Handle) (x : Handle) :
    (hs.foldl (closeUpvalue stack) heap).get? x =
      if x ∈ hs then ((State.openSlot? heap x).map (closedWith stack)).or (heap.get? x)
      else heap.get? x := by
  induction hs generalizing heap with
  | nil => simp
  | cons h hs ih =>
    rw [List.foldl_cons, ih, get?_closeUpvalue]
    by_cases heq : x = h
    · subst heq
      cases hslot : State.openSlot? heap x with
      | none =>
        have hsame : (closeUpvalue stack heap x).get? x = heap.get? x := by
          rw [get?_closeUpvalue, hslot]
          simp
        simp [openSlot?_congr hsame, hslot]
      | some slot =>
        have hclosed : (closeUpvalue stack heap x).get? x = some (closedWith stack slot) := by
          rw [get?_closeUpvalue, hslot]
          simp
        simp [openSlot?_closedWith hclosed]
    · have hsame : (closeUpvalue stack heap h).get? x = heap.get? x := by
        rw [get?_closeUpvalue, if_neg heq]
      simp [openSlot?_congr hsame, heq]

/-- What becomes of an object that is no open upvalue does not depend on the slots that are
freed. -/
theorem parted_of_not_opened {x : Handle} {o : Object} (ho : ∀ slot, o ≠ .upvalue (.opened slot))
    (freed freed' : Nat → Bool) : s.parted left freed x o = s.parted left freed' x o := by
  cases o with
  | upvalue u =>
    cases u with
    | opened slot => exact absurd rfl (ho slot)
    | closed v => rfl
  | _ => rfl

/-- Closing upvalues from a height on frees more slots. -/
theorem Parts.close (h : s.Parts left freed t) (height : Nat) :
    s.Parts left (fun slot => freed slot || decide (height ≤ slot)) (t.closeUpvalues height) := by
  have hfrom : ∀ x, isOpenFrom t.heap height x = ((openSlot? s.heap x).filter fun slot =>
      !(decide (x ∈ s.openUpvalues) && freed slot)).any fun slot => decide (height ≤ slot) := by
    intro x
    rw [isOpenFrom, h.stillOpen]
  rw [closeUpvalues_eq]
  refine ⟨fun x => ?_, ?_, h.stack, ?_⟩
  · change Heap.get? (List.foldl _ _ _) x = _
    rw [get?_foldl_closeUpvalue, h.stillOpen, h.heap, h.stack]
    simp only [List.mem_filter, hfrom, h.opened]
    cases hslot : openSlot? s.heap x with
    | some slot =>
      rw [openSlot?_eq_some.1 hslot]
      by_cases hx : x ∈ s.openUpvalues <;> by_cases hf : freed slot = true <;>
        by_cases hk : height ≤ slot <;> simp [parted, hx, hf, hk, Option.filter_some]
    | none =>
      rw [if_neg (by simp)]
      refine Option.map_congr fun o ho => parted_of_not_opened (fun slot heq => ?_) _ _
      subst heq
      rw [openSlot?_eq_some.2 ho] at hslot
      cases hslot
  · change List.filter _ t.openUpvalues = _
    rw [h.opened, List.filter_filter]
    refine List.filter_congr fun x hx => ?_
    rw [hfrom]
    cases openSlot? s.heap x with
    | none => rfl
    | some slot => by_cases hf : freed slot = true <;> simp [hx, hf, Option.filter_some]
  · rw [h.rest]

/-- A generator completes with its frame. -/
theorem Parts.finish (h : s.Parts left freed t) {g : Handle} (hf : f.generator = some g) :
    s.Parts (f :: left) freed (t.finishGenerator g) := by
  rw [finishGenerator_eq]
  refine ⟨fun x => ?_, ?_, h.stack, ?_⟩
  · rw [get?_update, h.heap]
    by_cases hx : x = g
    · subst hx
      rw [if_pos rfl, Option.map_map]
      refine Option.map_congr fun o _ => ?_
      cases o with
      | generator o => by_cases hl : left.any (·.generator = some x) <;> simp [parted, Object.mapGenerator, hf, hl]
      | upvalue u =>
        cases u with
        | opened slot =>
          by_cases hc : x ∈ s.openUpvalues ∧ freed slot = true <;>
            simp [parted, Object.mapGenerator, closedWith, hc]
        | closed v => rfl
      | _ => rfl
    · rw [if_neg hx]
      refine Option.map_congr fun o _ => ?_
      cases o with
      | generator o => simp [parted, hf, Ne.symm hx]
      | upvalue u => cases u <;> rfl
      | _ => rfl
  · exact h.opened
  · rw [h.rest]
    rfl

/-- A frame that runs no generator changes no generator when it is left. -/
theorem Parts.plain (h : s.Parts left freed t) (hf : f.generator = none) :
    s.Parts (f :: left) freed t := by
  refine ⟨fun x => ?_, h.opened, h.stack, h.rest⟩
  rw [h.heap]
  refine Option.map_congr fun o _ => ?_
  cases o with
  | generator o => simp [parted, hf]
  | upvalue u => cases u <;> rfl
  | _ => rfl

/-- The frames of a state may change. -/
theorem Parts.withFrames (h : s.Parts left freed t) (frames : Array Frame) :
    s.Parts left freed { t with frames := frames } :=
  ⟨h.heap, h.opened, h.stack, by rw [h.rest]⟩

/-- A slot is in one of the frames that are left. -/
def inFrames (left : List Frame) (slot : Nat) : Bool := left.any fun f => decide (f.base ≤ slot)

/-- A frame is left. -/
theorem Parts.leaveFrame (h : s.Parts left (inFrames left) t) (f : Frame) :
    s.Parts (f :: left) (inFrames (f :: left)) (t.leaveFrame f) := by
  have hfreed : inFrames (f :: left) = fun slot => inFrames left slot || decide (f.base ≤ slot) :=
    funext fun slot => by rw [inFrames, List.any_cons, Bool.or_comm]; rfl
  have hdrop : s.Parts left (inFrames left) t.dropFrame := h.withFrames _
  rw [hfreed]
  unfold State.leaveFrame
  cases hg : f.generator with
  | none => exact (hdrop.plain hg).close f.base
  | some g => exact (hdrop.finish hg).close f.base

/-- Closing upvalues keeps the frames. -/
theorem frames_closeUpvalues (s : State) (height : Nat) :
    (s.closeUpvalues height).frames = s.frames := by
  rw [closeUpvalues_eq]

/-- Leaving a frame drops it. -/
theorem frames_leaveFrame (s : State) (f : Frame) : (s.leaveFrame f).frames = s.frames.pop := by
  unfold State.leaveFrame
  rw [frames_closeUpvalues]
  cases f.generator <;> rfl

/-! ## Where control goes -/

/-- A slot goes when the stack is cut at a height and frames are left. -/
def Freed (left : List Frame) (cut slot : Nat) : Prop := cut ≤ slot ∨ ∃ f ∈ left, f.base ≤ slot

/-- What unwinding leaves behind besides the frames and the stack: frames have been left, and the
slots of `below` from a height on are gone. -/
structure Unwound (s : State) (below : Array Value) (left : List Frame) (cut : Nat) (t : State) :
    Prop where
  /-- The generators of the frames are done. -/
  done : ∀ f ∈ left, ∀ g o, f.generator = some g → s.heap.get? g = some (.generator o) →
    t.heap.get? g = some (.generator { o with state := .done, stack := #[], handlers := [] })
  /-- An upvalue of a slot that goes has its value. -/
  closed : ∀ x ∈ s.openUpvalues, ∀ slot, openSlot? s.heap x = some slot → Freed left cut slot →
    ∃ v, below[slot]? = some v ∧ t.heap.get? x = some (.upvalue (.closed v))
  /-- The others are still listed as open. -/
  opened : ∀ x, x ∈ t.openUpvalues ↔
    x ∈ s.openUpvalues ∧ ∀ slot, openSlot? s.heap x = some slot → ¬ Freed left cut slot
  /-- No other object has changed. -/
  others : ∀ x, (∀ f ∈ left, f.generator ≠ some x) →
    (x ∈ s.openUpvalues → ∀ slot, openSlot? s.heap x = some slot → ¬ Freed left cut slot) →
      t.heap.get? x = s.heap.get? x
  /-- Nothing else has changed. -/
  rest : t = { s with
    stack := t.stack, frames := t.frames, heap := t.heap, openUpvalues := t.openUpvalues }

/-- Where an exception goes from a state with `below` under it, from frames above a depth. -/
inductive Lands (s : State) (below : Array Value) (exception : Value) (depth : Nat) :
    State × Bool → Prop
  /-- To the handler installed last of the innermost frame that has one. -/
  | caught {outer inner : List Frame} {f : Frame} {k : Handler} {rest : List Handler} {t : State} :
    s.frames.toList = outer ++ f :: inner → depth ≤ outer.length →
    (∀ g ∈ inner, g.handlers = []) → f.handlers = k :: rest →
    t.frames.toList = outer ++ [{ f with handlers := rest, ip := k.address }] →
    t.stack = below.take k.height ++ #[exception, .number causeException] →
    s.Unwound below inner k.height t →
    Lands s below exception depth (t, true)
  /-- To the place of the outermost of these frames, as none of them has a handler. -/
  | uncaught {outer inner : List Frame} {f : Frame} {t : State} :
    s.frames.toList = outer ++ f :: inner → depth = outer.length →
    (∀ g ∈ f :: inner, g.handlers = []) →
    t.frames.toList = outer →
    t.stack = below.take f.base ++ #[exception] →
    s.Unwound below (f :: inner) f.base t →
    Lands s below exception depth (t, false)
  /-- There are no such frames. -/
  | stays : s.frames.size ≤ depth → Lands s below exception depth (s, false)

/-- The heap after frames have been left and the upvalues from a height on have been closed. -/
theorem Parts.unwound {below : Array Value} {cut : Nat} (hbelow : s.stack = below)
    (hopen : ∀ x ∈ s.openUpvalues, ∀ slot, openSlot? s.heap x = some slot → slot < below.size)
    (hfreed : ∀ slot, freed slot = true ↔ Freed left cut slot) (h : s.Parts left freed t) :
    s.Unwound below left cut t where
  done f hf g o hg ho := by
    have hmem : left.any (·.generator = some g) = true :=
      List.any_eq_true.2 ⟨f, hf, decide_eq_true hg⟩
    rw [h.heap, ho, Option.map_some, parted, if_pos hmem]
  closed x hx slot hslot hf := by
    have hlt := hopen x hx slot hslot
    refine ⟨below[slot], Array.getElem?_eq_getElem hlt, ?_⟩
    rw [h.heap, openSlot?_eq_some.1 hslot, Option.map_some, parted, if_pos ⟨hx, (hfreed slot).2 hf⟩,
      closedWith, hbelow, Array.getD_eq_getD_getElem?, Array.getElem?_eq_getElem hlt]
    rfl
  opened x := by
    rw [h.opened, List.mem_filter]
    refine and_congr_right fun _ => ?_
    cases openSlot? s.heap x with
    | none => simp
    | some slot => simp [← hfreed]
  others x hg hx := by
    rw [h.heap]
    cases hget : s.heap.get? x with
    | none => rfl
    | some o =>
      rw [Option.map_some, Option.some_inj]
      cases o with
      | generator o =>
        have hnot : ¬ left.any (·.generator = some x) = true := fun hany => by
          obtain ⟨f, hf, heq⟩ := List.any_eq_true.1 hany
          exact hg f hf (of_decide_eq_true heq)
        rw [parted, if_neg hnot]
      | upvalue u =>
        cases u with
        | opened slot =>
          rw [parted, if_neg fun hc => hx hc.1 slot (openSlot?_eq_some.2 hget) ((hfreed slot).1 hc.2)]
        | closed v => rfl
      | _ => rfl
  rest := by rw [h.rest]

/-- The stack and the frames do not matter to what is said of the rest. -/
theorem Unwound.congr {s' t' : State} {below : Array Value} {cut : Nat}
    (h : s.Unwound below left cut t)
    (hs : s = { s' with stack := s.stack, frames := s.frames })
    (ht : t' = { t with stack := t'.stack, frames := t'.frames }) :
    s'.Unwound below left cut t' := by
  have hheap : s'.heap = s.heap := by rw [hs]
  have hopened : s'.openUpvalues = s.openUpvalues := by rw [hs]
  have hheap' : t'.heap = t.heap := by rw [ht]
  have hopened' : t'.openUpvalues = t.openUpvalues := by rw [ht]
  refine ⟨?_, ?_, ?_, ?_, ?_⟩
  · rw [hheap, hheap']; exact h.done
  · rw [hheap, hheap', hopened]; exact h.closed
  · rw [hheap, hopened, hopened']; exact h.opened
  · rw [hheap, hheap', hopened]; exact h.others
  · rw [ht, h.rest, hs]

/-- The frames above a depth, one of them being the innermost. -/
theorem frames_toList (hf : s.frame? = some f) : s.frames.toList = s.frames.pop.toList ++ [f] := by
  rw [← Array.toList_push, ← frames_eq_push hf]

section Landing

variable {below : Array Value} (hs : s.stack = below.push exception)
  (hopen : ∀ x ∈ s.openUpvalues, ∀ slot, openSlot? s.heap x = some slot → slot < below.size)

include hs hopen

/-- The innermost frame has a handler, and the frames inside it have been left. -/
theorem Parts.caught {k : Handler} {rest : List Handler}
    (h : s.drop.Parts left (inFrames left) t) (hframes : s.frames.toList = t.frames.toList ++ left)
    (hleft : ∀ g ∈ left, g.handlers = []) (hdepth : d < t.frames.size) (hf : t.frame? = some f)
    (hk : f.handlers = k :: rest) :
    s.Lands below exception d
      ((t.modifyFrame fun f => { f with handlers := rest }).restore k exception causeException,
        true) := by
  have hbelow : s.drop.stack = below := by
    change s.stack.pop = below
    rw [hs, Array.pop_push]
  have houter := frames_toList hf
  have hlength : t.frames.size = t.frames.pop.toList.length + 1 := by
    rw [← Array.length_toList, houter, List.length_append, List.length_singleton]
  let popped := t.modifyFrame fun f => { f with handlers := rest }
  have hclosed : s.drop.Parts left (fun slot => inFrames left slot || decide (k.height ≤ slot))
      (popped.closeUpvalues k.height) := (h.withFrames _).close k.height
  have hpopped : popped.frame? = some { f with handlers := rest } := frame?_modifyFrame hf _
  let raised := (((popped.closeUpvalues k.height).truncate k.height).push exception).push
    (.number causeException)
  have hraised : raised.frame? = some { f with handlers := rest } := by
    rw [← hpopped]
    exact congrArg Array.back? (frames_closeUpvalues popped k.height)
  have hframes' : raised.frames.pop = t.frames.pop := by
    change (popped.closeUpvalues k.height).frames.pop = _
    rw [frames_closeUpvalues, frames_modifyFrame hf, Array.pop_push]
  have hsplit : s.frames.toList = t.frames.pop.toList ++ f :: left := by
    rw [hframes, houter, List.append_assoc, List.singleton_append]
  refine .caught hsplit ?_ hleft hk ?_ ?_ ?_
  · omega
  · change (raised.jumpTo k.address).frames.toList = _
    rw [State.jumpTo, frames_modifyFrame hraised, hframes', Array.toList_push]
  · change (((popped.closeUpvalues k.height).stack.shrink k.height).push exception).push _ = _
    rw [hclosed.stack, hbelow]
    exact Array.toList_inj.1 (by simp)
  · refine (hclosed.unwound hbelow hopen fun slot => ?_).congr rfl rfl
    simp [inFrames, Freed, or_comm]

/-- No frame has a handler, and all of them have been left. -/
theorem Parts.uncaught (h : s.drop.Parts (f :: left) (inFrames (f :: left)) t)
    (hframes : s.frames.toList = t.frames.toList ++ f :: left)
    (hleft : ∀ g ∈ f :: left, g.handlers = []) (hdepth : t.frames.size = d) :
    s.Lands below exception d ((t.truncate f.base).push exception, false) := by
  have hbelow : s.drop.stack = below := by
    change s.stack.pop = below
    rw [hs, Array.pop_push]
  refine .uncaught hframes hdepth.symm hleft rfl ?_ ?_
  · change (t.stack.shrink f.base).push exception = _
    rw [h.stack, hbelow]
    exact Array.toList_inj.1 (by simp)
  · refine (h.unwound hbelow hopen fun slot => ?_).congr rfl rfl
    simp [inFrames, Freed]

/-- Frames are left from the inside out until one of them has a handler. -/
theorem Parts.lands (count : Nat) (h : s.drop.Parts left (inFrames left) t)
    (hframes : s.frames.toList = t.frames.toList ++ left)
    (hleft : ∀ g ∈ left, g.handlers = []) (hdepth : t.frames.size = d + count)
    (hsome : left ≠ [] ∨ 0 < count) :
    s.Lands below exception d
      (t.unwindFrames exception count (left.head?.map (·.base))) := by
  induction count generalizing left t with
  | zero =>
    cases left with
    | nil => simp at hsome
    | cons f left => exact h.uncaught hs hopen hframes hleft hdepth
  | succ count ih =>
    have hlast : t.frames.size - 1 < t.frames.size := by omega
    obtain ⟨f, hf⟩ : ∃ f, t.frame? = some f :=
      ⟨t.frames[t.frames.size - 1], Array.getElem?_eq_getElem hlast⟩
    unfold State.unwindFrames
    rw [hf]
    dsimp only
    split
    · next k rest hk => exact h.caught hs hopen hframes hleft (by omega) hf hk
    · next hk =>
      have hpop := frames_leaveFrame t f
      refine ih (h.leaveFrame f) ?_ ?_ ?_ (.inl (List.cons_ne_nil _ _))
      · rw [hpop, hframes, frames_toList hf, List.append_assoc, List.singleton_append]
      · exact List.forall_mem_cons.2 ⟨hk, hleft⟩
      · rw [hpop, Array.size_pop]
        omega

end Landing

/-- Unwinding reaches the handler installed last of the innermost frame above the depth that has
one, or the caller of the outermost of these frames. -/
theorem unwind_lands {s : State} {below : Array Value} {exception : Value}
    (hs : s.stack = below.push exception)
    (hopen : ∀ x ∈ s.openUpvalues, ∀ slot, openSlot? s.heap x = some slot → slot < below.size)
    (depth : Nat) : s.Lands below exception depth (s.unwind depth) := by
  have htop : s.top = exception := by rw [State.top, hs, Array.back?_push]; rfl
  unfold State.unwind
  rw [htop]
  by_cases hdepth : s.frames.size ≤ depth
  · have hback : s.drop.push exception = s := by
      obtain ⟨stack, frames⟩ := s
      dsimp only at hs
      subst hs
      rw [State.drop, State.push, Array.pop_push]
    rw [Nat.sub_eq_zero_of_le hdepth, State.unwindFrames, hback]
    exact .stays hdepth
  · exact (Parts.refl s.drop).lands hs hopen _ (List.append_nil _).symm (by simp)
      (by change s.frames.size = _; omega) (.inr (by omega))

/-- A generator body has raised an exception, and its caller has a handler. -/
def raisedState : State :=
  { Act.capturedState with
    stack := Act.capturedState.stack.push .null
    frames := #[{ (default : Frame) with base := 0, handlers := [⟨.except, 7, 1⟩] }, Act.bodyFrame] }

/-- The body is left, so that its generator is done and its variable is closed, and control goes to
the handler of the caller. -/
theorem unwind_lands_outer : raisedState.stack = #[.null, .object ⟨1⟩, .bool true].push .null ∧
    raisedState.Lands #[.null, .object ⟨1⟩, .bool true] .null 0 (raisedState.unwind 0) ∧
      (raisedState.unwind 0).1.stack = #[.null, .null, .number causeException] ∧
        (raisedState.unwind 0).1.heap.get? ⟨2⟩ = some (.upvalue (.closed (.bool true))) :=
  ⟨rfl, unwind_lands rfl (by
    intro x hx slot hslot
    obtain rfl := List.mem_singleton.1 hx
    cases hslot
    decide) 0, rfl, rfl⟩

end State

end ScriptEngine
