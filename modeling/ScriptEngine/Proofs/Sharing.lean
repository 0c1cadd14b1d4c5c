import ScriptEngine.Proofs.CodeSafety

/-!
# Captured variables

A captured variable that is on the stack has one open upvalue, which the machine lists. `Tracks`
says so of a state: the list has every open upvalue once, no two of them refer to the same slot, and
each slot is on the stack. Capturing a slot keeps it, and so does leaving frames. Wherever slots are
left, an upvalue that refers to one of them is closed with the last value of the slot, and all
others stay as they are; `Settles` says that much of two states.

A suspended generator takes its slots along, and its captured variables are closed like those of any
frame that is left. They are not opened again when it is resumed, so that the body and the closures
go on with a copy each.
-/

namespace ScriptEngine

open Bytecode

namespace State

variable {s t u : State} {h : Handle} {height slot : Nat}

/-- An upvalue with the last value of a slot. -/
def closedWith (stack : Array Value) (slot : Nat) : Object :=
  .upvalue (.closed (stack.getD slot .null))

/-- An open upvalue is one that refers to a slot. -/
theorem openSlot?_eq_some {heap : Heap} :
    openSlot? heap h = some slot ↔ heap.get? h = some (.upvalue (.opened slot)) := by
  unfold openSlot?
  split
  · next ho => rw [ho]; simp
  · next hne =>
    refine ⟨nofun, fun ho => absurd ho (hne slot)⟩

/-- Whether an upvalue is open can be told from the object alone. -/
theorem openSlot?_congr {heap heap' : Heap} (heq : heap'.get? h = heap.get? h) :
    openSlot? heap' h = openSlot? heap h := by
  unfold openSlot?
  rw [heq]

/-- A closed upvalue refers to no slot. -/
theorem openSlot?_closedWith {heap : Heap} {stack : Array Value}
    (heq : heap.get? h = some (closedWith stack slot)) : openSlot? heap h = none := by
  unfold openSlot?
  rw [heq]
  rfl

/-! ## Open upvalues -/

/-- The list of open upvalues is exact. -/
structure Tracks (s : State) : Prop where
  tidy : s.heap.Tidy
  /-- It names none twice. -/
  nodup : s.openUpvalues.Nodup
  /-- It names the open upvalues of the heap. -/
  mem_iff : ∀ h, h ∈ s.openUpvalues ↔ ∃ slot, openSlot? s.heap h = some slot
  /-- No two of them refer to the same slot. -/
  unique : ∀ h h' slot, openSlot? s.heap h = some slot → openSlot? s.heap h' = some slot → h = h'
  /-- They refer to the stack. -/
  onStack : ∀ h slot, openSlot? s.heap h = some slot → slot < s.stack.size

/-- From one state to another, upvalues are closed with the last values of their slots, and change
in no other way. -/
structure Settles (s t : State) : Prop where
  /-- What becomes of an upvalue. -/
  goes : ∀ h v, s.heap.get? h = some (.upvalue v) → t.heap.get? h = some (.upvalue v) ∨
    ∃ slot, v = .opened slot ∧ t.heap.get? h = some (closedWith s.stack slot)
  /-- None is made. -/
  made : ∀ h v, t.heap.get? h = some (.upvalue v) → ∃ w, s.heap.get? h = some (.upvalue w)

/-- Settling one after the other, while the stack stays. -/
theorem Settles.trans (hst : s.Settles t) (hstack : t.stack = s.stack) (htu : t.Settles u) :
    s.Settles u where
  goes h v hv := by
    rcases hst.goes h v hv with ht | ⟨slot, rfl, ht⟩
    · rw [← hstack]
      exact htu.goes h v ht
    · rcases htu.goes h _ ht with hu | ⟨_, hopen, -⟩
      · exact .inr ⟨slot, rfl, hu⟩
      · cases hopen
  made h v hv := by
    obtain ⟨w, hw⟩ := htu.made h v hv
    exact hst.made h w hw

/-- Two heaps have the same upvalues. -/
def SameUpvalues (heap heap' : Heap) : Prop :=
  ∀ h v, heap'.get? h = some (.upvalue v) ↔ heap.get? h = some (.upvalue v)

/-- Upvalues are as they are. -/
theorem SameUpvalues.refl (heap : Heap) : SameUpvalues heap heap := fun _ _ => Iff.rfl

/-- The same upvalues refer to the same slots. -/
theorem SameUpvalues.openSlot? {heap heap' : Heap} (hsame : SameUpvalues heap heap') (h : Handle)
    (slot : Nat) : openSlot? heap' h = some slot ↔ openSlot? heap h = some slot := by
  rw [openSlot?_eq_some, openSlot?_eq_some, hsame]

/-- Other objects may change in place. -/
theorem sameUpvalues_update (s : State) (x : Handle) {f : Object → Object}
    (hf : ∀ o v, f o = .upvalue v ↔ o = .upvalue v) : SameUpvalues s.heap (s.update x f).heap := by
  intro h v
  rw [State.update, Heap.get?_resize, Heap.get?_update]
  split
  · cases s.heap.get? h with
    | none => simp
    | some o => simp [hf]
  · exact Iff.rfl

/-- Where the upvalues are the same, everything is settled. -/
theorem Settles.of_same (hsame : SameUpvalues s.heap t.heap) : s.Settles t :=
  ⟨fun h v hv => .inl ((hsame h v).2 hv), fun h v hv => ⟨v, (hsame h v).1 hv⟩⟩

/-- What comes after may leave the upvalues the same. -/
theorem Settles.congr (hst : s.Settles t) (hsame : SameUpvalues t.heap u.heap) : s.Settles u where
  goes h v hv := by
    rcases hst.goes h v hv with ht | ⟨slot, rfl, ht⟩
    · exact .inl ((hsame h v).2 ht)
    · exact .inr ⟨slot, rfl, (hsame h _).2 ht⟩
  made h v hv := hst.made h v ((hsame h v).1 hv)

/-- The upvalues stay, and the stack still has their slots. -/
theorem Tracks.congr (hs : s.Tracks) (htidy : t.heap.Tidy) (hsame : SameUpvalues s.heap t.heap)
    (hopened : t.openUpvalues = s.openUpvalues)
    (hstack : ∀ h slot, openSlot? s.heap h = some slot → slot < t.stack.size) : t.Tracks where
  tidy := htidy
  nodup := by rw [hopened]; exact hs.nodup
  mem_iff h := by simp only [hopened, hs.mem_iff, hsame.openSlot?]
  unique h h' slot ho ho' :=
    hs.unique h h' slot ((hsame.openSlot? h slot).1 ho) ((hsame.openSlot? h' slot).1 ho')
  onStack h slot ho := hstack h slot ((hsame.openSlot? h slot).1 ho)

/-- A frame changes, or values are pushed. -/
theorem Tracks.grow (hs : s.Tracks) (hheap : t.heap = s.heap)
    (hopened : t.openUpvalues = s.openUpvalues) (hsize : s.stack.size ≤ t.stack.size) : t.Tracks :=
  hs.congr (by rw [hheap]; exact hs.tidy) (by rw [hheap]; exact .refl _) hopened
    fun h slot ho => Nat.lt_of_lt_of_le (hs.onStack h slot ho) hsize

/-- A value is pushed. -/
theorem Tracks.push (hs : s.Tracks) (v : Value) : (s.push v).Tracks :=
  hs.grow rfl rfl (by rw [State.push, Array.size_push]; omega)

/-- The stack is cut where nothing open refers to what goes. -/
theorem Tracks.truncate (hs : s.Tracks)
    (hlt : ∀ h slot, openSlot? s.heap h = some slot → slot < height) : (s.truncate height).Tracks :=
  hs.congr hs.tidy (.refl _) rfl fun h slot ho => by
    change slot < (s.stack.shrink height).size
    have := hlt h slot ho
    have := hs.onStack h slot ho
    rw [Array.size_shrink]
    omega

/-! ## Closing -/

section Closing

variable {stack : Array Value} {heap : Heap}

/-- Closing an upvalue changes that one only, and only if it is open. -/
theorem get?_closeUpvalue (x : Handle) : (closeUpvalue stack heap h).get? x =
    if x = h then ((openSlot? heap h).map (closedWith stack)).or (heap.get? h)
    else heap.get? x := by
  unfold closeUpvalue
  split
  · next slot hslot =>
    rw [Heap.get?_update, hslot]
    split
    · next heq =>
      subst heq
      rw [openSlot?_eq_some.1 hslot]
      rfl
    · rfl
  · next hnone =>
    rw [hnone]
    split
    · next heq => rw [heq]; rfl
    · rfl

/-- Closing several upvalues changes just these. -/
theorem get?_closing {hs : List Handle} (hnodup : hs.Nodup) (x : Handle) :
    (hs.foldl (closeUpvalue stack) heap).get? x =
      if x ∈ hs then ((openSlot? heap x).map (closedWith stack)).or (heap.get? x)
      else heap.get? x := by
  induction hs generalizing heap with
  | nil => simp
  | cons h hs ih =>
    obtain ⟨hmem, hrest⟩ := List.nodup_cons.1 hnodup
    rw [List.foldl_cons, ih hrest, openSlot?, get?_closeUpvalue]
    by_cases heq : x = h
    · subst heq
      simp [hmem]
    · simp [heq, openSlot?]

/-- Closing upvalues keeps the heap tidy. -/
theorem tidy_closing (ht : heap.Tidy) (hs : List Handle) :
    (hs.foldl (closeUpvalue stack) heap).Tidy := by
  induction hs generalizing heap with
  | nil => exact ht
  | cons h hs ih =>
    refine ih ?_
    unfold closeUpvalue
    split
    · exact ht.update h _
    · exact ht

end Closing

/-- Closing from a height is closing those of the list that refer to it or above. -/
theorem closeUpvalues_eq (s : State) (height : Nat) : s.closeUpvalues height =
    { s with
      heap := (s.openUpvalues.filter (isOpenFrom s.heap height)).foldl (closeUpvalue s.stack) s.heap
      openUpvalues := s.openUpvalues.filter fun h => !isOpenFrom s.heap height h } := by
  unfold closeUpvalues
  split
  · next heq =>
    obtain ⟨stack, frames, heap, opened⟩ := s
    dsimp only at heq
    subst heq
    rfl
  · rw [List.partition_eq_filter_filter]
    rfl

@[simp] theorem stack_closeUpvalues (s : State) (height : Nat) :
    (s.closeUpvalues height).stack = s.stack := by
  rw [closeUpvalues_eq]

/-- An upvalue is open from a height if it refers to a slot there. -/
theorem isOpenFrom_iff {heap : Heap} : isOpenFrom heap height h = true ↔
    ∃ slot, openSlot? heap h = some slot ∧ height ≤ slot := by
  unfold isOpenFrom
  cases openSlot? heap h <;> simp

/-- The upvalues from a height on are closed with the values of their slots. -/
theorem Tracks.get?_closeUpvalues (hs : s.Tracks) (height : Nat) (h : Handle) :
    (s.closeUpvalues height).heap.get? h =
      if isOpenFrom s.heap height h then (openSlot? s.heap h).map (closedWith s.stack)
      else s.heap.get? h := by
  rw [closeUpvalues_eq, get?_closing (hs.nodup.filter _)]
  simp only [List.mem_filter]
  by_cases hopen : isOpenFrom s.heap height h = true
  · obtain ⟨slot, hslot, -⟩ := isOpenFrom_iff.1 hopen
    have hmem := (hs.mem_iff h).2 ⟨slot, hslot⟩
    simp [hopen, hmem, hslot]
  · simp [hopen]

/-- The upvalues below a height stay open. -/
theorem Tracks.openSlot?_closeUpvalues (hs : s.Tracks) (height : Nat) (h : Handle) :
    openSlot? (s.closeUpvalues height).heap h = (openSlot? s.heap h).filter (· < height) := by
  have hget := hs.get?_closeUpvalues height h
  cases hslot : openSlot? s.heap h with
  | none =>
    have hfrom : isOpenFrom s.heap height h = false := by rw [isOpenFrom, hslot]; rfl
    rw [hfrom] at hget
    rw [openSlot?_congr hget, hslot]
    rfl
  | some slot =>
    by_cases hle : height ≤ slot
    · rw [if_pos (isOpenFrom_iff.2 ⟨slot, hslot, hle⟩), hslot] at hget
      rw [openSlot?_closedWith hget, Option.filter_some, if_neg (by simpa using hle)]
    · rw [if_neg fun hf => by
        obtain ⟨slot', hslot', hle'⟩ := isOpenFrom_iff.1 hf
        rw [hslot] at hslot'
        cases hslot'
        exact hle hle'] at hget
      rw [openSlot?_congr hget, hslot, Option.filter_some, if_pos (by simpa using hle)]

/-- Closing from a height settles what refers to it or above. -/
theorem Tracks.settles_closeUpvalues (hs : s.Tracks) (height : Nat) :
    s.Settles (s.closeUpvalues height) := by
  constructor
  · intro h v hv
    rw [hs.get?_closeUpvalues]
    split
    · next hf =>
      obtain ⟨slot, hslot, -⟩ := isOpenFrom_iff.1 hf
      have := (openSlot?_eq_some.1 hslot).symm.trans hv
      cases this
      exact .inr ⟨slot, rfl, by rw [hslot]; rfl⟩
    · exact .inl hv
  · intro h v hv
    rw [hs.get?_closeUpvalues] at hv
    split at hv
    · next hf =>
      obtain ⟨slot, hslot, -⟩ := isOpenFrom_iff.1 hf
      exact ⟨_, openSlot?_eq_some.1 hslot⟩
    · exact ⟨v, hv⟩

/-- Closing keeps the list exact, and nothing open refers to the slots that are left. -/
theorem Tracks.closeUpvalues (hs : s.Tracks) (height : Nat) : (s.closeUpvalues height).Tracks := by
  have hopen : ∀ h slot, openSlot? (s.closeUpvalues height).heap h = some slot ↔
      openSlot? s.heap h = some slot ∧ slot < height := by
    intro h slot
    rw [hs.openSlot?_closeUpvalues, Option.filter_eq_some_iff, decide_eq_true_iff]
  refine ⟨?_, ?_, ?_, ?_, ?_⟩
  · rw [closeUpvalues_eq]
    exact tidy_closing hs.tidy _
  · rw [closeUpvalues_eq]
    exact hs.nodup.filter _
  · intro h
    simp only [hopen]
    rw [closeUpvalues_eq, List.mem_filter, hs.mem_iff, Bool.not_eq_true', ← Bool.not_eq_true,
      isOpenFrom_iff]
    constructor
    · rintro ⟨⟨slot, hslot⟩, hnot⟩
      exact ⟨slot, hslot, Nat.lt_of_not_le fun hle => hnot ⟨slot, hslot, hle⟩⟩
    · rintro ⟨slot, hslot, hlt⟩
      refine ⟨⟨slot, hslot⟩, fun ⟨slot', hslot', hle⟩ => ?_⟩
      rw [hslot] at hslot'
      cases hslot'
      omega
  · exact fun h h' slot ho ho' =>
      hs.unique h h' slot ((hopen h slot).1 ho).1 ((hopen h' slot).1 ho').1
  · intro h slot ho
    rw [stack_closeUpvalues]
    exact hs.onStack h slot ((hopen h slot).1 ho).1

/-- Nothing open refers to the slots from the height on. -/
theorem Tracks.lt_of_closeUpvalues (hs : s.Tracks)
    (ho : openSlot? (s.closeUpvalues height).heap h = some slot) : slot < height := by
  rw [hs.openSlot?_closeUpvalues, Option.filter_eq_some_iff, decide_eq_true_iff] at ho
  exact ho.2

/-! ## Leaving frames -/

section Leaving

variable {f : Frame}

/-- Upvalues are closed where the stack is cut. -/
theorem Tracks.cut (hs : s.Tracks) (height : Nat) :
    ((s.closeUpvalues height).truncate height).Tracks ∧
      s.Settles ((s.closeUpvalues height).truncate height) :=
  ⟨(hs.closeUpvalues height).truncate fun _ _ ho => hs.lt_of_closeUpvalues ho,
    (hs.settles_closeUpvalues height).congr (.refl _)⟩

/-- A change of the innermost frame. -/
theorem Tracks.modifyFrame (hs : s.Tracks) (g : Frame → Frame) : (s.modifyFrame g).Tracks :=
  hs.grow rfl rfl (Nat.le_refl _)

/-- A handler goes on: what is above its height is settled. -/
theorem Tracks.restore (hs : s.Tracks) (k : Handler) (v : Value) (cause : Number) :
    (s.restore k v cause).Tracks ∧ s.Settles (s.restore k v cause) :=
  ⟨(((hs.cut k.height).1.push v).push _).modifyFrame _, (hs.cut k.height).2.congr (.refl _)⟩

/-- An object that is no upvalue changes in place. -/
theorem Tracks.update (hs : s.Tracks) (x : Handle) {f : Object → Object}
    (hf : ∀ o v, f o = .upvalue v ↔ o = .upvalue v) :
    (s.update x f).Tracks ∧ s.Settles (s.update x f) := by
  have hsame := sameUpvalues_update s x hf
  exact ⟨hs.congr ((hs.tidy.update x f).resize x) hsame rfl hs.onStack, .of_same hsame⟩

/-- A generator is completed. -/
theorem Tracks.finishGenerator (hs : s.Tracks) (x : Handle) :
    (s.finishGenerator x).Tracks ∧ s.Settles (s.finishGenerator x) :=
  hs.update x fun o v => by cases o <;> simp

/-- A frame is left: its captured variables are closed. -/
theorem Tracks.leaveFrame (hs : s.Tracks) (f : Frame) :
    (s.leaveFrame f).Tracks ∧ s.Settles (s.leaveFrame f) ∧ (s.leaveFrame f).stack = s.stack ∧
      ∀ h slot, openSlot? (s.leaveFrame f).heap h = some slot → slot < f.base := by
  have hclose : ∀ t : State, t.Tracks → s.Settles t → t.stack = s.stack →
      (t.closeUpvalues f.base).Tracks ∧ s.Settles (t.closeUpvalues f.base) ∧
        (t.closeUpvalues f.base).stack = s.stack ∧
          ∀ h slot, openSlot? (t.closeUpvalues f.base).heap h = some slot → slot < f.base :=
    fun t ht hst hstack => ⟨ht.closeUpvalues _, hst.trans hstack (ht.settles_closeUpvalues _),
      (t.stack_closeUpvalues _).trans hstack, fun _ _ ho => ht.lt_of_closeUpvalues ho⟩
  have hdrop : s.dropFrame.Tracks := hs.grow rfl rfl (Nat.le_refl _)
  unfold State.leaveFrame
  cases f.generator with
  | none => exact hclose _ hdrop (.of_same (.refl _)) rfl
  | some g =>
    obtain ⟨ht, hst⟩ := hdrop.finishGenerator g
    exact hclose _ ht (Settles.trans (t := s.dropFrame) (.of_same (.refl _)) rfl hst) rfl

/-- Unwinding closes the captured variables of the frames it leaves and of the slots it cuts. -/
theorem Tracks.unwindFrames (hs : s.Tracks) (exception : Value) (count : Nat) (base : Option Nat)
    (hbase : ∀ b, base = some b → ∀ h slot, openSlot? s.heap h = some slot → slot < b) :
    (s.unwindFrames exception count base).1.Tracks ∧
      s.Settles (s.unwindFrames exception count base).1 := by
  induction count generalizing s base with
  | zero =>
    unfold State.unwindFrames
    split
    · next b => exact ⟨(hs.truncate (hbase b rfl)).push _, .of_same (.refl _)⟩
    · exact ⟨hs.push _, .of_same (.refl _)⟩
  | succ count ih =>
    unfold State.unwindFrames
    split
    · next f _ =>
      split
      · next k rest _ =>
        let popped := s.modifyFrame fun f => { f with handlers := rest }
        obtain ⟨ht, hst⟩ := (hs.modifyFrame fun f => { f with handlers := rest }).restore k
          exception causeException
        exact ⟨ht, Settles.trans (t := popped) (.of_same (.refl _)) rfl hst⟩
      · obtain ⟨ht, hst, hstack, hlt⟩ := hs.leaveFrame f
        obtain ⟨hu, htu⟩ := ih ht (some f.base) fun b hb => by cases hb; exact hlt
        exact ⟨hu, hst.trans hstack htu⟩
    · exact ⟨hs.push _, .of_same (.refl _)⟩

/-- The exception on top of the stack is not a captured variable. -/
theorem Tracks.unwind (hs : s.drop.Tracks) (depth : Nat) :
    (s.unwind depth).1.Tracks ∧ s.Settles (s.unwind depth).1 := by
  obtain ⟨ht, hst⟩ := hs.unwindFrames s.top (s.frames.size - depth) none nofun
  refine ⟨ht, fun h v hv => ?_, hst.made⟩
  rcases hst.goes h v hv with hv | ⟨slot, rfl, hv'⟩
  · exact .inl hv
  · have hlt : slot < s.stack.pop.size := hs.onStack h slot (openSlot?_eq_some.2 hv)
    refine .inr ⟨slot, rfl, hv'.trans ?_⟩
    rw [Array.size_pop] at hlt
    have hpop : s.stack.pop[slot]? = s.stack[slot]? := by rw [Array.getElem?_pop, if_pos hlt]
    simp only [closedWith, State.drop, Array.getD_eq_getD_getElem?, hpop]

end Leaving

/-! ## Collections and new upvalues -/

/-- A collection frees no upvalue that is open, and changes none. -/
theorem Tracks.collect (hs : s.Tracks) (more : List Handle) :
    { s with heap := (s.heap.collect (s.roots ++ more)).1 : State }.Tracks ∧
      (∀ x o, (s.heap.collect (s.roots ++ more)).1.get? x = some o → s.heap.get? x = some o) ∧
      ∀ x i, openSlot? (s.heap.collect (s.roots ++ more)).1 x = some i ↔
        openSlot? s.heap x = some i := by
  have hsub : ∀ x o, (s.heap.collect (s.roots ++ more)).1.get? x = some o →
      s.heap.get? x = some o := by
    intro x o hx
    rw [← Heap.get?_collect (Heap.isLive_of_get? hx)]
    exact hx
  have hopen : ∀ x i, openSlot? (s.heap.collect (s.roots ++ more)).1 x = some i ↔
      openSlot? s.heap x = some i := by
    intro x i
    refine ⟨fun hx => openSlot?_eq_some.2 (hsub _ _ (openSlot?_eq_some.1 hx)), fun hx => ?_⟩
    have hroot : x ∈ s.roots := by
      have := (hs.mem_iff x).2 ⟨i, hx⟩
      unfold State.roots
      simp only [List.mem_append]
      exact .inl (.inl (.inr this))
    have hreach : Heap.Reaches s.heap.cells (s.roots ++ more) x :=
      .root (List.mem_append_left more hroot)
    have hkept := Heap.get?_collect_of_reaches hreach
    rw [openSlot?_congr hkept, hx]
  refine ⟨⟨hs.tidy.collect _, hs.nodup, fun x => ?_, fun x y i hx hy => ?_, fun x i hx => ?_⟩,
    hsub, hopen⟩
  · simp only [hs.mem_iff, hopen]
  · exact hs.unique x y i ((hopen x i).1 hx) ((hopen y i).1 hy)
  · exact hs.onStack x i ((hopen x i).1 hx)

/-- A new open upvalue. -/
theorem openSlot?_insert {heap : Heap} (ht : heap.Tidy) (slot : Nat) (x : Handle) (i : Nat) :
    openSlot? (heap.insert (.upvalue (.opened slot))).1 x = some i ↔
      x = (heap.insert (.upvalue (.opened slot))).2 ∧ i = slot ∨ openSlot? heap x = some i := by
  have hdead := (ht.insert_cells (.upvalue (.opened slot))).1
  rw [Heap.isLive, Option.isSome_eq_false_iff, Option.isNone_iff_eq_none] at hdead
  rw [openSlot?_eq_some, openSlot?_eq_some, Heap.get?_insert ht]
  split
  · next heq =>
    subst heq
    simp [hdead, eq_comm]
  · next hne => simp [hne]

/-- A slot that no open upvalue refers to gets one. -/
theorem Tracks.insert (hs : s.Tracks) (hfree : ∀ x, openSlot? s.heap x ≠ some slot)
    (hslot : slot < s.stack.size) :
    { s with
      heap := (s.heap.insert (.upvalue (.opened slot))).1
      openUpvalues :=
        (s.heap.insert (.upvalue (.opened slot))).2 :: s.openUpvalues : State }.Tracks := by
  have hopen := openSlot?_insert hs.tidy slot
  have hfresh : (s.heap.insert (.upvalue (.opened slot))).2 ∉ s.openUpvalues := fun hmem => by
    obtain ⟨i, hi⟩ := (hs.mem_iff _).1 hmem
    have hlive := Heap.isLive_of_get? (openSlot?_eq_some.1 hi)
    rw [(hs.tidy.insert_cells (.upvalue (.opened slot))).1] at hlive
    cases hlive
  refine ⟨hs.tidy.insert _, List.nodup_cons.2 ⟨hfresh, hs.nodup⟩, fun x => ?_,
    fun x y i hx hy => ?_, fun x i hx => ?_⟩
  · simp only [List.mem_cons, hs.mem_iff, hopen]
    constructor
    · rintro (rfl | ⟨i, hi⟩)
      · exact ⟨slot, .inl ⟨rfl, rfl⟩⟩
      · exact ⟨i, .inr hi⟩
    · rintro ⟨i, ⟨rfl, -⟩ | hi⟩
      · exact .inl rfl
      · exact .inr ⟨i, hi⟩
  · rcases (hopen x i).1 hx with ⟨hxn, hxi⟩ | hx' <;> rcases (hopen y i).1 hy with ⟨hyn, hyi⟩ | hy'
    · exact hxn.trans hyn.symm
    · exact absurd (hxi ▸ hy') (hfree y)
    · exact absurd (hyi ▸ hx') (hfree x)
    · exact hs.unique x y i hx' hy'
  · rcases (hopen x i).1 hx with ⟨-, rfl⟩ | hx'
    · exact hslot
    · exact hs.onStack x i hx'

/-- What capturing a slot does: it gives an upvalue of the slot, which every later capture gives as
well while it is open. Other upvalues stay as they are, unless they are closed and nothing refers to
them any more. -/
structure Captures (s : State) (slot : Nat) (h : Handle) (t : State) : Prop where
  tracks : t.Tracks
  stack : t.stack = s.stack
  opened : openSlot? t.heap h = some slot
  again : Act.captureSlot slot t = .done h t
  kept : ∀ x i, openSlot? s.heap x = some i → openSlot? t.heap x = some i
  others : ∀ x v, x ≠ h → t.heap.get? x = some (.upvalue v) → s.heap.get? x = some (.upvalue v)

end State

namespace Act

open State

variable {s t : State} {h : Handle} {slot : Nat}

/-- A slot that has an open upvalue is captured by it. -/
theorem captureSlot_of_find? (hx : s.openUpvalues.find?
    (fun x => openSlot? s.heap x == some slot) = some h) : captureSlot slot s = .done h s := by
  unfold captureSlot
  rw [bind_run, gets_run, Proc.bind_done, hx]
  rfl

/-- An upvalue is made for a slot that has none. -/
theorem captures_insert (hs : s.Tracks) (hfree : ∀ x, openSlot? s.heap x ≠ some slot)
    (hslot : slot < s.stack.size) :
    s.Captures slot (s.heap.insert (.upvalue (.opened slot))).2
      { s with
        heap := (s.heap.insert (.upvalue (.opened slot))).1
        openUpvalues := (s.heap.insert (.upvalue (.opened slot))).2 :: s.openUpvalues } := by
  have hopen := openSlot?_insert hs.tidy slot
  have hopened := (hopen _ _).2 (.inl ⟨rfl, rfl⟩)
  refine ⟨hs.insert hfree hslot, rfl, hopened, captureSlot_of_find? ?_,
    fun x i hx => (hopen x i).2 (.inr hx), fun x v hne hv => ?_⟩
  · rw [List.find?_cons_of_pos]
    simp only [hopened, beq_self_eq_true]
  · rwa [Heap.get?_insert hs.tidy, if_neg hne] at hv

/-- Capturing a slot gives its one open upvalue, or makes it. -/
theorem captures (hs : s.Tracks) (hslot : slot < s.stack.size)
    (hr : captureSlot slot s = .done h t) : s.Captures slot h t := by
  cases hx : s.openUpvalues.find? (fun x => openSlot? s.heap x == some slot) with
  | some x =>
    have hrun := captureSlot_of_find? hx
    rw [hr] at hrun
    cases hrun
    exact ⟨hs, rfl, by simpa using List.find?_some hx, hr, fun _ _ => id, fun _ _ _ => id⟩
  | none =>
    have hfree : ∀ x, openSlot? s.heap x ≠ some slot := by
      intro x ho
      have := List.find?_eq_none.1 hx x ((hs.mem_iff x).2 ⟨slot, ho⟩)
      simp [ho] at this
    unfold captureSlot alloc at hr
    rw [bind_run, gets_run, Proc.bind_done, hx] at hr
    dsimp only at hr
    rw [bind_run, bind_run] at hr
    rcases reserve_cases (Object.upvalue (.opened slot)).estimatedBytes
      (Object.upvalue (.opened slot)).references s with hres | hres | hres
    · rw [hres] at hr
      cases hr
    · rw [hres] at hr
      cases hr
      exact captures_insert hs hfree hslot
    · rw [hres] at hr
      cases hr
      obtain ⟨hcollected, hsub, hkept⟩ := hs.collect (Object.upvalue (.opened slot)).references
      have hmade := captures_insert hcollected (fun x ho => hfree x ((hkept x _).1 ho)) hslot
      exact ⟨hmade.tracks, hmade.stack, hmade.opened, hmade.again,
        fun x i hx => hmade.kept x i ((hkept x i).2 hx),
        fun x v hne hv => hsub x _ (hmade.others x v hne hv)⟩

/-- While an upvalue is open, it is read and assigned through its slot. -/
theorem readUpvalue_opened (ho : openSlot? s.heap h = some slot) :
    readUpvalue h s = slotAt slot s := by
  unfold readUpvalue object
  rw [bind_run, require_run _ _ (openSlot?_eq_some.1 ho), Proc.bind_done]

/-- Writing an open upvalue is writing its slot. -/
theorem writeUpvalue_opened (ho : openSlot? s.heap h = some slot) (v : Value) :
    writeUpvalue h v s = setSlotAt slot v s := by
  unfold writeUpvalue object
  rw [bind_run, require_run _ _ (openSlot?_eq_some.1 ho), Proc.bind_done]

/-! ## Ends of scopes, returns and suspensions -/

/-- The start of some values on top of the stack. -/
theorem start_eq_done {count a : Nat} :
    start count s = .done a t ↔ count ≤ s.stack.size ∧ a = s.stack.size - count ∧ t = s := by
  rw [start, require_eq_done, Option.ite_none_right_eq_some, Option.some_inj, and_assoc,
    eq_comm (a := a)]

/-- The end of a captured variable closes its upvalue and drops its slot. -/
theorem execute_closeUpvalue {c : Control} (hr : execute .closeUpvalue s = .done c t) :
    t = (s.closeUpvalues (s.stack.size - 1)).drop := by
  simp only [execute, thenNext, bind_run] at hr
  obtain ⟨_, _, hr, hnext⟩ := bind_eq_done.1 hr
  obtain ⟨_, _, hstart, hr⟩ := bind_eq_done.1 hr
  obtain ⟨-, rfl, rfl⟩ := start_eq_done.1 hstart
  cases hr
  cases hnext
  rfl

/-- The variable is settled, and the rest is tracked. -/
theorem settles_closeUpvalue (hs : s.Tracks) {c : Control}
    (hr : execute .closeUpvalue s = .done c t) : t.Tracks ∧ s.Settles t := by
  obtain rfl := execute_closeUpvalue hr
  have hcut := hs.cut (s.stack.size - 1)
  have hsize : (s.closeUpvalues (s.stack.size - 1)).drop.stack.size =
      ((s.closeUpvalues (s.stack.size - 1)).truncate (s.stack.size - 1)).stack.size := by
    simp [State.drop, State.truncate]
  exact ⟨hcut.1.grow rfl rfl hsize.ge, hcut.2.congr (.refl _)⟩

/-- A return settles the variables of the frame that it leaves. -/
theorem settles_returnValue (hs : s.Tracks) {v : Value} {c : Control}
    (hr : returnValue v s = .done c t) : t.Tracks ∧ s.Settles t := by
  unfold returnValue frame at hr
  cases hf : s.frame? with
  | none =>
    rw [bind_run, require, hf] at hr
    cases hr
  | some f =>
    rw [bind_run, require_run _ _ hf, Proc.bind_done, bind_run, modifyGet] at hr
    unfold State.unwindReturn at hr
    rw [hf] at hr
    dsimp only at hr
    split at hr
    · next k rest _ =>
      cases hr
      let popped := s.modifyFrame fun f => { f with handlers := rest }
      obtain ⟨ht, hst⟩ := (hs.modifyFrame fun f => { f with handlers := rest }).restore k v
        causeReturn
      exact ⟨ht, Settles.trans (t := popped) (.of_same (.refl _)) rfl hst⟩
    · cases hr
      let popped := s.modifyFrame fun f => { f with handlers := [] }
      obtain ⟨ht, hst, -, hlt⟩ := (hs.modifyFrame fun f => { f with handlers := [] }).leaveFrame f
      exact ⟨(ht.truncate hlt).push v,
        Settles.trans (t := popped) (.of_same (.refl _)) rfl (hst.congr (.refl _))⟩

/-! ## Generators -/

/-- A generator that is suspended: the slots of its frame, and where it goes on. -/
def asleep (s : State) (f : Frame) (v : Value) (o : GeneratorObject) : GeneratorObject :=
  { o with
    state := .suspended
    ip := f.ip
    stack := s.slotsFrom f.base
    handlers := lowerHandlers f.base f.handlers
    lastYield := v }

/-- The state in which a generator has been suspended. -/
def suspended (s : State) (f : Frame) (g : Handle) (v : Value) : State :=
  (((s.closeUpvalues f.base).dropFrame.truncate f.base).update g fun
    | .generator o => .generator (asleep s f v o)
    | o => o).push v

section Generators

variable {f : Frame} {g : Handle} {o : GeneratorObject} {v : Value}

/-- What becomes of a state when a generator is suspended. -/
theorem suspend_run (s : State) (f : Frame) (g : Handle) (v : Value) :
    suspend g f v s = .done () (suspended s f g v) := by
  have hslots : (s.closeUpvalues f.base).dropFrame.slotsFrom f.base = s.slotsFrom f.base := by
    change (s.closeUpvalues f.base).slotsFrom f.base = _
    unfold State.slotsFrom
    rw [stack_closeUpvalues]
  unfold suspend
  simp only [bind_run, modify_run, Proc.bind_done, gets_run, Act.truncate, push_run,
    dropFrame_closeUpvalues, hslots]
  rfl

/-- Suspending changes no upvalue beyond those it closes. -/
theorem sameUpvalues_suspended (s : State) (f : Frame) (g : Handle) (v : Value) :
    SameUpvalues (s.closeUpvalues f.base).heap (suspended s f g v).heap := by
  dsimp only [suspended, State.push]
  exact sameUpvalues_update ((s.closeUpvalues f.base).dropFrame.truncate f.base) g fun o w => by
    cases o <;> simp

/-- The slots of a generator that is suspended leave the stack, as those of any frame. -/
theorem settles_suspended (hs : s.Tracks) (f : Frame) (g : Handle) (v : Value) :
    (suspended s f g v).Tracks ∧ s.Settles (suspended s f g v) := by
  obtain ⟨hcut, -⟩ := hs.cut f.base
  have hdropped : ((s.closeUpvalues f.base).dropFrame.truncate f.base).Tracks :=
    hcut.grow rfl rfl (Nat.le_refl _)
  refine ⟨?_, (hs.settles_closeUpvalues f.base).congr (sameUpvalues_suspended s f g v)⟩
  unfold suspended
  exact (hdropped.update g fun o w => by cases o <;> simp).1.push v

/-- The generator has the slots that its frame had. -/
theorem get?_suspended (hs : s.Tracks) (hg : s.heap.get? g = some (.generator o)) :
    (suspended s f g v).heap.get? g = some (.generator (asleep s f v o)) := by
  have hnone : isOpenFrom s.heap f.base g = false := by
    unfold isOpenFrom openSlot?
    rw [hg]
    rfl
  have hkept : ((s.closeUpvalues f.base).dropFrame.truncate f.base).heap.get? g =
      some (.generator o) := by
    change (s.closeUpvalues f.base).heap.get? g = _
    rw [hs.get?_closeUpvalues, hnone, if_neg Bool.false_ne_true, hg]
  unfold suspended State.push State.update
  rw [Heap.get?_resize, Heap.get?_update, if_pos rfl, hkept]
  rfl

/-- The slots a generator took along stand above the base of its frame. -/
theorem getElem?_shrink_append {stack slots : Array Value} {base i : Nat} {x : Value}
    (hbase : base ≤ stack.size) (hx : slots[i]? = some x) :
    (stack.shrink base ++ slots)[base + i]? = some x := by
  have hsize : (stack.shrink base).size = base := by rw [Array.size_shrink]; omega
  rw [Array.getElem?_append_right (by omega), hsize, Nat.add_sub_cancel_left, hx]

/-- What is below stays when a value is pushed. -/
theorem getElem?_push_of_eq_some {stack : Array Value} {i : Nat} {x y : Value}
    (hx : stack[i]? = some x) : (stack.push y)[i]? = some x := by
  obtain ⟨hi, -⟩ := Array.getElem?_eq_some_iff.1 hx
  rw [Array.getElem?_push, if_neg (by omega), hx]

/-- A generator that runs holds no slots. No upvalue is opened by that. -/
theorem sameUpvalues_woken (hg : s.heap.get? g = some (.generator o)) (stack : Array Value) :
    SameUpvalues s.heap (woken s g o stack).heap := by
  intro h w
  change (s.heap.update g _).get? h = _ ↔ _
  rw [Heap.get?_update]
  split
  · next heq =>
    subst heq
    simp [hg]
  · exact Iff.rfl

/-- A suspended generator that goes on. Its frame has the slots it took along, and no upvalue is
opened. -/
theorem resumed {u w : State} {argc : Nat} (hg : u.heap.get? g = some (.generator o))
    (hr : resumeGenerator g o argc u = .done () w) :
    SameUpvalues u.heap w.heap ∧ w.openUpvalues = u.openUpvalues ∧
      ∃ frame, w.frame? = some frame ∧ frame.generator = some g ∧
        ∀ i x, o.stack[i]? = some x → w.stack[frame.base + i]? = some x := by
  unfold resumeGenerator at hr
  split at hr
  · exact absurd hr (fail_ne_done _ _ _ _)
  split at hr
  · exact absurd hr (fail_ne_done _ _ _ _)
  split at hr
  · exact absurd hr (fail_ne_done _ _ _ _)
  rw [bind_run, atFrameLimit, gets_run, Proc.bind_done] at hr
  split at hr
  · exact absurd hr (fail_ne_done _ _ _ _)
  dsimp only at hr
  -- the argument, where there is one, is taken off first, and is pushed above the slots
  split at hr
  all_goals
    simp only [bind_run, pop, pure_run, Proc.bind_done] at hr
    obtain ⟨_, _, hstart, hr⟩ := bind_eq_done.1 hr
    obtain ⟨-, rfl, rfl⟩ := start_eq_done.1 hstart
    simp only [truncate, modify_run, Proc.bind_done] at hr
    obtain ⟨_, _, hcode, hr⟩ := bind_eq_done.1 hr
    obtain ⟨-, rfl⟩ := require_eq_done.1 hcode
    split at hr
    · cases hr
      exact ⟨sameUpvalues_woken hg #[], rfl, _, Array.back?_push .., rfl, fun i x hx =>
        getElem?_push_of_eq_some (getElem?_shrink_append (Nat.sub_le _ _) hx)⟩
    · cases hr
      exact ⟨sameUpvalues_woken hg #[], rfl, _, Array.back?_push .., rfl, fun i x hx =>
        getElem?_shrink_append (Nat.sub_le _ _) hx⟩

end Generators

/-! ## Sharing -/

/-- Captured variables in a state whose list of open upvalues is exact. A slot that is captured
gets one upvalue, however often it is captured, and reading and assigning that is reading and
assigning the slot. Wherever slots leave the stack, at the end of a scope, in a return or a
suspension, or when an exception is raised, the upvalues of these slots are closed with their last
values, and all others stay as they are. In each case the list is exact afterwards. -/
theorem captured_closed_once {s : State} (hs : s.Tracks) :
    (∀ slot h t, slot < s.stack.size → captureSlot slot s = .done h t → s.Captures slot h t) ∧
    (∀ h slot, openSlot? s.heap h = some slot →
      readUpvalue h s = slotAt slot s ∧ ∀ v, writeUpvalue h v s = setSlotAt slot v s) ∧
    (∀ c t, execute .closeUpvalue s = .done c t → t.Tracks ∧ s.Settles t) ∧
    (∀ v c t, returnValue v s = .done c t → t.Tracks ∧ s.Settles t) ∧
    (∀ f g v x t, suspend g f v s = .done x t → t.Tracks ∧ s.Settles t) ∧
    ∀ depth, s.drop.Tracks → (s.unwind depth).1.Tracks ∧ s.Settles (s.unwind depth).1 := by
  refine ⟨fun slot h t hslot hr => captures hs hslot hr,
    fun h slot ho => ⟨readUpvalue_opened ho, writeUpvalue_opened ho⟩,
    fun c t hr => settles_closeUpvalue hs hr, fun v c t hr => settles_returnValue hs hr,
    fun f g v x t hr => ?_, fun depth hdrop => hdrop.unwind depth⟩
  rw [suspend_run] at hr
  cases hr
  exact settles_suspended hs f g v

/-- A generator that runs, and the function of its body. -/
def bodyHeap : Heap :=
  (((Heap.create 0 .zero none).insert (.function ⟨default, #[], #[], ⟨0⟩⟩)).1.insert
    (.generator ⟨⟨0⟩, ⟨0⟩, .running, 0, #[], [], .null⟩)).1

/-- The body has one variable, in slot 2. -/
def bodyState : State :=
  { (default : State) with
    stack := #[.null, .object ⟨1⟩, .bool true]
    heap := bodyHeap
    settings := .default }

/-- The variable has been captured. -/
def capturedState : State :=
  { bodyState with
    heap := (bodyHeap.insert (.upvalue (.opened 2))).1
    openUpvalues := [⟨2⟩] }

/-- The captured variable is tracked. -/
theorem tracks_capturedState : capturedState.Tracks := by
  have hget : ∀ x o, bodyHeap.get? x = some o →
      o = .generator ⟨⟨0⟩, ⟨0⟩, .running, 0, #[], [], .null⟩ ∨
        o = .function ⟨default, #[], #[], ⟨0⟩⟩ := by
    intro x o hx
    have hmade := (Heap.Made.create 0 .zero none).insert (.function ⟨default, #[], #[], ⟨0⟩⟩)
    rw [bodyHeap, Heap.get?_insert hmade.tidy,
      Heap.get?_insert (Heap.Made.create 0 .zero none).tidy] at hx
    split at hx
    · exact .inl (Option.some.inj hx).symm
    split at hx
    · exact .inr (Option.some.inj hx).symm
    · cases hx
  have hnone : ∀ x i, openSlot? bodyHeap x ≠ some i := by
    intro x i hx
    rcases hget x _ (openSlot?_eq_some.1 hx) with h | h <;> cases h
  have hbody : bodyState.Tracks :=
    ⟨(((Heap.Made.create 0 .zero none).insert _).insert _).tidy, List.nodup_nil,
      fun x => ⟨nofun, fun ⟨i, hi⟩ => absurd hi (hnone x i)⟩,
      fun x _ i hx => absurd hx (hnone x i), fun x i hx => absurd hx (hnone x i)⟩
  exact hbody.insert (hnone · 2) (by decide)

/-- Across a suspension a captured variable becomes two. The upvalue is closed with the value of the
slot, and the generator takes the slot along; when it is resumed, the slot is on the stack again
with the same value, but no upvalue has changed. -/
theorem suspended_apart {s : State} (hs : s.Tracks) (f : Frame) {g : Handle} {o : GeneratorObject}
    (hg : s.heap.get? g = some (.generator o)) (v : Value) :
    ∃ t o', suspend g f v s = .done () t ∧ t.heap.get? g = some (.generator o') ∧
      (∀ h i, openSlot? s.heap h = some (f.base + i) →
        o'.stack[i]? = s.stack[f.base + i]? ∧
          t.heap.get? h = some (closedWith s.stack (f.base + i))) ∧
      ∀ u argc w, u.heap.get? g = some (.generator o') →
        resumeGenerator g o' argc u = .done () w →
          SameUpvalues u.heap w.heap ∧ w.openUpvalues = u.openUpvalues ∧
            ∃ frame, w.frame? = some frame ∧ frame.generator = some g ∧
              ∀ i x, o'.stack[i]? = some x → w.stack[frame.base + i]? = some x := by
  refine ⟨suspended s f g v, asleep s f v o, suspend_run s f g v, get?_suspended hs hg,
    fun h i ho => ⟨?_, ?_⟩, fun u argc w hu hr => resumed hu hr⟩
  · change (s.stack.extract f.base s.stack.size)[i]? = _
    have hlt := hs.onStack h _ ho
    rw [Array.getElem?_extract, if_pos (by omega)]
  · refine (sameUpvalues_suspended s f g v h _).2 ?_
    rw [hs.get?_closeUpvalues, if_pos (isOpenFrom_iff.2 ⟨_, ho, Nat.le_add_right _ _⟩), ho]
    rfl

/-- The frame of the body. -/
def bodyFrame : Frame := { (default : Frame) with base := 1, generator := some ⟨1⟩ }

/-- The body is suspended, and resumed from an empty stack: its variable has its value again, and
the upvalue stays closed. -/
theorem suspended_apart_resumed :
    ∃ t o w frame, suspend ⟨1⟩ bodyFrame .null capturedState = .done () t ∧
      resumeGenerator ⟨1⟩ o 0 { t with stack := #[.object ⟨1⟩] } = .done () w ∧
        w.frame? = some frame ∧ w.stack[frame.base + 1]? = some (.bool true) ∧
          w.heap.get? ⟨2⟩ = some (.upvalue (.closed (.bool true))) ∧ w.openUpvalues = [] := by
  obtain ⟨t, o, hsuspend, hget, hslots, hresume⟩ :=
    suspended_apart tracks_capturedState bodyFrame (g := ⟨1⟩) rfl .null
  obtain ⟨hslot, hclosed⟩ := hslots ⟨2⟩ 1 rfl
  have hrun := hsuspend.symm.trans (suspend_run ..)
  cases hrun
  obtain rfl := Object.generator.inj (Option.some.inj hget)
  let u : State := { suspended capturedState bodyFrame ⟨1⟩ .null with stack := #[.object ⟨1⟩] }
  obtain ⟨w, hw⟩ : ∃ w, resumeGenerator ⟨1⟩ (asleep capturedState bodyFrame .null
      ⟨⟨0⟩, ⟨0⟩, .running, 0, #[], [], .null⟩) 0 u = .done () w := ⟨_, rfl⟩
  obtain ⟨hsame, hopened, frame, hframe, -, hback⟩ := hresume u 0 w rfl hw
  exact ⟨_, _, w, frame, hsuspend, hw, hframe, hback 1 _ hslot, (hsame ⟨2⟩ _).2 hclosed, hopened⟩

end Act

end ScriptEngine
