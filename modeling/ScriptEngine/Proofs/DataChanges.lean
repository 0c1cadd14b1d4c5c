import ScriptEngine.Proofs.Serving

/-!
# Actions that leave code alone

Most of what happens in a machine has no bearing on which code runs where: it works on the stack,
makes and changes objects that hold no code, and collects garbage. `DataChange` lists these changes
one by one, and `DataChanges` is any number of them. An action leaves code alone if it makes no other
changes, from where it begins or from where a script call that it waits for has left off, whatever
that call did. What host-side code does leaves code alone throughout.
-/

namespace ScriptEngine

/-! ## Changes of a heap -/

/-- What of an object stays when it changes in place. -/
def Object.frozen : Object → Object
  | .list _ => .list #[]
  | .table _ => .table .empty
  | .classObject c => .classObject { c with methods := .empty }
  | .instanceOf owner _ => .instanceOf owner .empty
  | .module name _ => .module name .empty
  | .upvalue _ => .upvalue (.closed .null)
  | o => o

/-- What stays when host-side code changes an object stays. -/
theorem Object.frozen_shell (o : Object) : o.shell.frozen = o.frozen := by cases o <;> rfl

/-- Whether an object holds neither code nor a place in code, and extends no class. -/
@[simp, reducible] def Object.isPlain : Object → Bool
  | .function _ | .closure _ _ | .native _ | .generator _ => false
  | .classObject c => c.superclass.isNone
  | .string _ | .list _ | .tuple _ | .table _ | .instanceOf _ _ | .boundMethod _ _ | .module _ _
  | .stackTrace _ | .upvalue _ => true

/-- A light object is plain. -/
theorem Object.isPlain_of_isLight {o : Object} (h : o.isLight = true) : o.isPlain = true := by
  cases o with
  | classObject c => cases h
  | string s => rfl
  | _ => exact h

/-- A change of a heap that leaves code alone. A collection has at least the given roots. -/
inductive Heap.DataChange (roots : List Handle) (heap : Heap) : Heap → Prop
  | insert (o : Object) (ho : o.isPlain = true) : DataChange roots heap (heap.insert o).1
  | intern (data : ByteArray) : DataChange roots heap (heap.intern data).1
  | update (h : Handle) (f : Object → Object)
    (hf : ∀ o, heap.get? h = some o → (f o).frozen = o.frozen) :
    DataChange roots heap (heap.update h f)
  | resize (h : Handle) : DataChange roots heap (heap.resize h)
  | collect (more : List Handle) : DataChange roots heap (heap.collect (roots ++ more)).1
  | disable (count : Nat) : DataChange roots heap { heap with disabled := count }

/-- Host-side code leaves code alone. -/
theorem Heap.HostChange.dataChange {roots : List Handle} {heap heap' : Heap}
    (h : Heap.HostChange roots heap heap') :
    Heap.DataChange roots heap heap' := by
  cases h with
  | insert o ho => exact .insert o (Object.isPlain_of_isLight ho)
  | intern data => exact .intern data
  | update h f hf =>
    refine .update h f fun o ho => ?_
    rw [← Object.frozen_shell, hf o ho, Object.frozen_shell]
  | resize h => exact .resize h
  | collect more => exact .collect more
  | disable count => exact .disable count

namespace State

/-- A change of a state that leaves code alone. -/
inductive DataChange (s : State) : State → Prop
  | stack (values : Array Value) : DataChange s { s with stack := values }
  | upvalues (opened : List Handle) : DataChange s { s with openUpvalues := opened }
  | modules (table : NameTable) : DataChange s { s with modules := table }
  | host (base : Nat) (interrupt : Bool) (output : Array String) :
    DataChange s { s with apiBase := base, interrupt := interrupt, output := output }
  | heap {heap : Heap} (h : Heap.DataChange s.roots s.heap heap) :
    DataChange s { s with heap := heap }

instance : AdmitsHostChanges DataChange where
  admits h := by
    cases h with
    | stack values => exact .stack values
    | upvalues opened => exact .upvalues opened
    | host base interrupt output => exact .host base interrupt output
    | heap h => exact .heap h.dataChange

/-- One state has become another by changes that leave code alone. -/
def DataChanges : State → State → Prop := Relation.ReflTransGen DataChange

section DataChanges

variable {s t u : State}

/-- Nothing has changed. -/
theorem DataChanges.refl (s : State) : s.DataChanges s := Relation.ReflTransGen.refl

/-- Changes one after the other. -/
theorem DataChanges.trans (h : s.DataChanges t) (h' : t.DataChanges u) : s.DataChanges u :=
  Relation.ReflTransGen.trans h h'

/-- One change. -/
theorem DataChange.dataChanges (h : s.DataChange t) : s.DataChanges t :=
  Relation.ReflTransGen.single h

/-- A change leaves the frames alone. -/
theorem DataChange.frames (h : s.DataChange t) : t.frames = s.frames := by
  cases h <;> rfl

/-- So do any number of changes. -/
theorem DataChanges.frames (h : s.DataChanges t) : t.frames = s.frames := by
  induction h with
  | refl => rfl
  | tail _ hs ih => exact hs.frames.trans ih

/-- The innermost frame is as it was. -/
theorem DataChanges.frame? (h : s.DataChanges t) : t.frame? = s.frame? :=
  congrArg Array.back? h.frames

/-- A value is pushed. -/
theorem data_push (s : State) (v : Value) : s.DataChanges (s.push v) := s.steps_push v

/-- A value is dropped. -/
theorem data_drop (s : State) : s.DataChanges s.drop := s.steps_drop

/-- Values are dropped. -/
theorem data_truncate (s : State) (height : Nat) : s.DataChanges (s.truncate height) :=
  s.steps_truncate height

/-- A value is moved down to a slot. -/
theorem data_settle (s : State) (slot : Nat) : s.DataChanges (s.settle slot) := s.steps_settle slot

/-- A change of the heap. -/
theorem data_heap {heap : Heap} (h : Heap.DataChange s.roots s.heap heap) :
    s.DataChanges { s with heap := heap } := (DataChange.heap h).dataChanges

/-- A change of an object in place. -/
theorem data_update (s : State) (h : Handle) {f : Object → Object}
    (hf : ∀ o, (f o).frozen = o.frozen) : s.DataChanges (s.update h f) :=
  (data_heap (.update h f fun o _ => hf o)).trans (data_heap (.resize h))

/-- A class is given a method. -/
theorem data_defineMethod (s : State) (owner : Value) (name : Key) (method : Value) :
    s.DataChanges (s.defineMethod owner name method) := by
  cases owner with
  | object h => exact s.data_update h fun o => by cases o <;> rfl
  | _ => exact .refl s

/-- Upvalues are closed. -/
theorem data_closeUpvalues (s : State) (height : Nat) : s.DataChanges (s.closeUpvalues height) :=
  s.steps_closeUpvalues height

end DataChanges

end State

/-! ## Actions -/

/-- What is left of an action leaves code alone, from a state on and after each call. The flag says
whether it may make calls. -/
def Proc.LeavesCode {α : Type} (calls : Bool) : Proc α → State → Prop
  | .done _ t, s => s.DataChanges t
  | .raised t, s => s.DataChanges t
  | .fault _, _ => True
  | .call t _ _ resume, s => calls = true ∧ s.DataChanges t ∧
      ∀ ok u, (resume ok u).LeavesCode calls u

namespace Proc

variable {α β : Type} {calls : Bool} {s t : State}

/-- To leave code alone is to stay within the changes that leave code alone. -/
theorem leavesCode_iff {p : Proc α} : p.LeavesCode calls s ↔ p.Within State.DataChange calls s := by
  induction p generalizing s with
  | done a u => exact Iff.rfl
  | raised u => exact Iff.rfl
  | fault e => exact Iff.rfl
  | call u method argc resume ih =>
    exact and_congr_right fun _ => and_congr_right fun _ => forall_congr' fun ok =>
      forall_congr' fun v => ih ok v

end Proc

namespace Act

/-- The action leaves code alone wherever it begins. The flag says whether it may make calls. -/
def LeavesCode {α : Type} (calls : Bool) (x : Act α) : Prop := ∀ s, (x s).LeavesCode calls s

variable {α β : Type} {calls : Bool}

/-- To leave code alone is to stay within the changes that do. -/
theorem leavesCode_iff {x : Act α} : LeavesCode calls x ↔ Within State.DataChange calls x :=
  forall_congr' fun _ => Proc.leavesCode_iff

/-- What stays within these changes leaves code alone. -/
theorem Within.leavesCode {x : Act α} (h : Within State.DataChange calls x) : LeavesCode calls x :=
  leavesCode_iff.2 h

/-- One action after another. -/
theorem LeavesCode.bind {x : Act α} {f : α → Act β} (hx : LeavesCode calls x)
    (hf : ∀ a, LeavesCode calls (f a)) : LeavesCode calls (x >>= f) :=
  ((leavesCode_iff.1 hx).bind fun a => leavesCode_iff.1 (hf a)).leavesCode

/-- A change of the state. -/
theorem leavesCode_modify {f : State → State} (h : ∀ s : State, s.DataChanges (f s)) :
    LeavesCode calls (modify f) := h

/-- A plain object is made. -/
theorem leavesCode_alloc {o : Object} (ho : o.isPlain = true) : LeavesCode calls (alloc o) :=
  LeavesCode.bind (within_reserve _ _).leavesCode fun _ _ => State.data_heap (.insert o ho)

end Act

end ScriptEngine
