import ScriptEngine.Bytecode.Chunk
import ScriptEngine.Compile.Diagnostic
import Std.Data.TreeMap

/-!
# Functions under construction

While a function is compiled, its scope lists the locals on its frame, innermost first, so that a
local's slot is the number of locals below it. A name is resolved to the innermost local of that
name, then to a variable of an enclosing function, which the function captures, and is a global
otherwise. Capturing records a descriptor in every function between the use and the declaration.

A function can have 65536 locals and as many captures. What nested functions look up among the
locals of the functions around them, which stay as they are in the meantime, and what is looked up
among captures goes through an index.
-/

namespace ScriptEngine.Compile

open Bytecode Source

/-- A local variable of the frame under construction. -/
structure Local where
  /-- Its name. Hidden locals have names that begin with a dot. -/
  name : String
  /-- Scope depth of the declaration; `none` while the initial value is being compiled. -/
  depth : Option Nat
  /-- Whether some closure captures it, so that it is closed when it leaves the frame. -/
  captured : Bool
  deriving DecidableEq, Repr

/-- A loop being compiled. -/
structure LoopRecord where
  /-- Where `continue` lands, if that has been emitted. -/
  continueTarget : Option Nat
  /-- Jumps of `continue` statements whose target comes later. -/
  continuePatches : List Nat
  /-- Jumps of `break` statements. -/
  breakPatches : List Nat
  /-- Locals on the frame where the loop was entered. -/
  localCount : Nat
  /-- Enclosing `try` statements where the loop was entered. -/
  tryDepth : Nat
  deriving DecidableEq, Repr

/-- Slots by name, each with whether the value of its local is still pending. -/
abbrev SlotIndex : Type := Std.TreeMap String (Nat × Bool)

/-- Enters a local into an index of the locals below it, which is given with their number. -/
def indexLocal (l : Local) : Nat × SlotIndex → Nat × SlotIndex
  | (slot, index) => (slot + 1, index.insert l.name (slot, l.depth.isNone))

/-- The innermost local of each name. -/
def slotsByName (locals : List Local) : SlotIndex := (locals.foldr indexLocal (0, ∅)).2

/-- The locals of a frame. -/
structure Locals where
  /-- The locals, innermost first. The last one is slot zero. -/
  list : List Local
  /-- How many there are. -/
  size : Nat
  /-- Their slots by name, found out when a nested function first asks. -/
  index : Thunk SlotIndex
  size_eq : size = list.length
  index_eq : index.get = slotsByName list

namespace Locals

/-- The locals of a list. -/
def ofList (list : List Local) : Locals :=
  ⟨list, list.length, Thunk.mk fun _ => slotsByName list, rfl, rfl⟩

/-- One more local. -/
def push (ls : Locals) (l : Local) : Locals :=
  ⟨l :: ls.list, ls.size + 1, Thunk.mk fun _ => slotsByName (l :: ls.list),
    congrArg (· + 1) ls.size_eq, rfl⟩

/-- There is nothing more to locals than their list. -/
theorem eq_of_list {a b : Locals} (h : a.list = b.list) : a = b := by
  obtain ⟨list, size, index, hsize, hindex⟩ := a
  obtain ⟨list', size', index', hsize', hindex'⟩ := b
  cases h
  cases hsize.trans hsize'.symm
  cases Thunk.ext (hindex.trans hindex'.symm)
  rfl

@[simp] theorem list_ofList (list : List Local) : (ofList list).list = list := rfl

@[simp] theorem ofList_list (ls : Locals) : ofList ls.list = ls := eq_of_list rfl

/-- A local is pushed in front of the others. -/
theorem push_eq (ls : Locals) (l : Local) : ls.push l = ofList (l :: ls.list) := eq_of_list rfl

end Locals

/-- A number for each capture. -/
def captureKey (c : Capture) : Nat := 2 * c.index.toNat + c.isLocal.toNat

/-- Captures have different keys. -/
theorem captureKey_inj {c d : Capture} : captureKey c = captureKey d ↔ c = d := by
  refine ⟨fun h => ?_, fun h => h ▸ rfl⟩
  obtain ⟨isLocal, index⟩ := c
  obtain ⟨isLocal', index'⟩ := d
  have hlocal := Bool.toNat_le isLocal
  have hlocal' := Bool.toNat_le isLocal'
  dsimp only [captureKey] at h
  have hindex : index = index' := UInt16.toNat_inj.1 (by omega)
  subst hindex
  cases isLocal <;> cases isLocal' <;> simp at h ⊢

/-- The captures of a function. -/
structure Captures where
  /-- The captures in the order of their indices. -/
  list : Array Capture
  /-- The index of each. -/
  index : Std.TreeMap Nat Nat
  index_eq : ∀ c : Capture, index[captureKey c]? = list.findIdx? (· == c)

namespace Captures

/-- No capture. -/
def empty : Captures := ⟨#[], ∅, fun _ => by simp⟩

/-- One more capture. -/
def push (cs : Captures) (c : Capture) : Captures :=
  -- the number comes first, so that the list is not copied
  let i := cs.list.size
  { list := cs.list.push c
    index := cs.index.insertIfNew (captureKey c) i
    index_eq := fun d => by
      simp only [Std.TreeMap.getElem?_insertIfNew, Std.TreeMap.mem_iff_isSome_getElem?, cs.index_eq,
        Array.findIdx?_push, Std.compare_eq_iff_eq, captureKey_inj]
      by_cases h : c = d
      · subst h
        cases cs.list.findIdx? (· == c) <;> simp [i]
      · simp [h] }

end Captures

/-- A function under construction. -/
structure FunctionState where
  /-- Code so far. -/
  chunk : Chunk
  /-- Locals on the frame. -/
  scope : Locals
  /-- Scope depth; zero is the top level of a script. -/
  depth : Nat
  /-- Captured variables. -/
  captures : Captures
  /-- Enclosing loops, innermost first. -/
  loops : List LoopRecord
  /-- Whether the instructions from one line have been too many to count. -/
  overflowed : Bool

namespace FunctionState

/-- The locals, innermost first. -/
def locals (f : FunctionState) : List Local := f.scope.list

/-- The captured variables in the order of their indices. -/
def upvalues (f : FunctionState) : Array Capture := f.captures.list

@[simp] theorem locals_mk (chunk : Chunk) (locals : List Local) (depth : Nat) (captures : Captures)
    (loops : List LoopRecord) (overflowed : Bool) :
    (mk chunk (.ofList locals) depth captures loops overflowed).locals = locals := rfl

@[simp] theorem upvalues_push (f : FunctionState) (c : Capture) :
    ({ f with captures := f.captures.push c } : FunctionState).upvalues = f.upvalues.push c := rfl

@[simp] theorem ofList_locals (f : FunctionState) : Locals.ofList f.locals = f.scope :=
  f.scope.ofList_list

end FunctionState

/-- The innermost local of a name, with its slot. -/
def findLocal (name : String) : List Local → Option (Nat × Local)
  | [] => none
  | l :: outer => if l.name == name then some (outer.length, l) else findLocal name outer

/-- The index of locals finds the same slots as the search. -/
theorem getElem?_slotsByName (name : String) (locals : List Local) :
    (slotsByName locals)[name]? =
      (findLocal name locals).map fun (slot, l) => (slot, l.depth.isNone) := by
  have hcount (ls : List Local) : (ls.foldr indexLocal (0, ∅)).1 = ls.length := by
    induction ls with
    | nil => rfl
    | cons l ls ih => exact congrArg (· + 1) ih
  induction locals with
  | nil => simp [slotsByName, findLocal]
  | cons l outer ih =>
    rw [slotsByName] at ih
    rw [slotsByName, List.foldr_cons, indexLocal, findLocal, Std.TreeMap.getElem?_insert, hcount]
    simp only [Std.compare_eq_iff_eq, beq_iff_eq]
    split
    · rfl
    · exact ih

/-- Marks the locals that a nested function captures. -/
def captureSlots (captures : Array Capture) (locals : List Local) : List Local :=
  let count := locals.length
  let marks := captures.foldl
    (fun marks c => if c.isLocal then marks.setIfInBounds c.index.toNat true else marks)
    (Array.replicate count false)
  locals.mapIdx fun i l => { l with captured := l.captured || marks.getD (count - 1 - i) false }

/-- Whether declaring `name` at a depth would repeat a declaration of the same scope. A local whose
initial value is pending belongs to the current scope. -/
def isRedeclared (name : String) (depth : Nat) : List Local → Bool
  | [] => false
  | l :: outer =>
    if l.depth.any (· < depth) then false
    else if l.name == name then true
    else isRedeclared name depth outer

namespace FunctionState

/-- A function without code. Slot zero holds the receiver of a method under the name `this`. -/
def start (slotZero : String) : FunctionState :=
  { chunk := .empty, scope := .ofList [⟨slotZero, some 0, false⟩], depth := 0, captures := .empty
    loops := [], overflowed := false }

/-- Appends an instruction. -/
def emit : FunctionState → Op → Nat → FunctionState
  | ⟨chunk, scope, depth, captures, loops, overflowed⟩, op, line =>
    let full := chunk.linesFull line
    ⟨chunk.emit op line, scope, depth, captures, loops, full || overflowed⟩

/-- The most locals of a frame, since a slot has sixteen bits. -/
def maxLocals : Nat := 65536

/-- The most captured variables. -/
def maxUpvalues : Nat := 65536

/-- The slot of a local; a variable cannot be read by its own initial value. -/
def resolveLocal (f : FunctionState) (name : String) (pos : Position) :
    Except Diagnostic (Option UInt16) :=
  match findLocal name f.locals with
  | none => .ok none
  | some (slot, l) =>
    if l.depth.isNone then .error ⟨.ownInitializer name, pos⟩ else .ok (some (UInt16.ofNat slot))

/-- The slot of a local of a function around the one under construction. -/
def resolveOuter (f : FunctionState) (name : String) (pos : Position) :
    Except Diagnostic (Option UInt16) :=
  match f.scope.index.get[name]? with
  | none => .ok none
  | some (slot, isPending) =>
    if isPending then .error ⟨.ownInitializer name, pos⟩ else .ok (some (UInt16.ofNat slot))

/-- Looking a name up through the index is resolving it. -/
theorem resolveOuter_eq (f : FunctionState) (name : String) (pos : Position) :
    f.resolveOuter name pos = f.resolveLocal name pos := by
  rw [resolveOuter, resolveLocal, f.scope.index_eq, getElem?_slotsByName, locals]
  cases findLocal name f.scope.list <;> rfl

/-- The index of a captured variable, which is added if it is not captured yet. -/
def addUpvalue (f : FunctionState) (c : Capture) (pos : Position) :
    Except Diagnostic (UInt16 × FunctionState) :=
  match f.captures.index[captureKey c]? with
  | some i => .ok (UInt16.ofNat i, f)
  | none =>
    if f.upvalues.size < maxUpvalues then
      .ok (UInt16.ofNat f.upvalues.size, { f with captures := f.captures.push c })
    else .error ⟨.tooManyUpvalues, pos⟩

/-- The index of captures finds the same indices as the search. -/
theorem addUpvalue_eq (f : FunctionState) (c : Capture) (pos : Position) :
    f.addUpvalue c pos =
      match f.upvalues.findIdx? (· == c) with
      | some i => .ok (UInt16.ofNat i, f)
      | none =>
        if f.upvalues.size < maxUpvalues then
          .ok (UInt16.ofNat f.upvalues.size, { f with captures := f.captures.push c })
        else .error ⟨.tooManyUpvalues, pos⟩ := by
  rw [addUpvalue, f.captures.index_eq, upvalues]

/-- Marks the locals that a nested function captures. -/
def capture (f : FunctionState) (captures : Array Capture) : FunctionState :=
  { f with scope := .ofList (captureSlots captures f.locals) }

/-- Declares a local whose initial value is pending. -/
def declare (f : FunctionState) (name : String) (pos : Position) :
    Except Diagnostic FunctionState :=
  if isRedeclared name f.depth f.locals then .error ⟨.alreadyDeclared name, pos⟩
  else if f.scope.size < maxLocals then .ok { f with scope := f.scope.push ⟨name, none, false⟩ }
  else .error ⟨.tooManyLocals, pos⟩

/-- Declaring a name comes to two checks and one more local. -/
theorem declare_eq (f : FunctionState) (name : String) (pos : Position) :
    f.declare name pos =
      if isRedeclared name f.depth f.locals then .error ⟨.alreadyDeclared name, pos⟩
      else if f.locals.length < maxLocals then
        .ok { f with scope := .ofList (⟨name, none, false⟩ :: f.locals) }
      else .error ⟨.tooManyLocals, pos⟩ := by
  rw [declare, Locals.push_eq, f.scope.size_eq, locals]

/-- Makes the last `count` locals usable. -/
def markInitialized (f : FunctionState) (count : Nat) : FunctionState :=
  { f with
    scope := .ofList ((f.locals.take count).map (fun l => { l with depth := some f.depth }) ++
      f.locals.drop count) }

/-- Declares a local whose value is already on the stack. -/
def define (f : FunctionState) (name : String) (pos : Position) :
    Except Diagnostic FunctionState :=
  (f.declare name pos).map (·.markInitialized 1)

/-- The instruction that drops a local. -/
def dropOp (l : Local) : Op := if l.captured then .closeUpvalue else .pop

/-- Drops the locals deeper than the current depth from scope and frame. -/
def dropScope (line : Nat) (f : FunctionState) : List Local → FunctionState
  | [] => { f with scope := .ofList [] }
  | l :: outer =>
    if l.depth.any (f.depth < ·) then dropScope line (f.emit (dropOp l) line) outer
    else { f with scope := .ofList (l :: outer) }

/-- Emits the dropping of all locals from slot `count` up without forgetting them. -/
def discardLocals (f : FunctionState) (count line : Nat) : FunctionState :=
  (f.locals.take (f.locals.length - count)).foldl (fun f l => f.emit (dropOp l) line) f

end FunctionState

/-- Resolves a name as a variable of an enclosing function, innermost first, and captures it in
every function on the way. Gives the index in the first function. -/
def resolveUpvalue (name : String) (pos : Position) (f : FunctionState) :
    List FunctionState → Except Diagnostic (Option UInt16 × FunctionState × List FunctionState)
  | [] => .ok (none, f, [])
  | outer :: rest => do
    match ← outer.resolveOuter name pos with
    | some slot =>
      let (i, f) ← f.addUpvalue ⟨true, slot⟩ pos
      return (some i, f, outer :: rest)
    | none =>
      let (found, outer, rest) ← resolveUpvalue name pos outer rest
      match found with
      | some i =>
        let (j, f) ← f.addUpvalue ⟨false, i⟩ pos
        return (some j, f, outer :: rest)
      | none => return (none, f, outer :: rest)

end ScriptEngine.Compile
