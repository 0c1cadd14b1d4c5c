import Mathlib
import ScriptEngine.Proofs.HostChanges

/-!
# What host-side code does

The actions behind operators, fields, subscripts, display, iteration and calls of host functions run
no code by themselves, and touch neither frames nor classes nor the objects that hold code: they
change the state as host-side code may. Each is taken apart into the actions it is composed of.
-/

namespace ScriptEngine.Act

/-! ## Reading the state -/

section Reading

variable {r : State → State → Prop} {calls : Bool}

@[simp] theorem within_ownFieldOf (v : Value) (name : Key) : Within r calls (ownFieldOf v name) :=
  by
  cases v with
  | object h => exact (within_object h).bind fun o => within_pure _
  | _ => exact within_pure _

@[simp] theorem within_isModule (v : Value) : Within r calls (isModule v) := by
  unfold isModule
  repeat' first | with_reducible refine Within.bind ?_ fun _ => ?_ | split
  all_goals simp

@[simp] theorem within_bothStrings (a b : Value) : Within r calls (bothStrings a b) := within_gets _

@[simp] theorem within_ownMethod (v : Value) (name : Special) : Within r calls (ownMethod v name) :=
  by
  unfold ownMethod
  repeat' first | with_reducible refine Within.bind ?_ fun _ => ?_ | split
  all_goals simp

@[simp] theorem within_tableEntry (table : Handle) (position : Nat) :
    Within r calls (tableEntry table position) := within_gets _

@[simp] theorem within_getSlot (slot : Int) : Within r calls (getSlot slot) := within_require _ _

/-- Showing a nested value stays within what showing a value does. -/
theorem within_nested {shown : Value → Act String} (hshown : ∀ v, Within r calls (shown v))
    (v : Value) : Within r calls (nested shown v) :=
  (within_gets _).bind fun
    | some _ => within_pure _
    | none => hshown v

@[simp] theorem within_atFrameLimit : Within r calls atFrameLimit := within_gets _

@[simp] theorem within_functionOf (h : Handle) : Within r calls (functionOf h) := within_require _ _

@[simp] theorem within_declaration (index : UInt16) : Within r calls (declaration index) := by
  unfold declaration
  repeat' first | with_reducible refine Within.bind ?_ fun _ => ?_ | split
  all_goals simp

@[simp] theorem within_upvalueAt (index : UInt16) : Within r calls (upvalueAt index) := by
  unfold upvalueAt
  repeat' first | with_reducible refine Within.bind ?_ fun _ => ?_ | split
  all_goals simp

@[simp] theorem within_readUpvalue (h : Handle) : Within r calls (readUpvalue h) := by
  unfold readUpvalue
  repeat' first | with_reducible refine Within.bind ?_ fun _ => ?_ | split
  all_goals simp

@[simp] theorem within_loadedModule (name : Key) : Within r calls (loadedModule name) :=
  within_require _ _

@[simp] theorem within_numberAt (slot : Int) : Within r calls (numberAt slot) := by simp [numberAt]

@[simp] theorem within_textAt (slot : Int) : Within r calls (textAt slot) := by simp [textAt]

@[simp] theorem within_generatorDone : Within r calls generatorDone := by simp [generatorDone]

@[simp] theorem within_receiverTable : Within r calls receiverTable := by simp [receiverTable]

@[simp] theorem within_constant (index : UInt16) : Within r calls (constant index) := by
  unfold constant
  repeat' first | with_reducible refine Within.bind ?_ fun _ => ?_ | split
  all_goals simp

@[simp] theorem within_name (index : UInt16) : Within r calls (name index) := by
  unfold name
  repeat' first | with_reducible refine Within.bind ?_ fun _ => ?_ | split
  all_goals simp

@[simp] theorem within_constantHandle (index : UInt16) : Within r calls (constantHandle index) := by
  unfold constantHandle
  repeat' first | with_reducible refine Within.bind ?_ fun _ => ?_ | split
  all_goals simp

end Reading

variable {α : Type} {r : State → State → Prop} [AdmitsTracedChanges r] {calls : Bool}

/-! ## Fields -/

@[simp] theorem within_boundMethodOf (v : Value) (name : Key) :
    Within r calls (boundMethodOf v name) := by
  unfold boundMethodOf
  repeat' first | with_reducible refine Within.bind ?_ fun _ => ?_ | split
  all_goals simp

@[simp] theorem within_getField (v : Value) (name : Key) : Within r calls (getField v name) := by
  unfold getField
  repeat' first | with_reducible refine Within.bind ?_ fun _ => ?_ | split
  all_goals simp

@[simp] theorem within_noFields (v : Value) : Within r calls (noFields v : Act α) :=
  by simp [noFields]

/-- Setting a field changes no part of an object that classes and code live on. -/
theorem shell_withField (name : Key) (value : Value) (o : Object) :
    (withField name value o).shell = o.shell := by cases o <;> rfl

@[simp] theorem within_setField (v : Value) (name : Key) (value : Value) :
    Within r calls (setField v name value) := by
  cases v with
  | object h =>
    refine (within_object h).bind fun o => .ite (within_modify fun s => ?_) (within_noFields _)
    exact s.steps_update h (shell_withField name value)
  | _ => exact within_noFields _

@[simp] theorem within_superMethod (superclass : Value) (name : Key) :
    Within r calls (superMethod superclass name) := by
  unfold superMethod
  repeat' first | with_reducible refine Within.bind ?_ fun _ => ?_ | split
  all_goals simp

/-! ## Operators -/

@[simp] theorem within_noInteger : Within r calls (noInteger : Act α) := within_fail _ _

@[simp] theorem within_overload (op : Operator) (a b : Value) : Within r calls (overload op a b) :=
  by
  unfold overload
  repeat' first | with_reducible refine Within.bind ?_ fun _ => ?_ | (beta_reduce; split)
  all_goals simp

@[simp] theorem within_binary (op : Operator) : Within r calls (binary op) := by
  unfold binary
  repeat' first | with_reducible refine Within.bind ?_ fun _ => ?_ | (beta_reduce; split)
  all_goals simp

@[simp] theorem within_unary (symbol : String) (method : Special)
    (onNumber : Number → Option Number) : Within r calls (unary symbol method onNumber) := by
  unfold unary
  repeat' first | with_reducible refine Within.bind ?_ fun _ => ?_ | split
  all_goals simp

@[simp] theorem within_equal (a b : Value) : Within r true (equal a b) := by
  unfold equal
  repeat' first | with_reducible refine Within.bind ?_ fun _ => ?_ | split
  all_goals simp

@[simp] theorem within_hash (v : Value) : Within r true (hash v) := by
  unfold hash
  repeat' first | with_reducible refine Within.bind ?_ fun _ => ?_ | split
  all_goals simp

@[simp] theorem within_allEqual (as bs : List Value) : Within r true (allEqual as bs) := by
  fun_induction allEqual as bs with
  | case1 a as b bs ih => exact (within_equal a b).bind fun _ => .ite ih (within_pure false)
  | case2 => exact within_pure true
  | case3 => exact within_pure false

@[simp] theorem within_itemsEqual (a b : Array Value) : Within r true (itemsEqual a b) := by
  simp [itemsEqual]

/-! ## Tables and sequences -/

@[simp] theorem within_firstEqual (table : Handle) (key : Value) (positions : List Nat) :
    Within r true (firstEqual table key positions) := by
  induction positions with
  | nil => exact within_pure none
  | cons p rest ih =>
    exact (within_tableEntry table p).bind fun
      | none => ih
      | some e => (within_equal e.key key).bind fun _ => .ite (within_pure _) ih

@[simp] theorem within_tableFind (table : Handle) (key : Value) (hash : UInt64) :
    Within r true (tableFind table key hash) := by simp [tableFind]

@[simp] theorem within_tableGet (table : Handle) (key : Value) :
    Within r true (tableGet table key) := by
  unfold tableGet
  repeat' first | with_reducible refine Within.bind ?_ fun _ => ?_ | split
  all_goals simp

@[simp] theorem within_updateTable (table : Handle) (f : ValueTable → ValueTable) :
    Within r calls (updateTable table f) :=
  within_modify fun s => s.steps_update table fun o => by cases o <;> rfl

@[simp] theorem within_tableSet (table : Handle) (key value : Value) :
    Within r true (tableSet table key value) := by
  unfold tableSet
  repeat' first | with_reducible refine Within.bind ?_ fun _ => ?_ | split
  all_goals simp

@[simp] theorem within_tableDelete (table : Handle) (key : Value) :
    Within r true (tableDelete table key) := by
  unfold tableDelete
  repeat' first | with_reducible refine Within.bind ?_ fun _ => ?_ | split
  all_goals simp

@[simp] theorem within_setEntries (table : Handle) (start count i : Nat) :
    Within r true (setEntries table start count i) := by
  induction count generalizing i with
  | zero => exact within_pure ()
  | succ count ih =>
    exact (within_slotAt _).bind fun key => (within_slotAt _).bind fun value =>
      (within_tableSet table key value).bind fun _ => ih (i + 1)

@[simp] theorem within_newTable (count : Nat) : Within r true (newTable count) := by
  unfold newTable
  repeat' with_reducible refine Within.bind ?_ fun _ => ?_
  all_goals simp

@[simp] theorem within_unpack (count : Nat) : Within r calls (unpack count) := by
  unfold unpack
  repeat' first | with_reducible refine Within.bind ?_ fun _ => ?_ | split
  all_goals simp

@[simp] theorem within_checkIndex (index : Value) (length : Nat) (kind : String) :
    Within r calls (checkIndex index length kind) := by
  unfold checkIndex
  split <;> simp

@[simp] theorem within_subscriptOverload (v : Value) (method : Special) (argc : Nat) :
    Within r calls (subscriptOverload v method argc) := by
  unfold subscriptOverload
  repeat' first | with_reducible refine Within.bind ?_ fun _ => ?_ | split
  all_goals simp

@[simp] theorem within_getSubscript : Within r true getSubscript := by
  unfold getSubscript
  repeat' first | with_reducible refine Within.bind ?_ fun _ => ?_ | split
  all_goals simp

/-- Setting an element changes no part of an object that classes and code live on. -/
theorem shell_withItem (i : Nat) (value : Value) (o : Object) :
    (withItem i value o).shell = o.shell := by cases o <;> rfl

@[simp] theorem within_setSubscript : Within r true setSubscript := by
  have hitem : ∀ h i value, Within r true (modify fun s : State =>
      { s with heap := s.heap.update h (withItem i value) }) := fun h i value =>
    within_modify fun s => State.steps_heap (.update h _ fun o _ => shell_withItem i value o)
  unfold setSubscript
  repeat' first | with_reducible refine Within.bind ?_ fun _ => ?_ | split
  all_goals simp [hitem]

/-! ## Slots -/

@[simp] theorem within_setSlot (slot : Int) (v : Value) :
    Within r calls (setSlot slot v) := by simp [setSlot]

@[simp] theorem within_pushList : Within r calls pushList :=
  (within_alloc (o := .list #[]) rfl).bind fun _ => within_push _

@[simp] theorem within_pack (count : Nat) {make : Array Value → Object}
    (hmake : ∀ items, (make items).isMute = true) : Within r calls (pack count make) := by
  unfold pack
  repeat' with_reducible refine Within.bind ?_ fun _ => ?_
  all_goals simp [hmake]

@[simp] theorem within_pushTuple (count : Nat) : Within r calls (pushTuple count) :=
  within_pack count fun _ => rfl

@[simp] theorem within_listAppend (slot : Int) : Within r calls (listAppend slot) := by
  unfold listAppend
  repeat' first | with_reducible refine Within.bind ?_ fun _ => ?_ | split
  all_goals simp

@[simp] theorem within_checkNumber (slot : Int) (name : String) :
    Within r calls (checkNumber slot name) := by
  unfold checkNumber
  repeat' first | with_reducible refine Within.bind ?_ fun _ => ?_ | split
  all_goals simp

@[simp] theorem within_checkText (slot : Int) (name : String) :
    Within r calls (checkText slot name) := by
  unfold checkText
  repeat' first | with_reducible refine Within.bind ?_ fun _ => ?_ | split
  all_goals simp

@[simp] theorem within_pushGlobal (module name : String) :
    Within r calls (pushGlobal module name) := by
  unfold pushGlobal
  repeat' first | with_reducible refine Within.bind ?_ fun _ => ?_ | split
  all_goals simp

@[simp] theorem within_pushField (slot : Int) (name : String) :
    Within r calls (pushField slot name) := by
  unfold pushField
  repeat' with_reducible refine Within.bind ?_ fun _ => ?_
  all_goals simp

@[simp] theorem within_storeField (slot : Int) (name : String) :
    Within r calls (storeField slot name) := by
  unfold storeField
  repeat' with_reducible refine Within.bind ?_ fun _ => ?_
  all_goals simp

@[simp] theorem within_callMethodNamed (name : String) (argc : Nat) :
    Within r true (callMethodNamed name argc) := by
  unfold callMethodNamed
  repeat' first | with_reducible refine Within.bind ?_ fun _ => ?_ | split
  all_goals simp

@[simp] theorem within_raiseNamed (name message : String) :
    Within r calls (raiseNamed name message : Act α) := by
  simp [raiseNamed]

@[simp] theorem within_raiseSlot (slot : Int) :
    Within r calls (raiseSlot slot : Act α) := by simp [raiseSlot]

/-! ## Values as text -/

@[simp] theorem within_instanceText (v : Value) : Within r true (instanceText v) := by
  unfold instanceText
  repeat' first | with_reducible refine Within.bind ?_ fun _ => ?_ | split
  all_goals simp

@[simp] theorem within_displayWithin (levels : Nat) (v : Value) :
    Within r true (displayWithin levels v) := by
  induction levels generalizing v with
  | zero => cases v <;> exact within_pure _
  | succ levels ih =>
    have hnested := within_nested ih
    cases v with
    | object h =>
      refine (within_object h).bind fun o => ?_
      cases o with
      | list items => exact .bind (.mapM hnested _) fun _ => within_pure _
      | tuple items => exact .bind (.mapM hnested _) fun _ => within_pure _
      | table t =>
        have hentry : ∀ e : ValueTable.Entry, Within r true (do
            let key ← nested (displayWithin levels) e.key
            let value ← nested (displayWithin levels) e.value
            return key ++ ": " ++ value) := fun e =>
          (hnested e.key).bind fun _ => (hnested e.value).bind fun _ => within_pure _
        exact .bind (.mapM hentry _) fun _ => within_pure _
      | instanceOf owner fields => exact within_instanceText _
      | _ => exact within_gets _
    | _ => exact within_pure _

@[simp] theorem within_display (v : Value) : Within r true (display v) := within_displayWithin _ v

/-! ## Functions of the core module and of the host -/

@[simp] theorem within_pushNumber (n : Number) : Within r calls (pushNumber n) := within_push _

@[simp] theorem within_pushCount (n : Nat) : Within r calls (pushCount n) := within_push _

@[simp] theorem within_pushBool (b : Bool) : Within r calls (pushBool b) := within_push _

@[simp] theorem within_pushOfReceiver (f : State → Value → Value) :
    Within r calls (pushOfReceiver f) := by
  simp [pushOfReceiver]

@[simp] theorem within_pushElement (items : State → Value → Option (Array Value)) :
    Within r calls (pushElement items) := by
  unfold pushElement
  repeat' with_reducible refine Within.bind ?_ fun _ => ?_
  all_goals simp

@[simp] theorem within_pushLength (size : State → Value → Nat) : Within r calls (pushLength size) :=
  within_pushOfReceiver _

@[simp] theorem within_pushNextIndex (size : State → Value → Nat) :
    Within r calls (pushNextIndex size) := by
  unfold pushNextIndex
  repeat' with_reducible refine Within.bind ?_ fun _ => ?_
  all_goals simp

@[simp] theorem within_hashItems (hash : UInt64) (items : List Value) :
    Within r true (hashItems hash items) := by
  induction items generalizing hash with
  | nil => exact within_pure hash
  | cons v rest ih => exact (within_hash v).bind fun _ => ih _

@[simp] theorem within_pushItemsEqual (items : State → Value → Option (Array Value)) :
    Within r true (pushItemsEqual items) := by
  unfold pushItemsEqual
  repeat' first | with_reducible refine Within.bind ?_ fun _ => ?_ | split
  all_goals simp

/-- What a core function does is what host-side code may do. -/
theorem within_runCore (f : CoreFunction) : Within r true (runCore f) := by
  unfold runCore
  repeat' first | with_reducible refine Within.bind ?_ fun _ => ?_ | split
  all_goals first | exact within_modify fun _ => (State.TracedChange.host _ _ _).steps | simp

@[simp] theorem within_appendRange (first count : Nat) : Within r calls (appendRange first count) :=
  by
  induction count generalizing first with
  | zero => exact within_pure ()
  | succ count ih =>
    exact (within_pushCount first).bind fun _ => (within_listAppend _).bind fun _ => ih (first + 1)

/-- What a host function does is what host-side code may do. -/
theorem within_runHost (f : HostFunction) : Within r true (runHost f) := by
  unfold runHost
  repeat' first | with_reducible refine Within.bind ?_ fun _ => ?_ | split
  all_goals first | exact within_modify fun _ => (State.TracedChange.host _ _ _).steps | simp

@[simp] theorem within_runNative (f : NativeFunction) : Within r true (runNative f) := by
  cases f with
  | core f => exact within_runCore f
  | host f => exact within_runHost f

/-! ## Calls and iteration -/

@[simp] theorem within_adjustArguments (g : Signature) (argc : Nat) :
    Within r calls (adjustArguments g argc) := by
  unfold adjustArguments
  repeat' first | with_reducible refine Within.bind ?_ fun _ => ?_ | split
  all_goals simp

@[simp] theorem within_overflow : Within r calls (overflow : Act α) := within_fail _ _

@[simp] theorem within_swapApiBase (base : Nat) : Within r calls (swapApiBase base) :=
  fun s => (State.TracedChange.host base s.interrupt s.output).steps

@[simp] theorem within_callNative (n : NativeObject) (argc : Nat) :
    Within r true (callNative n argc) := by
  unfold callNative
  repeat' first | with_reducible refine Within.bind ?_ fun _ => ?_ | split
  all_goals simp

@[simp] theorem within_callClass (h : Handle) (c : ClassObject) (argc : Nat) :
    Within r calls (callClass h c argc) := by
  unfold callClass
  repeat' first | with_reducible refine Within.bind ?_ fun _ => ?_ | split
  all_goals simp

@[simp] theorem within_notCallable (v : Value) : Within r calls (notCallable v : Act α) := by
  simp [notCallable]

@[simp] theorem within_invoke (name : Key) (argc : Nat) : Within r calls (invoke name argc) := by
  unfold invoke
  repeat' first | with_reducible refine Within.bind ?_ fun _ => ?_ | split
  all_goals simp

@[simp] theorem within_spreadArguments : Within r calls spreadArguments := by
  unfold spreadArguments
  repeat' first | with_reducible refine Within.bind ?_ fun _ => ?_ | split
  all_goals simp

@[simp] theorem within_iterationMethods (v : Value) : Within r calls (iterationMethods v) := by
  unfold iterationMethods
  repeat' first | with_reducible refine Within.bind ?_ fun _ => ?_ | split
  all_goals simp

@[simp] theorem within_prepareLoop : Within r calls prepareLoop := by
  unfold prepareLoop
  repeat' with_reducible refine Within.bind ?_ fun _ => ?_
  all_goals simp

@[simp] theorem within_askState : Within r calls askState := by
  unfold askState
  repeat' with_reducible refine Within.bind ?_ fun _ => ?_
  all_goals simp

@[simp] theorem within_extendTop (items : Array Value) : Within r calls (extendTop items) := by
  refine (within_peek 0).bind fun v => ?_
  cases v with
  | object h => exact within_modify fun s => s.steps_update h fun o => by cases o <;> rfl
  | _ => exact within_pure ()

@[simp] theorem within_extendList : Within r calls extendList := by
  unfold extendList
  repeat' first | with_reducible refine Within.bind ?_ fun _ => ?_ | split
  all_goals simp

@[simp] theorem within_spreadElement (v iter next : Value) :
    Within r true (spreadElement v iter next) := by
  unfold spreadElement
  repeat' first | with_reducible refine Within.bind ?_ fun _ => ?_ | split
  all_goals simp

/-! ## Instructions -/

@[simp] theorem within_pushModuleGlobal (module : Handle) (name : Key) :
    Within r calls (pushModuleGlobal module name) := by
  unfold pushModuleGlobal
  repeat' first | with_reducible refine Within.bind ?_ fun _ => ?_ | split
  all_goals simp

@[simp] theorem within_assignGlobal (name : Key) : Within r calls (assignGlobal name) := by
  unfold assignGlobal
  repeat' first | with_reducible refine Within.bind ?_ fun _ => ?_ | split
  all_goals simp

/-- The object that is overwritten is the one that was looked at. -/
@[simp] theorem within_writeUpvalue (h : Handle) (v : Value) :
    Within r calls (writeUpvalue h v) := by
  intro s
  unfold writeUpvalue
  rw [bind_run]
  cases ho : s.heap.get? h with
  | none =>
    have hobject : object h s = .fault .danglingHandle := by simp [object, require, ho]
    rw [hobject]
    trivial
  | some o =>
    rw [show object h s = .done o s from require_run s _ ho, Proc.bind_done]
    split
    · exact within_setSlotAt _ _ s
    · refine State.steps_heap (.update h _ fun o ho' => ?_)
      rw [ho] at ho'
      cases ho'
      rfl
    · exact .refl

@[simp] theorem within_captureSlot (slot : Nat) : Within r calls (captureSlot slot) := by
  unfold captureSlot
  repeat' first | with_reducible refine Within.bind ?_ fun _ => ?_ | split
  all_goals first
    | simp
    | exact within_modify fun _ => (State.TracedChange.upvalues _).steps

@[simp] theorem within_capture (base : Nat) (c : Bytecode.Capture) :
    Within r calls (capture base c) := by
  simp [capture]

@[simp] theorem within_testInstance : Within r calls testInstance := by
  unfold testInstance
  repeat' first | with_reducible refine Within.bind ?_ fun _ => ?_ | split
  all_goals simp

@[simp] theorem within_listToTuple : Within r calls listToTuple := by
  unfold listToTuple
  repeat' with_reducible refine Within.bind ?_ fun _ => ?_
  all_goals simp

@[simp] theorem within_superclassMethod (index : UInt16) :
    Within r calls (superclassMethod index) := by
  simp [superclassMethod]

end ScriptEngine.Act

namespace ScriptEngine.Bytecode

/-- Whether an instruction moves about in code, or makes or changes objects that hold code. -/
def Op.steers : Op → Bool
  | .jump _ | .jumpIfFalse _ | .jumpIfTrue _ | .loop _ | .return | .closure _ _ | .native _
  | .subclass | .nativeMethod _ | .setupExcept _ | .setupEnsure _ | .popHandler | .endHandler
  | .forNext _ | .generator | .yield | .generatorClose | .importModule _ | .importFrom _ => .true
  | _ => .false

/-- Whether an instruction makes or changes a class. -/
def Op.declares : Op → Bool
  | .newClass _ | .subclass | .defMethod _ | .nativeMethod _ => .true
  | _ => .false

end ScriptEngine.Bytecode

namespace ScriptEngine.Act

open Bytecode

variable {r : State → State → Prop} [AdmitsTracedChanges r] {calls : Bool}

@[simp] theorem within_dropClosed (height : Nat) :
    Within r calls (modify fun s => (s.closeUpvalues height).drop) :=
  within_modify fun s => (s.steps_closeUpvalues height).trans (State.steps_drop _)

/-- Importing all names of a module is what host-side code may do. -/
theorem within_importAll (source : Handle) :
    Within r calls (modify fun s =>
      s.update s.currentModule fun
        | .module text own => .module text (own.merge (((s.module? source).map (·.2)).getD .empty))
        | o => o) :=
  within_modify fun s => s.steps_update _ fun o => by cases o <;> rfl

/-- All other instructions change the state as host-side code does. -/
theorem within_execute {op : Op} (hs : op.steers = false) (hd : op.declares = false) :
    Within r true (execute op) := by
  cases op
  all_goals first
    | (cases hs; done)
    | (cases hd; done)
    | (simp only [execute, thenNext]
       repeat' first | with_reducible refine Within.bind ?_ fun _ => ?_ | split
       all_goals first | simp [negate, invert] | exact within_importAll _)

end ScriptEngine.Act
