import ScriptEngine.Proofs.Footing

/-!
# What instructions change besides generators and classes

Instructions change more than host-side code may: they make functions and closures, load modules,
enter and move about in frames, and count nested calls. None of this makes, resumes or ends a
generator, and none of it makes or changes a class. `NeutralChange` lists these changes beside those
of host-side code, and every instruction that does nothing else is taken apart into actions that do
nothing else.
-/

namespace ScriptEngine

open Bytecode

/-- Whether an object holds code that runs from its beginning. -/
@[simp, reducible] def Object.holdsCode : Object → Bool
  | .function _ | .closure _ _ | .native _ => true
  | _ => false

/-- The generator whose body a frame runs, with the code that it runs. -/
def Frame.generatorCode (f : Frame) : Option (Handle × Handle × Handle) :=
  f.generator.map fun g => (g, f.closure, f.function)

/-- The generators whose bodies run in some frames, with the code that each of them runs. -/
def bodiesOf (frames : Array Frame) : List (Handle × Handle × Handle) :=
  frames.toList.filterMap Frame.generatorCode

/-- The generators whose bodies run in some frames. -/
def generatorsOf (frames : Array Frame) : List Handle := frames.toList.filterMap (·.generator)

namespace State

/-- The generators whose bodies run, outermost first. -/
def generators (s : State) : List Handle := generatorsOf s.frames

/-- A change that concerns neither generators nor classes. -/
inductive NeutralChange (s : State) : State → Prop
  | hostChange {t : State} (h : s.HostChange t) : NeutralChange s t
  | code (o : Object) (ho : o.holdsCode = true) :
    NeutralChange s { s with heap := (s.heap.insert o).1 }
  | modules (table : NameTable) : NeutralChange s { s with modules := table }
  | frames (frames : Array Frame) (h : generatorsOf frames = s.generators) :
    NeutralChange s { s with frames := frames }
  | reentrant (count : Nat) : NeutralChange s { s with reentrant := count }

instance : AdmitsHostChanges NeutralChange := ⟨.hostChange⟩

end State

/-- The generators that run are those of the bodies. -/
theorem generatorsOf_eq (frames : Array Frame) :
    generatorsOf frames = (bodiesOf frames).map (·.1) := by
  unfold generatorsOf bodiesOf Frame.generatorCode
  rw [List.map_filterMap]
  congr
  funext f
  cases f.generator <;> rfl

/-- The handle of a name is that of its string. -/
def Act.Names (s : State) (name : Key) : Prop :=
  ∃ text, s.heap.string? name.handle = some text ∧ text.hash = name.hash

/-- The key of a name is its handle with the hash of its string. -/
theorem Act.Names.key_eq {s : State} {name : Key} (h : Act.Names s name) :
    name = NameTable.keyWith s.heap.hashOf name.handle := by
  obtain ⟨text, htext, hhash⟩ := h
  obtain ⟨x, hash⟩ := name
  simp [NameTable.keyWith, Heap.hashOf, htext, hhash]

/-- A new module is registered under a name. -/
def State.enroll (s : State) (name : Key) (globals : NameTable) : State :=
  let (heap, module) := s.heap.insert (.module name.handle globals)
  { s with heap := heap, modules := s.modules.insert name (.object module) }

/-- A relation of states that admits, besides what host-side code may change and record, that
functions are made and that modules are registered under names that have none. -/
class AdmitsLoading (r : State → State → Prop) : Prop extends AdmitsTracedChanges r where
  code : ∀ (s : State) (o : Object), o.holdsCode = true →
    r s { s with heap := (s.heap.insert o).1 }
  modules : ∀ (s : State) (name : Key) (globals : NameTable), Act.Names s name →
    s.loadedModule? name = none → Relation.ReflTransGen r s (s.enroll name globals)

/-- A relation of states that admits the changes that concern neither generators nor classes, where
frames of generators keep their code, and modules are registered under names that have none. -/
class AdmitsNeutralChanges (r : State → State → Prop) : Prop extends AdmitsHostChanges r where
  code : ∀ (s : State) (o : Object), o.holdsCode = true →
    r s { s with heap := (s.heap.insert o).1 }
  modules : ∀ (s : State) (name : Key) (globals : NameTable), Act.Names s name →
    s.loadedModule? name = none → Relation.ReflTransGen r s (s.enroll name globals)
  frames : ∀ (s : State) (frames : Array Frame), bodiesOf frames = bodiesOf s.frames →
    r s { s with frames := frames }
  reentrant : ∀ (s : State) (count : Nat), r s { s with reentrant := count }

instance {r : State → State → Prop} [AdmitsNeutralChanges r] : AdmitsLoading r where
  code := AdmitsNeutralChanges.code
  modules := AdmitsNeutralChanges.modules

instance : AdmitsNeutralChanges State.NeutralChange where
  code _ := .code
  modules s name globals _ _ :=
    .head (.hostChange (.heap (.insert (.module name.handle globals) rfl)))
    (.single (.modules _))
  frames s frames h := .frames frames (by
    rw [generatorsOf_eq, h, ← generatorsOf_eq]
    rfl)
  reentrant _ := .reentrant

namespace State

/-- One state has become another by changes that concern neither generators nor classes. -/
abbrev NeutralChanges : State → State → Prop := Relation.ReflTransGen NeutralChange

section Frames

/-- A modification that a filter does not see. -/
theorem filterMap_modify {α β : Type} {f : α → α} {g : α → Option β} (hf : ∀ a, g (f a) = g a)
    (as : List α) (i : Nat) : (as.modify i f).filterMap g = as.filterMap g := by
  induction as generalizing i with
  | nil => simp
  | cons a as ih =>
    cases i with
    | zero => simp [List.filterMap_cons, hf]
    | succ i => simp [List.filterMap_cons, ih]

/-- A change of the innermost frame that leaves its generator alone. -/
theorem generators_modifyFrame (s : State) {f : Frame → Frame}
    (hf : ∀ x, (f x).generator = x.generator) : (s.modifyFrame f).generators = s.generators := by
  change ((s.frames.modify _ f).toList).filterMap _ = _
  rw [Array.toList_modify, filterMap_modify hf]
  rfl

/-- A frame is entered. -/
theorem generatorsOf_push (frames : Array Frame) (f : Frame) :
    generatorsOf (frames.push f) = generatorsOf frames ++ f.generator.toList := by
  unfold generatorsOf
  rw [Array.toList_push, List.filterMap_append]
  cases hg : f.generator <;> simp [hg]

/-- The body of a frame that is entered. -/
theorem bodiesOf_push (frames : Array Frame) (f : Frame) :
    bodiesOf (frames.push f) = bodiesOf frames ++ f.generatorCode.toList := by
  unfold bodiesOf
  rw [Array.toList_push, List.filterMap_append]
  cases hs : f.generatorCode <;> simp [hs]

/-- A change of the innermost frame that leaves its generator and its code alone. -/
theorem keepsBodies_modifyFrame (s : State) {f : Frame → Frame}
    (hf : ∀ x, (f x).generatorCode = x.generatorCode) :
    bodiesOf (s.modifyFrame f).frames = bodiesOf s.frames := by
  change ((s.frames.modify _ f).toList).filterMap _ = _
  rw [Array.toList_modify, filterMap_modify hf]
  rfl

@[simp] theorem neutral_modifyFrame (s : State) {f : Frame → Frame}
    (hf : ∀ x, (f x).generator = x.generator) : s.NeutralChanges (s.modifyFrame f) :=
  .single (.frames _ (s.generators_modifyFrame hf))

/-- Counting nested calls. -/
theorem neutral_reentrant (s : State) (count : Nat) :
    s.NeutralChanges { s with reentrant := count } :=
  .single (.reentrant count)

end Frames

/-! ## Strings stay interned -/

section Interned

variable {s t : State} {heap heap' : Heap}

/-- A change in place of anything but a string. -/
theorem texts_update_shell (hi : heap.Interned) {x : Handle}
    {f : Object → Object} (hf : ∀ o, heap.get? x = some o → (f o).shell = o.shell) :
    (heap.update x f).Interned ∧
      ∀ name, (heap.update x f).lookupKey name = heap.lookupKey name := by
  refine hi.same_keys (hi.toTidy.update x f) (Heap.update_strings heap x f) fun k hk => ?_
  obtain ⟨data, hs, -⟩ := hi.contents k hk
  have hget := Heap.get?_of_string? hs
  refine Heap.string?_congr ?_
  rw [Heap.get?_update]
  split
  · next heq =>
    rw [hget, Option.map_some]
    have hshell := hf _ (heq ▸ hget)
    cases hfs : f (.string (Heap.internedString data)) <;> rw [hfs] at hshell <;>
      simp_all [Object.shell]
  · rfl

/-- Strings stay interned, and texts keep their keys as long as these are there. -/
theorem texts_heapChange {roots : List Handle} (hi : heap.Interned)
    (h : Heap.HostChange roots heap heap') : heap'.Interned ∧
      ∀ name k, heap.lookupKey name = some k → heap'.isLive k.handle = true →
        heap'.lookupKey name = some k := by
  have hsame : heap'.Interned ∧ (∀ name, heap'.lookupKey name = heap.lookupKey name) →
      heap'.Interned ∧ ∀ name k, heap.lookupKey name = some k → heap'.isLive k.handle = true →
        heap'.lookupKey name = some k :=
    fun ⟨hi', hkeys⟩ => ⟨hi', fun name k hk _ => (hkeys name).trans hk⟩
  cases h with
  | insert o ho => exact hsame (hi.insert o)
  | intern data =>
    obtain ⟨hi', -, hold, hkeys⟩ := hi.intern data
    refine ⟨hi', fun name k hk _ => ?_⟩
    obtain ⟨hmem, hstring⟩ := hi.lookupKey.1 hk
    refine hi'.lookupKey.2 ⟨(hkeys k).2 (.inr hmem), ?_⟩
    rw [← hstring]
    exact Heap.string?_congr (hold _ (hi.isLive hmem))
  | update x f hf => exact hsame (texts_update_shell hi hf)
  | resize x => exact hsame (hi.resize x)
  | collect more =>
    obtain ⟨hi', hkeys⟩ := hi.collect (roots ++ more)
    exact ⟨hi', fun name k hk hlive => (hkeys name k).2 ⟨hk, hlive⟩⟩
  | disable count =>
    have ht : Heap.Tidy { heap with disabled := count } :=
      hi.toTidy.of_occupied rfl rfl fun _ => ⟨id, by simp⟩
    exact hsame (hi.same_keys ht rfl fun _ _ => rfl)

/-- Strings stay interned, and texts that are alive keep their keys. -/
theorem NeutralChange.texts (h : s.NeutralChange t) (hi : s.heap.Interned) : t.heap.Interned ∧
    ∀ name k, s.heap.lookupKey name = some k → t.heap.isLive k.handle = true →
      t.heap.lookupKey name = some k := by
  cases h with
  | hostChange h =>
    cases h with
    | heap h => exact texts_heapChange hi h
    | _ => exact ⟨hi, fun _ _ hk _ => hk⟩
  | code o ho => exact ⟨(hi.insert o).1, fun name _ hk _ => ((hi.insert o).2 name).trans hk⟩
  | _ => exact ⟨hi, fun _ _ hk _ => hk⟩

/-- Strings stay interned. -/
theorem NeutralChange.interned (h : s.NeutralChange t) (hi : s.heap.Interned) : t.heap.Interned :=
  (h.texts hi).1

/-- So they do through any number of changes. -/
theorem NeutralChanges.interned (h : s.NeutralChanges t) (hi : s.heap.Interned) :
    t.heap.Interned := by
  induction h with
  | refl => exact hi
  | tail _ hs ih => exact hs.interned ih

end Interned

end State

namespace Act

/-- A constant that is a name is the name of a string. -/
theorem name_run {i : UInt16} {name : Key} {s t : State} (h : Act.name i s = .done name t) :
    t = s ∧ Names s name := by
  unfold Act.name at h
  rw [bind_run] at h
  obtain ⟨v, u, hconstant, hv⟩ := bind_eq_done.1 h
  unfold constant at hconstant
  rw [bind_run] at hconstant
  obtain ⟨f, _, hframe, hf⟩ := bind_eq_done.1 hconstant
  obtain ⟨-, rfl⟩ := require_eq_done.1 hframe
  obtain ⟨o, _, hfunction, ho⟩ := bind_eq_done.1 hf
  obtain ⟨-, rfl⟩ := require_eq_done.1 hfunction
  cases hc : o.constants[i.toNat]? with
  | none =>
    simp only [hc] at ho
    cases ho
  | some w =>
    simp only [hc] at ho
    cases ho
    cases v with
    | object h =>
      obtain ⟨text, _, htext, hfound⟩ := bind_eq_done.1 hv
      cases htext
      cases hs : u.heap.string? h with
      | none =>
        simp only [hs] at hfound
        cases hfound
      | some text =>
        simp only [hs] at hfound
        cases hfound
        exact ⟨rfl, text, hs, rfl⟩
    | _ => cases hv

/-- An action that goes on with a name of a string. -/
theorem within_named {α : Type} {r : State → State → Prop} [AdmitsTracedChanges r] {calls : Bool}
    {i : UInt16}
    {f : Key → Act α} (hf : ∀ {name s}, Names s name → (f name s).Within r calls s) :
    Within r calls (Act.name i >>= f) := by
  intro s
  have hname : (Act.name i s).Within r false s := within_name i s
  rw [bind_run]
  cases h : Act.name i s with
  | done name t =>
    obtain ⟨rfl, hn⟩ := name_run h
    exact hf hn
  | raised t =>
    rw [h] at hname
    exact hname
  | fault e => trivial
  | call t method argc resume =>
    rw [h] at hname
    cases hname.1

section Loading

variable {α : Type} {r : State → State → Prop} [AdmitsLoading r] {calls : Bool}

@[simp] theorem neutral_alloc {o : Object} (ho : o.holdsCode = true) :
    Within r calls (alloc o) :=
  (within_reserve _ _).bind fun _ _ => .single (AdmitsLoading.code _ o ho)

/-! ## Loading code -/

set_option linter.unusedSectionVars false in
mutual

/-- A constant is made. -/
theorem neutral_constantValue (module : Handle) (c : Constant) :
    Within r calls (constantValue module c) := by
  cases c with
  | string t => simp [constantValue]
  | function p => simpa [constantValue] using Within.map (neutral_materialize module p) _
  | _ => simp [constantValue]

/-- A function is made of a prototype. -/
theorem neutral_materialize (module : Handle) (p : Proto) :
    Within r calls (materialize module p) := by
  obtain ⟨name, arity, defaults, vararg, upvalueCount, ⟨code, constants, lines⟩⟩ := p
  rw [materialize]
  exact (neutral_constantValues module constants).bind fun pool =>
    (neutral_constantValues module defaults).bind fun values => neutral_alloc rfl

/-- Constants are made. -/
theorem neutral_constantValues (module : Handle) (cs : Array Constant) :
    Within r calls (constantValues module cs) := by
  obtain ⟨cs⟩ := cs
  rw [constantValues]
  exact neutral_constantList module #[] cs

/-- Constants are made one after another. -/
theorem neutral_constantList (module : Handle) (values : Array Value) (cs : List Constant) :
    Within r calls (constantList module values cs) := by
  cases cs with
  | nil =>
    rw [constantList]
    exact within_pure values
  | cons c rest =>
    rw [constantList]
    exact (neutral_constantValue module c).bind fun v => neutral_constantList module _ rest

end

/-- Nothing is collected before a module is registered, so that the string of its name stays. -/
theorem neutral_moduleNamed {s : State} {name : Key} (hn : Names s name)
    (hq : s.heap.collectionEnabled = false) : (moduleNamed name s).Within r calls s := by
  unfold moduleNamed
  rw [bind_run, gets_run, Proc.bind_done]
  cases hm : s.loadedModule? name with
  | some h => exact .refl
  | none =>
    simp only [bind_run, gets_run, Proc.bind_done, alloc]
    rcases reserve_disabled hq _ _ with hr | hr
    · rw [hr]
      trivial
    · rw [hr]
      exact AdmitsLoading.modules s name _ hn hm

/-- A module is loaded. -/
theorem neutral_load {s : State} {name : Key} (hn : Names s name) (m : Bytecode.Module) :
    (load name m s).Within r calls s := by
  unfold load withoutCollection
  rw [bind_run, modify_run, Proc.bind_done]
  have hoff : Relation.ReflTransGen r s { s with heap := s.heap.disableCollection } :=
    State.steps_heap (.disable _)
  have hloaded : ((do
      let module ← moduleNamed name
      let function ← materialize module m.main
      alloc (.closure function #[]) : Act Handle) _).Within r calls
        { s with heap := s.heap.disableCollection } :=
    (neutral_moduleNamed (s := { s with heap := s.heap.disableCollection }) hn rfl).bind
      fun module t =>
      ((neutral_materialize module m.main).bind fun _ => neutral_alloc rfl) t
  refine .of_steps hoff (hloaded.bind fun closure t => ?_)
  exact (Within.bind (within_modify fun _ => State.steps_heap (.disable _)) fun _ =>
    within_pure closure) t

/-- A module that cannot be loaded raises an exception. -/
theorem neutral_cannotLoad (name reason : String) :
    Within r calls (cannotLoad name reason : Act α) := within_fail _ _

/-- A module is imported. -/
theorem neutral_importModule {s : State} {name : Key} (hn : Names s name) (bind : Bool) :
    (importModule name bind s).Within r calls s := by
  unfold importModule
  rw [bind_run, gets_run, Proc.bind_done]
  cases s.modules.get? name with
  | some v =>
    have hnull : Within r calls (do
        push .null
        return Control.next) := (within_push .null).bind fun _ => within_pure _
    exact Within.ite ((within_push v).bind fun _ => hnull) hnull s
  | none =>
    simp only [bind_run, gets_run, Proc.bind_done]
    cases s.importable.lookup (s.textOf name.handle) with
    | none => exact neutral_cannotLoad (r := r) _ _ s
    | some m =>
      dsimp only
      cases m.main.verify with
      | error e => exact neutral_cannotLoad (r := r) _ _ s
      | ok u =>
        refine (neutral_load hn m).bind fun closure t => ?_
        have hcall : Within r calls (do
            push (.object closure)
            return Control.call 0) := (within_push _).bind fun _ => within_pure _
        have hbound : Within r calls (do
            push (.object (← loadedModule name))
            push (.object closure)
            return Control.call 0) :=
          .bind (within_require _ _) fun _ => (within_push _).bind fun _ => hcall
        exact Within.ite hbound hcall t

/-- A host function is looked for. -/
theorem neutral_resolveNative (d : NativeProto) (owner : Option Handle) :
    Within r calls (resolveNative d owner) := by
  unfold resolveNative
  repeat' first | with_reducible refine Within.bind ?_ fun _ => ?_ | split
  all_goals first
    | exact (neutral_constantValues _ _).withoutCollection
    | exact neutral_alloc rfl
    | simp

/-- A closure is made. -/
theorem neutral_pushClosure (i : UInt16) (captures : List Capture) :
    Within r calls (pushClosure i captures) := by
  unfold pushClosure
  repeat' with_reducible refine Within.bind ?_ fun _ => ?_
  all_goals first | exact neutral_alloc rfl | simp

end Loading

/-! ## Jumps, handlers and closures that are entered -/

variable {r : State → State → Prop} [AdmitsNeutralChanges r] {calls : Bool}

/-- A change of the innermost frame that leaves its generator and its code alone. -/
theorem neutral_frame {f : State → Frame → Frame}
    (hf : ∀ s x, (f s x).generatorCode = x.generatorCode) :
    Within r calls (modify fun s => s.modifyFrame (f s)) :=
  within_modify fun s => .single (AdmitsNeutralChanges.frames s _
    (s.keepsBodies_modifyFrame (hf s)))

/-- A jump forward. -/
theorem neutral_jumpBy (distance : UInt16) : Within r calls (jumpBy distance) :=
  neutral_frame fun _ _ => rfl

/-- A jump back. -/
theorem neutral_jumpBack (distance : UInt16) : Within r calls (jumpBack distance) :=
  neutral_frame fun _ _ => rfl

/-- A handler is installed. -/
theorem neutral_installHandler (kind : HandlerKind) (distance : UInt16) :
    Within r calls (installHandler kind distance) := neutral_frame fun _ _ => rfl

/-- A handler is removed. -/
theorem neutral_removeHandler : Within r calls removeHandler :=
  neutral_frame fun _ _ => rfl

/-- An element is asked for, with a jump if there is none. -/
theorem neutral_askElement (distance : Nat) : Within r calls (askElement distance) := by
  unfold askElement
  repeat' first | with_reducible refine Within.bind ?_ fun _ => ?_ | split
  all_goals first | exact neutral_frame fun _ _ => rfl | simp

/-- The frame of a closure runs no generator. -/
theorem neutral_callClosure (closure function : Handle) (argc : Nat) :
    Within r calls (callClosure closure function argc) := by
  have hpush : ∀ f : Frame, f.generator = none → Within r calls (pushFrame f) := by
    refine fun f hf => within_modify fun s => .single (AdmitsNeutralChanges.frames s _ ?_)
    rw [State.bodiesOf_push, Frame.generatorCode, hf]
    exact List.append_nil _
  unfold callClosure
  repeat' first | with_reducible refine Within.bind ?_ fun _ => ?_ | split
  all_goals first | exact hpush _ rfl | simp

end Act

namespace Bytecode

/-- Whether an instruction leaves a frame, or makes, suspends or completes a generator. -/
def Op.turns : Op → Bool
  | .return | .endHandler | .generator | .yield | .generatorClose => .true
  | _ => .false

end Bytecode

namespace Act

variable {r : State → State → Prop} [AdmitsNeutralChanges r]

/-- All other instructions leave generators alone, and those that declare nothing leave classes
alone. -/
theorem neutral_execute {op : Op} (ht : op.turns = false) (hd : op.declares = false) :
    Within r true (execute op) := by
  cases hs : op.steers with
  | false => exact within_execute hs hd
  | true =>
    cases op with
    | jump d => exact .thenNext ((neutral_jumpBy d).bind fun _ => within_checkInterrupt)
    | jumpIfFalse d =>
      exact .thenNext (within_pop.bind fun v => .ite (within_pure ()) (neutral_jumpBy d))
    | jumpIfTrue d =>
      exact .thenNext (within_pop.bind fun v => .ite (neutral_jumpBy d) (within_pure ()))
    | loop d => exact .thenNext ((neutral_jumpBack d).bind fun _ => within_checkInterrupt)
    | closure i captures => exact .thenNext (neutral_pushClosure i captures)
    | native i =>
      exact .thenNext ((within_declaration i).bind fun d =>
        (neutral_resolveNative d none).bind fun _ => within_push _)
    | setupExcept d => exact .thenNext (neutral_installHandler .except d)
    | setupEnsure d => exact .thenNext (neutral_installHandler .ensure d)
    | popHandler => exact .thenNext neutral_removeHandler
    | forNext d => exact neutral_askElement d.toNat
    | importModule i => exact within_named fun hn => neutral_importModule hn true
    | importFrom i => exact within_named fun hn => neutral_importModule hn false
    | subclass => cases hd
    | nativeMethod i => cases hd
    | «return» => cases ht
    | endHandler => cases ht
    | generator => cases ht
    | yield => cases ht
    | generatorClose => cases ht
    | _ => cases hs

end Act

end ScriptEngine
