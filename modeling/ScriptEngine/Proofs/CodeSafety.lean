import ScriptEngine.Proofs.CodeLoading

/-!
# Instructions and calls keep code together

The instructions that do not leave code alone, one by one, and the ways into a callee. Every jump
lands where the structural checks allow it to, a closure is made with as many captures as its
prototype counts, and a generator is suspended and resumed within its own code.
-/

namespace ScriptEngine

open Bytecode

namespace Act

variable {α β : Type} {top : Proto → Prop} {depth : Nat} {calls : Bool} {s : State} {x : Frame}

/-! ## Reading and making objects -/

/-- Where a requirement is met, the state is as before. -/
theorem safe_require (f : State → Option α) (e : Fault) :
    (require f e s).Safe top depth calls fun a t => s = t ∧ f s = some a := by
  unfold require
  split
  · next a ha => exact ⟨rfl, ha⟩
  · trivial

/-- Making room refuses, does nothing or collects. -/
theorem reserve_cases (bytes : Nat) (pending : List Handle) (s : State) :
    reserve bytes pending s = .fault .heapLimit ∨ reserve bytes pending s = .done () s ∨
      reserve bytes pending s =
        .done () { s with heap := (s.heap.collect (s.roots ++ pending)).1 } := by
  unfold reserve State.collect
  grind

/-- The machine can go on, and what was reached from its roots before is there. -/
structure Retains (top : Proto → Prop) (depth : Nat) (s t : State) : Prop extends
    State.Ready top depth t where
  kept : ∀ y o, Heap.Reaches s.heap.cells s.roots y → s.heap.get? y = some o →
    t.heap.get? y = some o

/-- An object is made whose references fit. -/
theorem safe_alloc (h : s.Ready top depth) {o : Object} (ho : o.CodeChecked top s.heap) :
    (alloc o s).Safe top depth calls fun _ t => Retains top depth s t ∧ t.frames = s.frames := by
  have hinsert : ∀ heap : Heap, { s with heap := heap : State }.Sound top →
      o.CodeChecked top heap →
      (∀ y, Heap.Reaches s.heap.cells s.roots y → heap.get? y = s.heap.get? y) →
      Retains top depth s { s with heap := (heap.insert o).1 } := by
    intro heap hsound ho hkept
    refine ⟨⟨⟨hsound.insert ho, h.lands⟩, h.depth_le⟩, fun y o' hy ho' => ?_⟩
    rw [← hkept y hy] at ho'
    exact (Heap.get?_insert_of_live hsound.tidy o (Heap.isLive_of_get? ho')).trans ho'
  unfold alloc
  rw [bind_run]
  rcases reserve_cases o.estimatedBytes o.references s with hr | hr | hr
  · rw [hr]
    trivial
  · rw [hr]
    exact ⟨hinsert s.heap h.toSound ho fun _ _ => rfl, rfl⟩
  · rw [hr]
    refine ⟨hinsert _ h.toSound.collect (ho.carry fun y hy => .of_eq ?_) fun y hy => ?_, rfl⟩
    · exact Heap.get?_collect_of_reaches (.root (List.mem_append_right _ hy))
    · exact Heap.get?_collect_of_reaches (hy.mono (List.subset_append_left _ _))

/-- Actions that leave code alone, one for each element of a list. -/
theorem safe_mapM {f : α → Act β} (hf : ∀ a, LeavesCode false (f a)) (h : s.Ready top depth)
    (as : List α) : ((as.mapM f) s).Safe top depth false fun bs t =>
      bs.length = as.length ∧ t.Ready top depth ∧ s.DataChanges t := by
  induction as generalizing s with
  | nil => exact ⟨rfl, h, .refl s⟩
  | cons a as ih =>
    rw [List.mapM_cons, bind_run]
    refine ((hf a s).safe h).bind fun b t ⟨ht, hst⟩ => ?_
    rw [bind_run]
    refine Proc.Safe.bind (ih ht) fun bs u ⟨hlength, hu, htu⟩ => ?_
    exact ⟨by simp [hlength], hu, hst.trans htu⟩

/-! ## Jumps, handlers and returns -/

/-- The innermost frame executes an instruction: it has moved past it. -/
structure Executes (s : State) (x : Frame) (op : Op) : Prop where
  frame : s.frame? = some x
  fetched : ∃ offset, x.ip = offset + 1 ∧ x.proto.chunk.code[offset]? = some op

section Instructions

variable {op : Op}

/-- A forward jump from an instruction of the code lands in it. -/
theorem Executes.lands_forward (hx : Executes s x op) (h : s.OuterLand top) {distance : UInt16}
    (hd : op.forwardDistance? = some distance) : x.proto.Lands (x.ip + distance.toNat) := by
  obtain ⟨offset, hip, hop⟩ := hx.fetched
  refine (h.fits (State.mem_frames_of_frame? hx.frame)).lands_forward hop ?_
  rw [Op.forwardTarget?, hd, hip]
  rfl

/-- The frame jumps. -/
theorem safe_jump (hx : s.frame? = some x) (h : s.Ready top depth) (move : Nat → Nat)
    (hl : x.proto.Lands (move x.ip)) :
    (s.modifyFrame fun f => { f with ip := move f.ip }).Ready top depth := by
  have hruns := h.frames x (State.mem_frames_of_frame? hx)
  refine ⟨h.outerLand.landed hx ⟨hruns.backs, hruns.handlers, hruns.generator⟩ hl, ?_⟩
  rw [State.size_modifyFrame]
  exact h.depth_le

/-- An action after which the machine goes on with the next instruction. -/
theorem safe_thenNext {y : Act Unit} {post : State → Prop}
    (hy : (y s).Safe top depth false fun _ t => post t) :
    (thenNext y s).Safe top depth calls fun _ t => post t := by
  refine Proc.Safe.bind hy fun _ t ht => ?_
  exact ht

/-- A return with a value goes on at an `ensure` part or leaves the frame. -/
theorem safe_returnValue (h : s.OuterLand top) (hd : depth < s.frames.size) (v : Value) :
    (returnValue v s).Safe top depth calls fun _ t => t.Ready top depth := by
  unfold returnValue
  refine Proc.Safe.bind (safe_require _ _) ?_
  rintro f _ ⟨rfl, -⟩
  obtain ⟨hsize, houter, hland⟩ := h.unwindReturn v
  rw [bind_run, modifyGet]
  generalize s.unwindReturn v = r at hsize houter hland
  obtain ⟨t, found⟩ := r
  simp only at hsize houter hland
  cases found with
  | true => exact ⟨hland rfl, by omega⟩
  | false =>
    have hleft := houter.leaveFrame f
    refine ⟨hleft.dataChanges ((State.data_truncate _ _).trans (State.data_push _ _)), ?_⟩
    change depth ≤ (t.leaveFrame f).frames.size
    rw [State.size_leaveFrame]
    omega

/-- The return instruction. -/
theorem safe_return (h : s.OuterLand top) (hd : depth < s.frames.size) :
    (execute .return s).Safe top depth calls fun _ t => t.Ready top depth := by
  refine Proc.Safe.bind ((within_checkInterrupt.leavesCode s).safe_of_outerLand h hd)
    fun _ t ⟨ht, hdt, _⟩ => ?_
  refine Proc.Safe.bind ((within_pop.leavesCode t).safe_of_outerLand ht hdt)
    fun v u ⟨hu, hdu, _⟩ => ?_
  exact safe_returnValue hu hdu v

/-- A handler is installed, and lands in the code. -/
theorem safe_installHandler (hx : Executes s x op) (h : s.Ready top depth) {distance : UInt16}
    (hd : op.forwardDistance? = some distance) (kind : HandlerKind) :
    (installHandler kind distance s).Safe top depth calls fun _ t => t.Ready top depth := by
  have hmem := State.mem_frames_of_frame? hx.frame
  have hruns := h.frames x hmem
  refine ⟨h.outerLand.landed hx.frame ⟨hruns.backs, ?_, hruns.generator⟩ (h.lands x hmem), ?_⟩
  · intro k hk
    rcases List.mem_cons.1 hk with rfl | hk
    · exact hx.lands_forward h.outerLand hd
    · exact hruns.handlers k hk
  · rw [State.size_modifyFrame]
    exact h.depth_le

/-- A handler is removed. -/
theorem safe_removeHandler (hx : s.frame? = some x) (h : s.Ready top depth) :
    (removeHandler s).Safe top depth calls fun _ t => t.Ready top depth := by
  have hmem := State.mem_frames_of_frame? hx
  have hruns := h.frames x hmem
  refine ⟨h.outerLand.landed hx ⟨hruns.backs, ?_, hruns.generator⟩ (h.lands x hmem), ?_⟩
  · exact fun k hk => hruns.handlers k (List.mem_of_mem_tail hk)
  · rw [State.size_modifyFrame]
    exact h.depth_le

/-- The end of a handler. -/
theorem safe_endHandler (h : s.Ready top depth) (hd : depth < s.frames.size) :
    (endHandler s).Safe top depth calls fun _ t => t.Ready top depth := by
  unfold endHandler
  refine Proc.Safe.bind (safe_require _ _) ?_
  rintro v _ ⟨rfl, -⟩
  split
  · exact h
  · refine Proc.Safe.bind ((within_pop.leavesCode s).safe h) fun cause t ⟨ht, hst⟩ => ?_
    have hdt : depth < t.frames.size := by rwa [hst.frames]
    split
    · refine Proc.Safe.bind ((within_pop.leavesCode t).safe ht) fun v u ⟨hu, htu⟩ => ?_
      exact safe_returnValue hu.outerLand (by rwa [htu.frames]) v
    · exact ht.raises

/-- The jump out of a loop comes after actions that leave code alone. -/
theorem safe_askElement (hx : Executes s x op) (h : s.Ready top depth) {distance : UInt16}
    (hd : op.forwardDistance? = some distance) :
    (askElement distance.toNat s).Safe top depth calls fun _ t => t.Ready top depth := by
  unfold askElement
  refine Proc.Safe.bind ((within_pop.leavesCode s).safe h) fun state t ⟨ht, hst⟩ => ?_
  refine Proc.Safe.bind (((within_start 3).leavesCode t).safe ht) fun slot u ⟨hu, htu⟩ => ?_
  refine Proc.Safe.bind (((within_setSlotAt slot state).leavesCode u).safe hu)
    fun _ w ⟨hw, huw⟩ => ?_
  have hdata := hst.trans (htu.trans huw)
  split
  · refine Proc.Safe.bind (((within_peek 3).leavesCode w).safe hw) fun v u ⟨hu, _⟩ => ?_
    refine Proc.Safe.bind (((within_peek 0).leavesCode u).safe hu) fun next w ⟨hw, _⟩ => ?_
    exact ⟨hw.toAllLand.dataChanges ((State.data_push _ _).trans (State.data_push _ _)),
      hw.depth_le⟩
  · exact safe_jump (hdata.frame?.trans hx.frame) hw (· + distance.toNat)
      (hx.lands_forward h.outerLand hd)

/-! ## Generators -/

/-- Handlers land wherever the base is. -/
theorem lands_lowerHandlers {p : Proto} {base : Nat} {handlers : List Handler}
    (h : ∀ k ∈ handlers, p.Lands k.address) :
    ∀ k ∈ lowerHandlers base handlers, p.Lands k.address := by
  intro k hk
  obtain ⟨k', hk', rfl⟩ := List.mem_map.1 hk
  exact h k' hk'

/-- A generator begins where its frame is. -/
theorem safe_makeGenerator (hx : s.frame? = some x) (h : s.Ready top depth)
    (hd : depth < s.frames.size) :
    (makeGenerator s).Safe top depth calls fun _ t => t.Ready top depth := by
  have hmem := State.mem_frames_of_frame? hx
  have hruns := h.frames x hmem
  unfold makeGenerator
  rw [bind_run, frame, require_run _ _ hx, Proc.bind_done, bind_run, gets_run, Proc.bind_done,
    bind_run]
  refine Proc.Safe.bind (safe_alloc h ?_) fun g t ⟨ht, hframes⟩ => ?_
  · exact ⟨x.proto, hruns.backs, h.lands x hmem, lands_lowerHandlers hruns.handlers⟩
  · have hframe : t.frame? = some x := (congrArg Array.back? hframes).trans hx
    rw [bind_run, modify_run, Proc.bind_done]
    refine safe_returnValue (ht.outerLand.setHandlers hframe [] nofun) ?_ _
    rwa [State.size_modifyFrame, hframes]

/-- Closing upvalues has nothing to do with frames. -/
theorem dropFrame_closeUpvalues (s : State) (height : Nat) :
    s.dropFrame.closeUpvalues height = (s.closeUpvalues height).dropFrame := by
  obtain ⟨stack, frames, heap, opened⟩ := s
  cases opened <;> rfl

/-- A generator is suspended where its frame is. The frame is gone by then, but nothing has been
collected since it ran. -/
theorem safe_suspend (hx : s.frame? = some x) (h : s.Ready top depth) (hd : depth < s.frames.size)
    {g : Handle} (hg : x.generator = some g) (v : Value) :
    (suspend g x v s).Safe top depth calls fun _ t => t.Ready top depth := by
  have hclosed := s.data_closeUpvalues x.base
  have hland := h.toAllLand.dataChanges hclosed
  have hmem : x ∈ (s.closeUpvalues x.base).frames :=
    State.mem_frames_of_frame? (hclosed.frame?.trans hx)
  have hruns := hland.frames x hmem
  have hcut := hland.outerLand.dropFrame.dataChanges (State.data_truncate _ x.base)
  obtain ⟨o, ho, hfun⟩ := hruns.generator g hg
  unfold suspend
  simp only [bind_run, modify_run, Proc.bind_done, gets_run, truncate, push_run,
    dropFrame_closeUpvalues]
  refine ⟨State.AllLand.dataChanges ⟨hcut.toSound.moveGenerator ?_, hcut.lands⟩
    (State.data_push _ v), ?_⟩
  · intro g' p hg' hp _
    have heq : g' = o := by
      have := ho.symm.trans hg'
      cases this
      rfl
    subst heq
    rw [hfun] at hp
    have hproto := hruns.backs.function.unique hp
    subst hproto
    exact ⟨rfl, rfl, hland.lands x hmem, lands_lowerHandlers hruns.handlers⟩
  · change depth ≤ (s.closeUpvalues x.base).frames.pop.size
    rw [Array.size_pop, hclosed.frames]
    omega

/-- A `yield` suspends the generator at a place in its code. -/
theorem safe_yieldValue (hx : s.frame? = some x) (h : s.Ready top depth)
    (hd : depth < s.frames.size) :
    (yieldValue s).Safe top depth calls fun _ t => t.Ready top depth := by
  unfold yieldValue
  refine Proc.Safe.bind ((within_pop.leavesCode s).safe h) fun v t ⟨ht, hst⟩ => ?_
  have hframe := hst.frame?.trans hx
  rw [bind_run, frame, require_run _ _ hframe, Proc.bind_done]
  cases hg : x.generator with
  | none => trivial
  | some g =>
    exact Proc.Safe.bind (safe_suspend hframe ht (by rwa [hst.frames]) hg v) fun _ _ hu => hu

/-! ## Closures -/

/-- The function that a closure instruction refers to. -/
theorem constantHandle_run (hx : s.frame? = some x) (h : s.Sound top) {i : UInt16} {q : Proto}
    (hq : x.proto.chunk.constants[i.toNat]? = some (.function q)) :
    ∃ o y, s.heap.get? x.function = some (.function o) ∧ o.proto = x.proto ∧
      o.constants[i.toNat]? = some (.object y) ∧ constantHandle i s = .done y s := by
  have hruns := h.frames x (State.mem_frames_of_frame? hx)
  obtain ⟨o, ho, hproto⟩ := hruns.backs.function
  obtain ⟨y, hy, -⟩ := (h.objects _ _ ho).2 i.toNat q (by rwa [hproto])
  refine ⟨o, y, ho, hproto, hy, ?_⟩
  have hfunction : functionOf x.function s = .done o s := by
    refine require_run (f := fun s => s.function? x.function) s _ ?_
    unfold State.function?
    rw [ho]
  unfold constantHandle constant frame
  simp only [bind_run, require_run _ _ hx, Proc.bind_done, hfunction, hy, pure_run]

/-- The constant of a closure instruction is a function that checks, with as many captures. -/
theorem Executes.closure_constant {i : UInt16} {captures : List Capture}
    (hx : Executes s x (.closure i captures)) (h : s.Sound top) :
    ∃ q, x.proto.chunk.constants[i.toNat]? = some (.function q) ∧ q.verify = .ok () ∧
      q.upvalueCount.toNat = captures.length := by
  have hmem := State.mem_frames_of_frame? hx.frame
  obtain ⟨offset, -, hop⟩ := hx.fetched
  obtain ⟨c, hc, hadmits⟩ :=
    ((h.fits hmem).code offset _ hop).operands (i, .function) (List.mem_cons_self ..)
  cases c with
  | function q =>
    refine ⟨q, hc, ?_, (h.fits hmem).counts offset i captures q hop hc⟩
    exact (verify_eq_ok.1 (h.verified hmem)).2 q (Array.mem_of_getElem? hc)
  | _ => cases hadmits

/-- A closure has as many captures as its function counts. -/
theorem safe_pushClosure {i : UInt16} {captures : List Capture}
    (hx : Executes s x (.closure i captures)) (h : s.Ready top depth) :
    (pushClosure i captures s).Safe top depth calls fun _ t => t.Ready top depth := by
  obtain ⟨q, hq, hverify, hcount⟩ := hx.closure_constant h.toSound
  obtain ⟨o, y, ho, hproto, hy, hrun⟩ := constantHandle_run hx.frame h.toSound hq
  have hmem := State.mem_frames_of_frame? hx.frame
  unfold pushClosure
  rw [bind_run, hrun, Proc.bind_done, bind_run, frame, require_run _ _ hx.frame, Proc.bind_done,
    bind_run]
  refine Proc.Safe.bind (safe_mapM (fun c => (within_capture x.base c).leavesCode) h captures) ?_
  rintro captured t ⟨hlength, ht, hst⟩
  -- The function has stayed, and with it the constant.
  have hcarry := h.toSound.data_carries hst hmem
    (List.mem_cons_of_mem _ (List.mem_cons_self ..) : x.function ∈ x.handles)
  obtain ⟨y', hy', hfun⟩ := (ht.objects _ _ (hcarry.code _ rfl ho)).2 i.toNat q (by rwa [hproto])
  rw [hy] at hy'
  cases hy'
  rw [bind_run]
  refine Proc.Safe.bind (safe_alloc ht ⟨q, hfun, hverify, .inl ?_⟩) fun c u ⟨hu, _⟩ => ?_
  · rw [List.size_toArray, hlength, hcount]
  · exact ⟨hu.toAllLand.dataChanges (State.data_push _ _), hu.depth_le⟩

end Instructions

/-! ## Host functions, classes and modules -/

/-- An action that makes no calls and keeps code together wherever it begins. -/
def KeepsReady (top : Proto → Prop) (depth : Nat) (y : Act α) : Prop :=
  ∀ s, s.Ready top depth → (y s).Safe top depth false fun _ t => t.Ready top depth

/-- One action after another. -/
theorem KeepsReady.bind {y : Act α} {f : α → Act β} (hy : KeepsReady top depth y)
    (hf : ∀ a, KeepsReady top depth (f a)) : KeepsReady top depth (y >>= f) :=
  fun s hs => Proc.Safe.bind (hy s hs) fun a t ht => hf a t ht

/-- Actions that leave code alone. -/
theorem LeavesCode.keepsReady {y : Act α} (hy : LeavesCode false y) : KeepsReady top depth y :=
  fun s hs => ((hy s).safe hs).imp fun _ _ ht => ht.1

/-- Making an object that refers to no code. -/
theorem keepsReady_alloc {o : Object} (ho : ∀ heap, o.CodeChecked top heap) :
    KeepsReady top depth (alloc o) :=
  fun s hs => (safe_alloc hs (ho s.heap)).imp fun _ _ ht => ht.1.toReady

/-- Looking for a host function. -/
theorem keepsReady_resolveNative (d : NativeProto) (owner : Option Handle) :
    KeepsReady top depth (resolveNative d owner) := by
  refine KeepsReady.bind (within_gets _).leavesCode.keepsReady fun module => ?_
  refine KeepsReady.bind (within_gets _).leavesCode.keepsReady fun name => ?_
  refine KeepsReady.bind (within_gets _).leavesCode.keepsReady fun found => ?_
  cases found with
  | none => exact (within_fail _ _).leavesCode.keepsReady
  | some f =>
    refine KeepsReady.bind (fun s hs => ?_) fun defaults => keepsReady_alloc fun _ => trivial
    exact (safe_withoutCollection (makes_constantValues module d.defaults) hs).imp fun _ _ ht => ht.1

/-- Giving a class a method of the host. -/
theorem keepsReady_addNativeMethod (i : UInt16) : KeepsReady top depth (addNativeMethod i) := by
  refine KeepsReady.bind (within_peek 0).leavesCode.keepsReady fun owner => ?_
  refine KeepsReady.bind (within_declaration i).leavesCode.keepsReady fun d => ?_
  refine KeepsReady.bind (keepsReady_resolveNative d _) fun y => ?_
  refine KeepsReady.bind (within_gets _).leavesCode.keepsReady fun text => ?_
  refine KeepsReady.bind (within_internKey text).leavesCode.keepsReady fun key =>
    LeavesCode.keepsReady ?_
  exact leavesCode_modify fun s => s.data_defineMethod owner key _

/-- A class that gets a superclass is no code before or after. -/
theorem keepsReady_inherit (c parent : Handle) (methods : NameTable) :
    KeepsReady top depth (modify (·.update c (inherit parent methods))) := by
  intro s hs
  refine ⟨⟨hs.toSound.resized ⟨?_, fun g _ => ⟨g, rfl, rfl⟩⟩ ?_, hs.lands⟩, hs.depth_le⟩
  · intro o _ hcode
    cases o with
    | classObject c => cases hcode
    | _ => rfl
  · intro o ho
    cases o with
    | classObject c => trivial
    | _ => exact hs.objects c _ ho

/-- Letting a class inherit. -/
theorem keepsReady_subclass : KeepsReady top depth subclass := by
  unfold subclass
  repeat' first | with_reducible refine KeepsReady.bind ?_ fun _ => ?_ | split
  all_goals first | exact keepsReady_inherit _ _ _ | exact (Within.leavesCode (by simp)).keepsReady

/-- Loading a module that checks. -/
theorem keepsReady_load (name : Key) {m : Bytecode.Module} (hverify : m.main.verify = .ok ())
    (htop : top m.main) : KeepsReady top depth (load name m) :=
  fun _ hs => (safe_load hs name hverify htop).imp fun _ _ ht => ht.1

/-- A module that can be imported has top-level code of the kind. -/
theorem importable_of_lookup (hs : s.Sound top) {name : String} {m : Bytecode.Module}
    (hm : s.importable.lookup name = some m) : top m.main := by
  obtain ⟨before, after, heq, -⟩ := List.lookup_eq_some_iff.1 hm
  exact hs.importable (name, m) (by rw [heq]; simp)

/-- Only modules that pass the checks are loaded. -/
theorem keepsReady_importModule (name : Key) (bind : Bool) :
    KeepsReady top depth (importModule name bind) := by
  refine KeepsReady.bind (within_gets _).leavesCode.keepsReady fun loaded => ?_
  cases loaded with
  | some v =>
    refine (Within.leavesCode ?_).keepsReady
    dsimp only
    split <;> simp
  | none =>
    refine KeepsReady.bind (within_gets _).leavesCode.keepsReady fun text s hs => ?_
    rw [bind_run, gets_run, Proc.bind_done]
    cases hm : s.importable.lookup text with
    | none => exact (within_fail _ _).leavesCode.keepsReady s hs
    | some m =>
      cases hverify : m.main.verify with
      | error e =>
        simp only [hverify]
        exact (within_fail _ _).leavesCode.keepsReady s hs
      | ok u =>
        simp only [hverify]
        refine (keepsReady_load name hverify (importable_of_lookup hs.toSound hm)).bind
          (fun closure => (Within.leavesCode ?_).keepsReady) s hs
        repeat' first | with_reducible refine Within.bind ?_ fun _ => ?_ | split
        all_goals simp

/-! ## Calls -/

/-- What was reached stays reached when values are pushed. -/
theorem roots_subset_append (s : State) (values : Array Value) :
    s.roots ⊆ { s with stack := s.stack ++ values : State }.roots := by
  unfold State.roots Object.handlesOf
  simp only [Array.toList_append, List.filterMap_append]
  grind

/-- Packing arguments into a tuple. -/
theorem safe_pushTuple (h : s.Ready top depth) (count : Nat) :
    (pushTuple count s).Safe top depth false fun _ t => Retains top depth s t := by
  unfold pushTuple pack
  refine Proc.Safe.bind (safe_require _ _) ?_
  rintro base _ ⟨rfl, -⟩
  rw [bind_run, gets_run, Proc.bind_done]
  refine Proc.Safe.bind (safe_alloc h trivial) fun y t ⟨ht, _⟩ => ?_
  have hdata := (t.data_truncate base).trans (State.data_push _ (.object y))
  exact ⟨⟨ht.toAllLand.dataChanges hdata, ht.depth_le⟩, ht.kept⟩

/-- Raising an exception gives no result. -/
theorem fail_ne_done (c : CoreClass) (message : String) (a : α) (t : State) :
    (fail c message s : Proc α) ≠ .done a t := by
  have hbind : ∀ {β : Type} {p : Proc β} {f : β → State → Proc α},
      (∀ b u, f b u ≠ .done a t) → p.bind f ≠ .done a t := by
    intro β p f hf
    cases p with
    | done b u => exact hf b u
    | _ => exact nofun
  unfold fail failWith
  simp only [bind_run, gets_run, Proc.bind_done]
  repeat refine hbind fun _ _ => ?_
  exact nofun

/-- A failure raises an exception of a core class. -/
theorem safe_fail (h : s.Ready top depth) (c : CoreClass) (message : String)
    {post : α → State → Prop} : (fail c message s).Safe top depth false post := by
  have hleaves : (fail c message s : Proc α).LeavesCode false s :=
    (within_fail c message).leavesCode s
  have hsafe := hleaves.safe h
  cases hrun : (fail c message s : Proc α) with
  | done a t => exact absurd hrun (fail_ne_done c message a t)
  | _ =>
    rw [hrun] at hsafe
    exact hsafe

/-- Arguments are adjusted with the callee in place, as long as it is reached from the roots while
further arguments are packed. -/
theorem safe_adjustArguments (h : s.Ready top depth) (g : Signature) (argc : Nat) :
    (adjustArguments g argc s).Safe top depth false fun _ t => t.Ready top depth ∧
      ∀ y o, (g.vararg = true → Heap.Reaches s.heap.cells s.roots y) →
        s.heap.get? y = some o → t.heap.get? y = some o := by
  have hfilled : { s with stack := s.stack ++ g.missing argc : State }.Ready top depth :=
    ⟨h.toAllLand.dataChanges (State.DataChange.stack _).dataChanges, h.depth_le⟩
  unfold adjustArguments
  split
  · trivial
  · split
    · rw [bind_run, modify_run, Proc.bind_done]
      split
      · next hpacks =>
        refine Proc.Safe.bind (safe_pushTuple hfilled _) fun _ t ht => ⟨ht.toReady, ?_⟩
        exact fun y o hy => ht.kept y o ((hy hpacks).mono (roots_subset_append s _))
      · exact ⟨hfilled, fun _ _ _ => id⟩
    · exact safe_fail h _ _

/-- A frame is entered that runs code and goes on in it. -/
theorem ready_pushFrame (h : s.Ready top depth) (hx : x.RunsCode s.heap) (hl : x.proto.Lands x.ip) :
    { s with frames := s.frames.push x : State }.Ready top depth := by
  refine ⟨⟨⟨h.tidy, h.objects, fun f hf => ?_, h.importable⟩, fun f hf => ?_⟩, ?_⟩
  · rcases Array.mem_push.1 hf with hf | rfl
    · exact h.frames f hf
    · exact hx
  · rcases Array.mem_push.1 hf with hf | rfl
    · exact h.lands f hf
    · exact hl
  · change depth ≤ (s.frames.push x).size
    rw [Array.size_push]
    exact Nat.le_succ_of_le h.depth_le

/-- A function is an object of the heap. -/
theorem get?_of_function? {y : Handle} {f : FunctionObject} (h : s.function? y = some f) :
    s.heap.get? y = some (.function f) := by
  unfold State.function? at h
  split at h
  · next ho =>
    cases h
    exact ho
  · cases h

/-- A closure that packs further arguments is reached from the roots. -/
def Holds (s : State) (closure : Handle) : Prop :=
  ∀ function upvalues f, s.heap.get? closure = some (.closure function upvalues) →
    s.function? function = some f → f.proto.vararg = true →
      Heap.Reaches s.heap.cells s.roots closure

/-- A closure begins at the first instruction of its code. -/
theorem safe_callClosure (h : s.Ready top depth) {closure function : Handle}
    {upvalues : Array Handle} (hget : s.heap.get? closure = some (.closure function upvalues))
    (hheld : Holds s closure) (argc : Nat) :
    (callClosure closure function argc s).Safe top depth false fun _ t => t.Ready top depth := by
  unfold callClosure atFrameLimit
  rw [bind_run, gets_run, Proc.bind_done]
  split
  · exact safe_fail h _ _
  · refine Proc.Safe.bind (safe_require _ _) ?_
    rintro f _ ⟨rfl, hf⟩
    have hfunction := get?_of_function? hf
    have hreach := hheld _ _ f hget hf
    refine Proc.Safe.bind (safe_adjustArguments h _ _) fun total t ⟨ht, hkept⟩ => ?_
    refine Proc.Safe.bind (safe_require _ _) ?_
    rintro base _ ⟨rfl, -⟩
    have hclosure := hkept _ _ hreach hget
    have hfun : t.heap.HasFunction function f.proto :=
      ⟨f, hkept _ _ (fun hv => (hreach hv).reference hget (List.mem_cons_self ..)) hfunction, rfl⟩
    have hfits := (verify_eq_ok.1 (ht.closure hclosure hfun).1).1
    exact ready_pushFrame ht ⟨⟨⟨upvalues, hclosure⟩, hfun⟩, nofun, nofun⟩ hfits.lands_zero

/-- Handlers land wherever the base is, once they are raised, too. -/
theorem lands_raiseHandlers {p : Proto} {base : Nat} {handlers : List Handler}
    (h : ∀ k ∈ handlers, p.Lands k.address) :
    ∀ k ∈ raiseHandlers base handlers, p.Lands k.address := by
  intro k hk
  obtain ⟨k', hk', rfl⟩ := List.mem_map.1 hk
  exact h k' hk'

/-- The state in which a generator that is resumed runs. -/
def woken (s : State) (y : Handle) (g : GeneratorObject) (stack : Array Value) : State :=
  { s with
    stack := stack
    heap := s.heap.update y fun _ =>
      .generator { g with state := .running, stack := #[], handlers := [] } }

/-- A generator goes on where it was suspended. -/
theorem ready_resume (h : s.Ready top depth) {y : Handle} {g : GeneratorObject}
    (hget : s.heap.get? y = some (.generator g)) (stack : Array Value) {f : FunctionObject}
    (hf : (woken s y g stack).function? g.function = some f) (stack' : Array Value) (base : Nat) :
    { woken s y g stack' with
      frames := s.frames.push
        { closure := g.closure
          function := g.function
          proto := f.proto
          base := base
          ip := g.ip
          handlers := raiseHandlers base g.handlers
          generator := some y } : State }.Ready top depth := by
  obtain ⟨p, hbacks, hip, hhandlers⟩ := h.objects y _ hget
  have hspares : s.heap.Spares y fun _ =>
      .generator { g with state := .running, stack := #[], handlers := [] } := by
    constructor
    · intro o ho hcode
      rw [hget] at ho
      cases ho
      cases hcode
    · intro g' hg'
      rw [hget] at hg'
      cases hg'
      exact ⟨_, rfl, rfl⟩
  have hsound := h.toSound.update hspares fun _ _ => ⟨p, hbacks, hip, nofun⟩
  have hwoken : (woken s y g stack').Ready top depth :=
    ⟨⟨⟨hsound.tidy, hsound.objects, hsound.frames, hsound.importable⟩, h.lands⟩, h.depth_le⟩
  have hbacks' := hbacks.carry (hspares.carries g.closure) (hspares.carries g.function)
  have hproto : f.proto = p := by
    have hfun : (woken s y g stack).heap.HasFunction g.function f.proto :=
      ⟨f, get?_of_function? hf, rfl⟩
    exact hfun.unique hbacks'.function
  refine ready_pushFrame hwoken ⟨?_, ?_, ?_⟩ ?_
  · rw [hproto]
    exact hbacks'
  · rw [hproto]
    exact lands_raiseHandlers hhandlers
  · rintro _ ⟨⟩
    exact (hspares.carries y).generator g hget
  · rw [hproto]
    exact hip

/-- Resuming a generator goes on in its code. -/
theorem safe_resumeGenerator (h : s.Ready top depth) {y : Handle} {g : GeneratorObject}
    (hget : s.heap.get? y = some (.generator g)) (argc : Nat) :
    (resumeGenerator y g argc s).Safe top depth false fun _ t => t.Ready top depth := by
  unfold resumeGenerator
  split
  · exact safe_fail h _ _
  split
  · exact safe_fail h _ _
  split
  · exact safe_fail h _ _
  rw [bind_run, atFrameLimit, gets_run, Proc.bind_done]
  split
  · exact safe_fail h _ _
  dsimp only
  split
  all_goals
    simp only [bind_run, pop, pure_run, Proc.bind_done]
    refine Proc.Safe.bind (safe_require _ _) ?_
    rintro base _ ⟨rfl, -⟩
    simp only [truncate, modify_run, Proc.bind_done]
    refine Proc.Safe.bind (safe_require _ _) ?_
    rintro f _ ⟨rfl, hf⟩
    split
    all_goals exact ready_resume h hget _ hf _ base

/-- Actions that leave code alone leave the machine ready. -/
theorem LeavesCode.ready {y : Act α} (hy : LeavesCode calls y) (h : s.Ready top depth) :
    (y s).Safe top depth calls fun _ t => t.Ready top depth :=
  ((hy s).safe h).imp fun _ _ ht => ht.1

/-- Calling the value below the arguments, which is on the stack. -/
theorem safe_enterValue (h : s.Ready top depth) (argc : Nat) :
    (enterValue argc s).Safe top depth true fun _ t => t.Ready top depth := by
  unfold enterValue
  refine Proc.Safe.bind (safe_require _ _) ?_
  rintro slot _ ⟨rfl, -⟩
  refine Proc.Safe.bind (safe_require _ _) ?_
  rintro v _ ⟨rfl, hv⟩
  cases v with
  | object y =>
    have hreach : Heap.Reaches s.heap.cells s.roots y := by
      refine .root ?_
      unfold State.roots Object.handlesOf
      simp only [List.mem_append, List.mem_filterMap]
      exact .inl (.inl (.inl (.inl ⟨_, Array.mem_toList_iff.2 (Array.mem_of_getElem? hv), rfl⟩)))
    refine Proc.Safe.bind (safe_require _ _) ?_
    rintro o _ ⟨rfl, ho⟩
    cases o with
    | closure f upvalues =>
      exact Proc.Safe.bind (safe_callClosure h ho (fun _ _ _ _ _ _ => hreach) argc) fun _ _ => id
    | generator g => exact Proc.Safe.bind (safe_resumeGenerator h ho argc) fun _ _ => id
    | native n => exact ((within_callNative n argc).bind fun _ =>
      within_pure Control.next).leavesCode.ready h
    | classObject c => exact (within_callClass y c argc).leavesCode.ready h
    | boundMethod receiver method =>
      exact ((within_setSlotAt slot receiver).bind fun _ =>
        within_pure (Control.invoke _ argc)).leavesCode.ready h
    | _ => exact (within_notCallable _).leavesCode.ready h
  | _ => exact (within_notCallable _).leavesCode.ready h

/-- Calling a method, which has to be reached from the roots if further arguments are packed before
its frame is there. -/
theorem safe_enterMethod (h : s.Ready top depth) {method : Value}
    (hheld : ∀ y, method = .object y → Holds s y) (argc : Nat) :
    (enterMethod method argc s).Safe top depth true fun _ t => t.Ready top depth := by
  have hinstead : LeavesCode true (do
      let callee ← start (argc + 1)
      setSlotAt callee method
      return Control.call argc) :=
    ((within_start _).bind fun _ => (within_setSlotAt _ _).bind fun _ => within_pure _).leavesCode
  unfold enterMethod
  cases method with
  | object y =>
    refine Proc.Safe.bind (safe_require _ _) ?_
    rintro o _ ⟨rfl, ho⟩
    cases o with
    | closure f upvalues =>
      exact Proc.Safe.bind (safe_callClosure h ho (hheld y rfl) argc) fun _ _ => id
    | native n => exact ((within_callNative n argc).bind fun _ =>
      within_pure Control.next).leavesCode.ready h
    | _ => exact hinstead.ready h
  | _ => exact hinstead.ready h

/-! ## All instructions -/

/-- Actions that keep the machine ready keep code together. -/
theorem KeepsReady.safe {y : Act α} (hy : KeepsReady top depth y) (h : s.Ready top depth) :
    (y s).Safe top depth calls fun _ t => t.Ready top depth := by
  have hsafe := hy s h
  cases hrun : y s with
  | call t method argc resume =>
    rw [hrun] at hsafe
    exact absurd hsafe.1 Bool.false_ne_true
  | _ =>
    rw [hrun] at hsafe
    exact hsafe

/-- A jump that is taken on a condition, after the value it depends on has been popped. -/
theorem safe_branch {op : Op} (hx : Executes s x op) (h : s.Ready top depth) {distance : UInt16}
    (hd : op.forwardDistance? = some distance) :
    (jumpBy distance s.drop).Safe top depth calls fun _ t => t.Ready top depth :=
  safe_jump (s := s.drop) hx.frame h.drop (· + distance.toNat)
      (hx.lands_forward h.outerLand hd)

/-- Every instruction keeps code together. -/
theorem safe_execute {op : Op} (hx : Executes s x op) (h : s.OuterLand top)
    (hd : depth < s.frames.size) (hland : op ≠ .return → s.AllLand top) :
    (execute op s).Safe top depth true fun _ t => t.Ready top depth := by
  have hready : op ≠ .return → s.Ready top depth := fun hne => ⟨hland hne, hd.le⟩
  cases op with
  | «return» => exact safe_return h hd
  | jump d =>
    refine safe_thenNext ?_
    refine Proc.Safe.bind ?_ fun _ t ht => within_checkInterrupt.leavesCode.ready ht
    exact safe_jump hx.frame (hready nofun) (· + d.toNat) (hx.lands_forward h rfl)
  | jumpIfFalse d =>
    refine safe_thenNext ?_
    rw [bind_run, pop, Proc.bind_done]
    split
    · exact (hready nofun).drop
    · exact safe_branch hx (hready nofun) rfl
  | jumpIfTrue d =>
    refine safe_thenNext ?_
    rw [bind_run, pop, Proc.bind_done]
    split
    · exact safe_branch hx (hready nofun) rfl
    · exact (hready nofun).drop
  | loop d =>
    refine safe_thenNext ?_
    refine Proc.Safe.bind ?_ fun _ t ht => within_checkInterrupt.leavesCode.ready ht
    obtain ⟨offset, hip, hop⟩ := hx.fetched
    refine safe_jump hx.frame (hready nofun) (· - d.toNat) ?_
    rw [hip]
    exact (h.fits (State.mem_frames_of_frame? hx.frame)).lands_back hop
  | closure i captures => exact safe_thenNext (safe_pushClosure hx (hready nofun))
  | native i =>
    refine safe_thenNext (KeepsReady.safe ?_ (hready nofun))
    refine KeepsReady.bind (within_declaration i).leavesCode.keepsReady fun d => ?_
    exact (keepsReady_resolveNative d none).bind fun y => (within_push _).leavesCode.keepsReady
  | subclass => exact safe_thenNext (keepsReady_subclass.safe (hready nofun))
  | nativeMethod i => exact safe_thenNext ((keepsReady_addNativeMethod i).safe (hready nofun))
  | setupExcept d => exact safe_thenNext (safe_installHandler hx (hready nofun) rfl _)
  | setupEnsure d => exact safe_thenNext (safe_installHandler hx (hready nofun) rfl _)
  | popHandler => exact safe_thenNext (safe_removeHandler hx.frame (hready nofun))
  | endHandler => exact safe_endHandler (hready nofun) hd
  | forNext d => exact safe_askElement hx (hready nofun) rfl
  | generator => exact safe_makeGenerator hx.frame (hready nofun) hd
  | yield => exact safe_yieldValue hx.frame (hready nofun) hd
  | generatorClose =>
    refine safe_thenNext (KeepsReady.safe ?_ (hready nofun))
    refine KeepsReady.bind within_frame.leavesCode.keepsReady fun f => ?_
    cases f.generator with
    | none => exact (within_pure ()).leavesCode.keepsReady
    | some g => exact fun s hs => ⟨⟨hs.toSound.finishGenerator g, hs.lands⟩, hs.depth_le⟩
  | importModule i =>
    refine KeepsReady.safe ?_ (hready nofun)
    exact (within_name i).leavesCode.keepsReady.bind fun name => keepsReady_importModule name true
  | importFrom i =>
    refine KeepsReady.safe ?_ (hready nofun)
    exact (within_name i).leavesCode.keepsReady.bind fun name => keepsReady_importModule name false
  | _ => exact (leavesCode_execute rfl).ready (hready nofun)

end Act

end ScriptEngine
