import ScriptEngine.Proofs.Footing

/-!
# Steps that move about in code

Jumps, handlers, returns, generators, closures, calls and imports are what actions that leave code
alone leave out. Each is shown to lead from code that fits together to code that fits together, so
that every instruction does, and so does entering a callee. Between fetching a return and leaving its
frame, the instruction pointer may be past the end of the code: there only the outer frames are known
to go on in theirs.
-/

namespace ScriptEngine

open Bytecode

namespace State

variable {top : Proto → Prop} {s t : State} {x : Frame}

/-! ## The innermost frame -/

/-- The innermost frame is the last one. -/
theorem frames_eq_push (h : s.frame? = some x) : s.frames = s.frames.pop.push x := by
  obtain ⟨outer, houter⟩ := Array.back?_eq_some_iff.1 h
  rw [houter, Array.pop_push]

/-- It is one of the frames. -/
theorem mem_frames_of_frame? (h : s.frame? = some x) : x ∈ s.frames := by
  rw [frames_eq_push h]
  exact Array.mem_push_self

/-- The frames around are frames. -/
theorem mem_of_mem_outer {f : Frame} (h : f ∈ s.frames.pop) : f ∈ s.frames := by
  rw [← Array.mem_toList_iff, Array.toList_pop] at h
  exact Array.mem_toList_iff.1 (List.mem_of_mem_dropLast h)

/-- The last element is modified. -/
theorem modify_last {α : Type} (as : Array α) (a : α) (f : α → α) :
    (as.push a).modify as.size f = as.push (f a) := by
  refine Array.ext (by simp) fun i hi _ => ?_
  simp only [Array.getElem_modify, Array.getElem_push]
  grind

/-- The innermost frame is changed. -/
theorem frames_modifyFrame (h : s.frame? = some x) (f : Frame → Frame) :
    (s.modifyFrame f).frames = s.frames.pop.push (f x) := by
  obtain ⟨outer, houter⟩ := Array.back?_eq_some_iff.1 h
  change s.frames.modify (s.frames.size - 1) f = _
  rw [houter, Array.size_push, Nat.add_sub_cancel, modify_last, Array.pop_push]

/-- What it is then. -/
theorem frame?_modifyFrame (h : s.frame? = some x) (f : Frame → Frame) :
    (s.modifyFrame f).frame? = some (f x) := by
  unfold frame?
  rw [frames_modifyFrame h, Array.back?_push]

@[simp] theorem size_modifyFrame (s : State) (f : Frame → Frame) :
    (s.modifyFrame f).frames.size = s.frames.size := Array.size_modify

/-- The code fits together, but the innermost frame may be about to run off its own. -/
structure OuterLand (top : Proto → Prop) (s : State) : Prop extends Sound top s where
  lands : ∀ f ∈ s.frames.pop, f.proto.Lands f.ip

/-- If all frames go on in their code, the outer ones do. -/
theorem AllLand.outerLand (h : s.AllLand top) : s.OuterLand top :=
  ⟨h.toSound, fun f hf => h.lands f (mem_of_mem_outer hf)⟩

/-- Changes that leave code alone. -/
theorem OuterLand.dataChanges (h : s.OuterLand top) (hd : s.DataChanges t) : t.OuterLand top :=
  ⟨h.toSound.dataChanges hd, by rw [hd.frames]; exact h.lands⟩

/-- A change of the innermost frame. -/
theorem OuterLand.modifyFrame (h : s.OuterLand top) (hx : s.frame? = some x) {f : Frame → Frame}
    (hf : (f x).RunsCode s.heap) : (s.modifyFrame f).OuterLand top := by
  have hframes := frames_modifyFrame hx f
  refine ⟨⟨h.tidy, h.objects, fun y hy => ?_, h.importable⟩, fun y hy => ?_⟩
  · rw [hframes, Array.mem_push] at hy
    rcases hy with hy | rfl
    · exact h.frames y (mem_of_mem_outer hy)
    · exact hf
  · rw [hframes, Array.pop_push] at hy
    exact h.lands y hy

/-- The innermost frame goes on in its code. -/
theorem OuterLand.landed (h : s.OuterLand top) (hx : s.frame? = some x) {f : Frame → Frame}
    (hf : (f x).RunsCode s.heap) (hl : (f x).proto.Lands (f x).ip) :
      (s.modifyFrame f).AllLand top := by
  refine ⟨(h.modifyFrame hx hf).toSound, fun y hy => ?_⟩
  rw [frames_modifyFrame hx, Array.mem_push] at hy
  rcases hy with hy | rfl
  · exact h.lands y hy
  · exact hl

/-- A jump of the innermost frame into its code. -/
theorem OuterLand.jumpTo (h : s.OuterLand top) (hx : s.frame? = some x) {ip : Nat}
    (hl : x.proto.Lands ip) : (s.jumpTo ip).AllLand top :=
  have hruns := h.frames x (mem_frames_of_frame? hx)
  h.landed hx ⟨hruns.backs, hruns.handlers, hruns.generator⟩ hl

/-- New handlers of the innermost frame. -/
theorem OuterLand.setHandlers (h : s.OuterLand top) (hx : s.frame? = some x)
    (handlers : List Handler)
    (hl : ∀ k ∈ handlers, x.proto.Lands k.address) :
    (s.modifyFrame fun f => { f with handlers := handlers }).OuterLand top :=
  have hruns := h.frames x (mem_frames_of_frame? hx)
  h.modifyFrame hx ⟨hruns.backs, hl, hruns.generator⟩

/-- The innermost frame is left. -/
theorem OuterLand.dropFrame (h : s.OuterLand top) : s.dropFrame.AllLand top :=
  ⟨⟨h.tidy, h.objects, fun f hf => h.frames f (mem_of_mem_outer hf), h.importable⟩, h.lands⟩

/-! ## Handlers and frames that are left -/

/-- An object changes in place as in `Sound.update`, and its size is taken again. -/
theorem Sound.resized (h : s.Sound top) {y : Handle} {f : Object → Object}
    (hf : s.heap.Spares y f) (hg : ∀ o, s.heap.get? y = some o → (f o).CodeChecked top s.heap) :
    (s.update y f).Sound top :=
  (h.update hf hg).congr ((h.update hf hg).tidy.resize y) (Heap.get?_resize _ y)

/-- A generator gets another place in the same code; other objects stay. -/
theorem Sound.moveGenerator (h : s.Sound top) {y : Handle}
    {move : GeneratorObject → GeneratorObject}
    (hm : ∀ g p, s.heap.get? y = some (.generator g) → s.heap.HasFunction g.function p →
      p.Lands g.ip → (move g).closure = g.closure ∧ (move g).function = g.function ∧
        p.Lands (move g).ip ∧ ∀ k ∈ (move g).handlers, p.Lands k.address) :
    (s.update y fun
      | .generator g => .generator (move g)
      | o => o).Sound top := by
  have hplace : ∀ g, s.heap.get? y = some (.generator g) → ∃ p, s.heap.HasFunction g.function p ∧
      p.Lands g.ip ∧ s.heap.Backs g.closure g.function p := by
    intro g hg
    obtain ⟨p, hbacks, hip, -⟩ := h.objects y _ hg
    exact ⟨p, hbacks.function, hip, hbacks⟩
  refine h.resized ⟨?_, ?_⟩ ?_
  · rintro o - hcode
    cases o with
    | generator g => cases hcode
    | _ => rfl
  · intro g hg
    obtain ⟨p, hfun, hip, -⟩ := hplace g hg
    exact ⟨_, rfl, (hm g p hg hfun hip).2.1⟩
  · intro o ho
    cases o with
    | generator g =>
      obtain ⟨p, hfun, hip, hbacks⟩ := hplace g ho
      obtain ⟨hclosure, hfunction, hip', hhandlers⟩ := hm g p ho hfun hip
      exact ⟨p, by rwa [hclosure, hfunction], hip', hhandlers⟩
    | _ => exact h.objects y _ ho

/-- A generator is completed. -/
theorem Sound.finishGenerator (h : s.Sound top) (y : Handle) : (s.finishGenerator y).Sound top :=
  h.moveGenerator fun _ _ _ _ hip => ⟨rfl, rfl, hip, nofun⟩

/-- A handler of the innermost frame goes on. -/
theorem OuterLand.restore (h : s.OuterLand top) (hx : s.frame? = some x) {k : Handler}
    (hk : x.proto.Lands k.address) (v : Value) (cause : Number) :
    (s.restore k v cause).AllLand top := by
  have hdata : s.DataChanges
      ((((s.closeUpvalues k.height).truncate k.height).push v).push (.number cause)) :=
    (s.data_closeUpvalues _).trans ((data_truncate _ _).trans
      ((data_push _ _).trans (data_push _ _)))
  exact (h.dataChanges hdata).jumpTo (hdata.frame?.trans hx) hk

@[simp] theorem size_restore (s : State) (k : Handler) (v : Value) (cause : Number) :
    (s.restore k v cause).frames.size = s.frames.size := by
  unfold restore jumpTo
  rw [size_modifyFrame]
  exact congrArg Array.size (s.data_closeUpvalues _).frames

/-- The outer frames are not touched when a frame is left. -/
theorem OuterLand.leaveFrame (h : s.OuterLand top) (f : Frame) : (s.leaveFrame f).AllLand top := by
  refine AllLand.dataChanges ?_ (data_closeUpvalues _ f.base)
  cases f.generator with
  | none => exact h.dropFrame
  | some g => exact ⟨h.dropFrame.toSound.finishGenerator g, h.dropFrame.lands⟩

/-- There is one frame less. -/
theorem size_leaveFrame (s : State) (f : Frame) :
    (s.leaveFrame f).frames.size = s.frames.size - 1 := by
  unfold State.leaveFrame
  rw [(data_closeUpvalues _ f.base).frames]
  cases f.generator <;> exact Array.size_pop

/-- Unwinding ends at a handler, which is in the code, or has left all frames it may leave. -/
theorem OuterLand.unwindFrames (h : s.OuterLand top) (exception : Value) (count : Nat)
    (base : Option Nat)
    (hcount : count ≤ s.frames.size) (hland : 0 < count ∨ s.AllLand top) :
    (s.unwindFrames exception count base).1.AllLand top ∧
      s.frames.size - count ≤ (s.unwindFrames exception count base).1.frames.size ∧
      ((s.unwindFrames exception count base).2 = true →
        s.frames.size - count < (s.unwindFrames exception count base).1.frames.size) := by
  induction count generalizing s base with
  | zero =>
    have hs := hland.resolve_left (Nat.lt_irrefl 0)
    unfold State.unwindFrames
    split
    · exact ⟨hs.dataChanges ((data_truncate _ _).trans (data_push _ _)), Nat.sub_le _ _, nofun⟩
    · exact ⟨hs.dataChanges (data_push _ _), Nat.sub_le _ _, nofun⟩
  | succ count ih =>
    obtain ⟨x, hx⟩ : ∃ x, s.frame? = some x := by
      rw [frame?, Array.back?_eq_getElem?]
      exact ⟨_, Array.getElem?_eq_getElem (by omega)⟩
    unfold State.unwindFrames
    rw [hx]
    dsimp only
    split
    · next k rest hk =>
      have hruns := (h.frames x (mem_frames_of_frame? hx)).handlers
      rw [hk] at hruns
      have hset := h.setHandlers hx rest fun k hk => hruns k (List.mem_cons_of_mem _ hk)
      refine ⟨hset.restore (frame?_modifyFrame hx _) (hruns k (List.mem_cons_self ..)) _ _, ?_, ?_⟩
      · simp
      · intro _
        simp only [size_restore, size_modifyFrame]
        omega
    · have hleft := h.leaveFrame x
      have hsize := s.size_leaveFrame x
      have := ih hleft.outerLand (some x.base) (by omega) (.inr hleft)
      rw [hsize] at this
      rwa [show s.frames.size - (count + 1) = s.frames.size - 1 - count by omega]

/-- A state in which an exception is raised: the frame that raised it is about to be left, or it
goes on in its code. -/
structure Raises (top : Proto → Prop) (depth : Nat) (s : State) : Prop extends OuterLand top s where
  depth_le : depth ≤ s.frames.size
  allLand : depth < s.frames.size ∨ s.AllLand top

/-- An exception ends at a handler or at the end of its call. -/
theorem Raises.unwind {depth : Nat} (h : s.Raises top depth) :
    (s.unwind depth).1.AllLand top ∧ depth ≤ (s.unwind depth).1.frames.size ∧
      ((s.unwind depth).2 = true → depth < (s.unwind depth).1.frames.size) := by
  have hdrop := s.data_drop
  have hsize : s.drop.frames.size = s.frames.size := rfl
  have := (h.toOuterLand.dataChanges hdrop).unwindFrames s.top (s.frames.size - depth) none
    (by omega) (h.allLand.imp (by omega) fun hs => hs.dataChanges hdrop)
  rwa [hsize, Nat.sub_sub_self h.depth_le] at this

/-- A return goes on at an ensure handler, or is about to leave its frame. -/
theorem OuterLand.unwindReturn (h : s.OuterLand top) (v : Value) :
    (s.unwindReturn v).1.frames.size = s.frames.size ∧ (s.unwindReturn v).1.OuterLand top ∧
      ((s.unwindReturn v).2 = true → (s.unwindReturn v).1.AllLand top) := by
  have hmem : ∀ {handlers k rest}, ensureHandler? handlers = some (k, rest) →
      k ∈ handlers ∧ ∀ k' ∈ rest, k' ∈ handlers := by
    intro handlers k rest hk
    induction handlers with
    | nil => cases hk
    | cons k' more ih =>
      unfold ensureHandler? at hk
      split at hk
      · cases hk
        exact ⟨List.mem_cons_self .., fun _ => List.mem_cons_of_mem _⟩
      · exact ⟨List.mem_cons_of_mem _ (ih hk).1, fun k'' h => List.mem_cons_of_mem _ ((ih hk).2 k'' h)⟩
  unfold State.unwindReturn
  split
  · exact ⟨rfl, h, nofun⟩
  · next x hx =>
    have hruns := (h.frames x (mem_frames_of_frame? hx)).handlers
    split
    · next k rest hk =>
      have hset := h.setHandlers hx rest fun k' hk' => hruns k' ((hmem hk).2 k' hk')
      have hland := hset.restore (frame?_modifyFrame hx _) (hruns k (hmem hk).1) v causeReturn
      exact ⟨by simp, hland.outerLand, fun _ => hland⟩
    · exact ⟨by simp, h.setHandlers hx [] nofun, nofun⟩

end State

/-! ## Actions -/

/-- What is left of an action of a call keeps code together: it ends as required, raises with at
least as many frames as its call began with, or makes a call and leaves code alone from then on. The
flag says whether it may make calls. -/
def Proc.Safe {α : Type} (top : Proto → Prop) (depth : Nat) (calls : Bool) (post : α → State → Prop) :
    Proc α → Prop
  | .done a s => post a s
  | .raised s => s.Raises top depth
  | .fault _ => True
  | .call s _ _ resume => calls = true ∧ s.AllLand top ∧ depth ≤ s.frames.size ∧
      ∀ ok u, (resume ok u).LeavesCode true u

/-- The machine can go on in a call. -/
structure State.Ready (top : Proto → Prop) (depth : Nat) (s : State) : Prop extends
    AllLand top s where
  depth_le : depth ≤ s.frames.size

/-- A value is dropped. -/
theorem State.Ready.drop {top : Proto → Prop} {depth : Nat} {s : State} (h : s.Ready top depth) :
    s.drop.Ready top depth :=
  ⟨h.toAllLand.dataChanges s.data_drop, h.depth_le⟩

/-- An exception is raised where the machine can go on. -/
theorem State.Ready.raises {top : Proto → Prop} {depth : Nat} {s : State} (h : s.Ready top depth) :
    s.Raises top depth :=
  ⟨h.outerLand, h.depth_le, .inr h.toAllLand⟩

namespace Proc

variable {α β : Type} {top : Proto → Prop} {depth : Nat} {calls : Bool} {s : State}
  {post : α → State → Prop} {post' : β → State → Prop} {p : Proc α}

/-- One action after another, if the first makes no calls. -/
theorem Safe.bind {f : α → State → Proc β} (hp : p.Safe top depth false post)
    (hf : ∀ a t, post a t → (f a t).Safe top depth calls post') :
    (p.bind f).Safe top depth calls post' := by
  cases p with
  | done a t => exact hf a t hp
  | raised t => exact hp
  | fault e => trivial
  | call t method argc resume => exact absurd hp.1 Bool.false_ne_true

/-- What holds in the end may be weakened. -/
theorem Safe.imp (hp : p.Safe top depth calls post) {post' : α → State → Prop}
    (h : ∀ a t, post a t → post' a t) : p.Safe top depth calls post' := by
  cases p with
  | done a t => exact h a t hp
  | raised t => exact hp
  | fault e => trivial
  | call t method argc resume => exact hp

/-- Actions that leave code alone keep it together. -/
theorem LeavesCode.safe (hp : p.LeavesCode calls s) (h : s.Ready top depth) :
    p.Safe top depth calls fun _ t => t.Ready top depth ∧ s.DataChanges t := by
  have hready : ∀ {t : State}, s.DataChanges t → t.Ready top depth := fun ht =>
    ⟨h.toAllLand.dataChanges ht, by rw [ht.frames]; exact h.depth_le⟩
  cases p with
  | done a t => exact ⟨hready hp, hp⟩
  | raised t => exact (hready hp).raises
  | fault e => trivial
  | call t method argc resume =>
    refine ⟨hp.1, (hready hp.2.1).toAllLand, (hready hp.2.1).depth_le, fun ok u => ?_⟩
    cases hp.1
    exact hp.2.2 ok u

/-- So they do where only the outer frames go on in their code, if they make no calls. -/
theorem LeavesCode.safe_of_outerLand (hp : p.LeavesCode false s) (h : s.OuterLand top)
    (hd : depth < s.frames.size) :
    p.Safe top depth false fun _ t => t.OuterLand top ∧ depth < t.frames.size ∧
      s.DataChanges t := by
  have hsize : ∀ {t : State}, s.DataChanges t → depth < t.frames.size := fun ht => by
    rwa [ht.frames]
  cases p with
  | done a t => exact ⟨h.dataChanges hp, hsize hp, hp⟩
  | raised t => exact ⟨h.dataChanges hp, (hsize hp).le, .inl (hsize hp)⟩
  | fault e => trivial
  | call t method argc resume => exact absurd hp.1 Bool.false_ne_true

end Proc

end ScriptEngine
