import ScriptEngine.Proofs.GeneratorFrames

/-!
# Suspended generators

A generator that waits has what its frame needs to go on: the code, the place in it, the slots, and
the handlers with heights from its base. Nothing but resuming it changes that, and no collection
takes its code away. When it is resumed, at whatever height, the frame is as it was, but for its base
and for the heights of its handlers, which have moved with it. The argument is pushed on top of the
slots if the generator waits at a `yield`, and is dropped if its body has not run.
-/

namespace ScriptEngine

open Bytecode

/-! ## Waiting -/

/-- Whether a generator waits to be resumed. -/
@[simp, reducible] def Life.isResting : Life → Bool
  | .started | .suspended => true
  | _ => false

namespace State

variable {s t u : State} {g x : Handle} {o : GeneratorObject} {p : Object}
  {event : Option ClassEvent}

/-- A change of whatever kind. -/
def Changes (s t : State) : Prop := s.NeutralChange t ∨ (∃ event, Turn event s t) ∨ s.Alike t

/-- What becomes of a state while a generator waits. -/
def Rests (g : Handle) : State → State → Prop :=
  Relation.ReflTransGen fun s t => s.Changes t ∧ (t.life g).isResting = true

/-- A generator rests if and only if it is started or suspended. -/
theorem isResting_iff : (s.life g).isResting = true ↔
    ∃ o, s.generator? g = some o ∧ (o.state = .started ∨ o.state = .suspended) := by
  cases ho : s.generator? g with
  | none => simp [life_of_none ho]
  | some o =>
    rw [life_of_state ho]
    cases hstate : o.state with
    | done => by_cases hg : g ∈ s.generators <;> simp [hstate, hg]
    | _ => simp [hstate]

/-- A generator that waits has no frame. -/
theorem Tended.not_mem_of_isResting (hs : s.Tended) (hg : (s.life g).isResting = true) :
    g ∉ s.generators := by
  rw [hs.framed]
  cases hl : s.life g <;> simp_all

/-- Frames that are left end the generators that run in them, and no others. -/
theorem leaves_apart (h : Relation.ReflTransGen Leave s t) (hg : g ∉ s.generators) :
    t.generator? g = s.generator? g ∧ g ∉ t.generators := by
  induction h with
  | refl => exact ⟨rfl, hg⟩
  | tail _ hl ih =>
    obtain ⟨f, -, hback, hget⟩ := hl.ends
    rw [hback, List.mem_append, not_or] at ih
    obtain ⟨hsame, hout, hin⟩ := ih
    refine ⟨?_, hout⟩
    rw [hget, if_neg fun hf => hin (by simp [hf]), hsame]

/-- A turn other than resuming a generator that waits leaves it alone. -/
theorem Tended.turn_apart (hs : s.Tended) (ht : s.heap.Tidy) {event : Option ClassEvent}
    (h : Turn event s t) (hg : (s.life g).isResting = true) (hg' : (t.life g).isResting = true) :
    t.generator? g = s.generator? g := by
  have hout := hs.not_mem_of_isResting hg
  cases h with
  | leave h => exact (leaves_apart h hout).1
  | make o ho h =>
    rw [(leaves_apart h (g := g) hout).1, generator?_insert ht, if_neg]
    rintro rfl
    obtain ⟨o', ho', -⟩ := isResting_iff.1 hg
    rw [State.generator?, Heap.get?_fresh ht] at ho'
    cases ho'
  | @resume _ g' o f hget ho hf =>
    have hne : g ≠ g' := by
      rintro rfl
      have hin : g ∈ (s.awaken g o f).generators := by
        change g ∈ generatorsOf (s.frames.push f)
        rw [generatorsOf_push, hf]
        exact List.mem_append_right _ (List.mem_singleton_self g)
      exact (hs.awaken hget ho hf).1.not_mem_of_isResting hg' hin
    unfold generator?
    rw [heap_awaken, Heap.get?_update, if_neg hne]
  | suspend hf hgen change hc =>
    refine (s.dropFrame.generator?_mapGenerator _ g change).trans (if_neg ?_)
    rintro rfl
    exact hout (by simp [generators_dropFrame hf, hgen])
  | close hf hgen =>
    refine (s.generator?_mapGenerator _ g _).trans (if_neg ?_)
    rintro rfl
    exact hout (by simp [generators_dropFrame hf, hgen])
  | made text => exact s.generator?_made g ht _
  | inherits hc hp hb => exact s.generator?_mapClass g _ _
  | defines method hc hn => exact s.generator?_mapClass g _ _

/-- No change but resuming it, or freeing it, is made to a generator that waits. -/
theorem Tended.change_apart (hs : s.Tended) (hi : s.heap.Interned) (h : s.Changes t)
    (hg : (s.life g).isResting = true) (hg' : (t.life g).isResting = true) :
    t.Tended ∧ t.heap.Interned ∧ t.generator? g = s.generator? g := by
  rcases h with h | ⟨event, h⟩ | h
  · have hlasts := h.lasts hi.toTidy
    refine ⟨(hs.lasts hlasts).1, h.interned hi, ?_⟩
    obtain ⟨o, ho, -⟩ := isResting_iff.1 hg'
    rw [ho, generator?_eq_some.2 (hlasts.old rfl (generator?_eq_some.1 ho))]
  · exact ⟨(hs.turn hi.toTidy h).1, h.interned hi, hs.turn_apart hi.toTidy h hg hg'⟩
  · exact ⟨(hs.congr h.generators h.generator?).1, h.interned hi, h.generator? g⟩

/-- A generator is as it was while it waits. -/
theorem Tended.rests (hs : s.Tended) (hi : s.heap.Interned) (hg : (s.life g).isResting = true)
    (h : Rests g s t) : t.generator? g = s.generator? g := by
  suffices hall : t.Tended ∧ t.heap.Interned ∧ (t.life g).isResting = true ∧
      t.generator? g = s.generator? g from hall.2.2.2
  induction h with
  | refl => exact ⟨hs, hi, hg, rfl⟩
  | tail _ hstep ih =>
    obtain ⟨ht, hi', hrest, hsame⟩ := ih
    obtain ⟨hu, hi'', hsame'⟩ := ht.change_apart hi' hstep.1 hrest hstep.2
    exact ⟨hu, hi'', hstep.2, hsame'.trans hsame⟩

/-- A turn changes neither functions nor closures. -/
theorem Turn.get?_code (h : Turn event s t) (ht : s.heap.Tidy) (hp : p.isCode = true)
    (hx : s.heap.get? x = some p) : t.heap.get? x = some p := by
  have hclass : ∀ y (change : ClassObject → ClassObject),
      (s.update y (Object.mapClass change)).heap.get? x = some p := by
    intro y change
    rw [get?_update]
    split
    · rw [hx]
      cases p <;> first | rfl | cases hp
    · exact hx
  cases event with
  | none => exact ((h.retains ht).objects x p (Object.isSettled_of_isCode hp)).2 hx
  | some event =>
    cases h with
    | made text => exact (Heap.get?_insert_of_live ht _ (Heap.isLive_of_get? hx)).trans hx
    | inherits hc hp hb => exact hclass _ _
    | defines method hc hn => exact hclass _ _

/-- While a generator waits, it has the functions and closures that it refers to. -/
theorem Tended.code_rests (hs : s.Tended) (hi : s.heap.Interned)
    (ho : s.heap.get? g = some (.generator o)) (hrest : o.state = .started ∨ o.state = .suspended)
    (hmem : x ∈ (Object.generator o).references) (hp : p.isCode = true)
    (hx : s.heap.get? x = some p) (h : Rests g s t) : t.heap.get? x = some p := by
  have hresting : (s.life g).isResting = true := isResting_iff.2 ⟨o, generator?_eq_some.2 ho, hrest⟩
  have hfixed := Object.isFixed_of_isSettled (Object.isSettled_of_isCode hp)
  suffices hall : t.Tended ∧ t.heap.Interned ∧ (t.life g).isResting = true ∧
      t.heap.get? g = some (.generator o) ∧ t.heap.get? x = some p from hall.2.2.2.2
  induction h with
  | refl => exact ⟨hs, hi, hresting, ho, hx⟩
  | tail _ hstep ih =>
    obtain ⟨ht, hi', hrest', hg, hx'⟩ := ih
    obtain ⟨hu, hi'', hsame⟩ := ht.change_apart hi' hstep.1 hrest' hstep.2
    have hg' := generator?_eq_some.1 (hsame.trans (generator?_eq_some.2 hg))
    refine ⟨hu, hi'', hstep.2, hg', ?_⟩
    rcases hstep.1 with hc | ⟨event, hc⟩ | hc
    · exact (hc.lasts hi'.toTidy).kept hfixed hx' (.inr ⟨g, _, hg', hmem⟩)
    · exact hc.get?_code hi'.toTidy hp hx'
    · exact (hc.get?_iff hfixed).2 hx'

/-- A generator that stays suspended through changes is suspended all the while. -/
theorem Tended.rests_neutralChanges (hs : s.Tended) (hi : s.heap.Interned) (h : s.NeutralChanges t)
    (hg' : t.life g = .suspended) : Rests g s t := by
  induction h with
  | refl => exact .refl
  | @tail u t hneutral hc ih =>
    obtain ⟨hu, -⟩ := hs.neutralChanges hi hneutral
    have hlast : u.life g = .suspended := by
      obtain hsame | ⟨-, habsent⟩ :=
        (hu.lasts (hc.lasts (NeutralChanges.interned hneutral hi).toTidy)).2 g
      · rw [← hsame, hg']
      · rw [habsent] at hg'
        cases hg'
    exact .tail (ih hlast) ⟨.inl hc, by rw [hg']⟩

/-- So it is through a turn with what goes before and after it. -/
theorem Tended.rests_moves (hs : s.Tended) (hi : s.heap.Interned) {event : Option ClassEvent}
    (h : Moves event s t) (hg : s.life g = .suspended) (hg' : t.life g = .suspended) :
    Rests g s t := by
  obtain ⟨u, v, hneutral, hturn, ha⟩ := h
  obtain ⟨hu, hfirst⟩ := hs.neutralChanges hi hneutral
  obtain ⟨hv, hthen⟩ := hu.turn (hneutral.interned hi).toTidy hturn
  have hlast : v.life g = .suspended := ((hv.congr ha.generators ha.generator?).2 g).symm.trans hg'
  have hmid : u.life g = .suspended := by
    -- A generator that was freed cannot be suspended after one turn.
    obtain hsame | ⟨-, habsent⟩ := hfirst g
    · rw [hsame, hg]
    · have hturned := hthen g
      rw [habsent, hlast] at hturned
      rcases hturned with h | h <;> cases h
  refine .tail (.tail (hs.rests_neutralChanges hi hneutral hmid) ⟨.inr (.inl ⟨event, hturn⟩), ?_⟩)
    ⟨.inr (.inr ha), ?_⟩
  · rw [hlast]
  · rw [hg']

end State

/-- Steps of a machine between which a generator is suspended. -/
theorem Machine.Steady.rests {m m' : Machine} {g : Handle} (h : m.Steady) (hs : m.state.Tended)
    (hstep : m.step = .running m') (hg : m.state.life g = .suspended)
    (hg' : m'.state.life g = .suspended) : State.Rests g m.state m'.state :=
  hs.rests_moves h.interned (h.moves hstep) hg hg'

namespace Act

open State

variable {s : State} {low window : Array Value} {f : Frame} {g : Handle} {o : GeneratorObject}
  {v : Value}

/-! ## Suspending and resuming -/

/-- What a generator has of a frame that it has been suspended or made from. -/
structure Saves (o : GeneratorObject) (f : Frame) (window : Array Value) : Prop where
  closure : o.closure = f.closure
  function : o.function = f.function
  ip : o.ip = f.ip
  stack : o.stack = window
  handlers : o.handlers = lowerHandlers f.base f.handlers

/-- The frame in which a generator goes on. -/
def resumedFrame (f : Frame) (g : Handle) (proto : Proto) (base : Nat) : Frame :=
  { f with
    proto := proto
    base := base
    handlers := f.handlers.map fun k => { k with height := base + (k.height - f.base) }
    generator := some g }

/-- Handlers lowered with one base and raised with another stand at the same heights from the
base. -/
theorem raise_lowerHandlers (base base' : Nat) (handlers : List Handler) :
    raiseHandlers base' (lowerHandlers base handlers) =
      handlers.map fun k => { k with height := base' + (k.height - base) } := by
  simp [raiseHandlers, lowerHandlers, Nat.add_comm]

/-- The slots above the base of a frame. -/
theorem slotsFrom_eq (hstack : s.stack = low ++ window) : s.slotsFrom low.size = window := by
  unfold State.slotsFrom
  rw [hstack]
  exact Array.toList_inj.1 (by simp)

/-- Whatever upvalues are open, the generator has what its frame had. -/
theorem get?_asleep (ho : s.heap.get? g = some (.generator o)) :
    (suspended s f g v).heap.get? g = some (.generator (asleep s f v o)) := by
  have hkept : (s.closeUpvalues f.base).heap.get? g = some (.generator o) :=
    generator?_eq_some.1
      (((s.alike_closeUpvalues f.base).generator? g).trans (generator?_eq_some.2 ho))
  unfold suspended State.push State.truncate State.dropFrame
  dsimp only
  rw [get?_update, if_pos rfl, hkept]
  rfl

/-- Suspending a generator changes neither functions nor closures. -/
theorem get?_suspended_of_code (g : Handle) (v : Value) {x : Handle} {p : Object}
    (hp : p.isCode = true) (hx : s.heap.get? x = some p) :
    (suspended s f g v).heap.get? x = some p := by
  have hclosed : (s.closeUpvalues f.base).heap.get? x = some p :=
    ((s.alike_closeUpvalues f.base).get?_iff
      (Object.isFixed_of_isSettled (Object.isSettled_of_isCode hp))).2 hx
  unfold suspended State.push State.truncate State.dropFrame
  dsimp only
  rw [get?_update]
  split
  · rw [hclosed]
    cases p <;> first | rfl | cases hp
  · exact hclosed

/-- A frame yields: its generator has what it had, and the value is where its slots were. -/
theorem yield_run (hf : s.frame? = some f) (hg : f.generator = some g)
    (ho : s.heap.get? g = some (.generator o)) (hclosure : o.closure = f.closure)
    (hfunction : o.function = f.function) (hstack : s.stack = (low ++ window).push v)
    (hbase : low.size = f.base) :
    ∃ t o', execute .yield s = .done .next t ∧ t.stack = low.push v ∧ t.frames = s.frames.pop ∧
      t.heap.get? g = some (.generator o') ∧ o'.state = .suspended ∧ Saves o' f window ∧
      ∀ x p, p.isCode = true → s.heap.get? x = some p → t.heap.get? x = some p := by
  have hdrop : s.drop.stack = low ++ window := by
    change s.stack.pop = _
    rw [hstack, Array.pop_push]
  have htop : s.top = v := by rw [State.top, hstack, Array.back?_push]; rfl
  have hwindow : s.drop.slotsFrom f.base = window := hbase ▸ slotsFrom_eq hdrop
  refine ⟨suspended s.drop f g v, asleep s.drop f v o, ?_, ?_, ?_, ?_, rfl, ?_, ?_⟩
  · change yieldValue s = _
    unfold yieldValue
    rw [bind_run, pop, Proc.bind_done, bind_run, frame, require_run s.drop _ hf,
      Proc.bind_done, hg]
    dsimp only
    rw [bind_run, suspend_run, Proc.bind_done, htop]
    rfl
  · change ((s.drop.closeUpvalues f.base).stack.shrink f.base).push v = _
    rw [stack_closeUpvalues, hdrop, ← hbase]
    exact Array.toList_inj.1 (by simp)
  · change (s.drop.closeUpvalues f.base).frames.pop = _
    rw [frames_closeUpvalues]
    rfl
  · exact get?_asleep ho
  · exact ⟨hclosure, hfunction, rfl, hwindow, rfl⟩
  · exact fun x p hp hx => get?_suspended_of_code g v hp hx

/-- A frame is left that has returned. -/
theorem return_run (hf : s.frame? = some f) (hbare : f.handlers = []) (v : Value) :
    ∃ t, returnValue v s = .done .next t ∧ t.stack = (s.stack.take f.base).push v ∧
      t.frames = s.frames.pop ∧ State.Leave (s.setHandlers []) t := by
  refine ⟨_, returnValue_run hf (by rw [hbare]; rfl) v, ?_, ?_, leave_returned hf [] v⟩
  · have hleft := ((Parts.refl (s.setHandlers [])).leaveFrame f).stack
    change (((s.setHandlers []).leaveFrame f).stack.shrink f.base).push v = _
    rw [hleft]
    exact Array.toList_inj.1 (by simp [setHandlers, State.modifyFrame])
  · change ((s.setHandlers []).leaveFrame f).frames = _
    rw [frames_leaveFrame, setHandlers, frames_modifyFrame hf, Array.pop_push]

/-- What has been made, where there is room for it. -/
theorem alloc_eq_done {x : Object} {h : Handle} {t : State} (hrun : alloc x s = .done h t) :
    ∃ heap, s.NeutralChanges { s with heap := heap } ∧
      (∀ y ∈ s.roots, heap.get? y = s.heap.get? y) ∧ h = (heap.insert x).2 ∧
      t = { s with heap := (heap.insert x).1 } := by
  have hfits : ∀ u, reserve x.estimatedBytes x.references s = .done () u →
      h = (u.heap.insert x).2 ∧ t = { u with heap := (u.heap.insert x).1 } := by
    intro u hu
    unfold alloc at hrun
    rw [bind_run, hu] at hrun
    have hmade : Proc.done (u.heap.insert x).2 { u with heap := (u.heap.insert x).1 } = .done h t :=
      hrun
    obtain ⟨rfl, rfl⟩ := Proc.done.inj hmade
    exact ⟨rfl, rfl⟩
  have hreserve : Within State.NeutralChange false (reserve x.estimatedBytes x.references) :=
    within_reserve _ _
  rcases reserve_cases x.estimatedBytes x.references s with hr | hr | hr
  · unfold alloc at hrun
    rw [bind_run, hr] at hrun
    cases hrun
  · exact ⟨s.heap, .refl, fun _ _ => rfl, hfits s hr⟩
  · refine ⟨_, hreserve.done hr, fun y hy => ?_, hfits _ hr⟩
    exact Heap.get?_collect_of_reaches (.root (List.mem_append_left _ hy))

/-- A frame makes a generator, which has what the frame had and is left where its slots were. -/
theorem make_run {c : Control} {t : State} (hs : s.Tended) (hi : s.heap.Interned)
    (hf : s.frame? = some f) (hstack : s.stack = low ++ window) (hbase : low.size = f.base)
    (hrun : execute .generator s = .done c t) :
    ∃ g o, t.stack = low.push (.object g) ∧ t.frames = s.frames.pop ∧
      t.heap.get? g = some (.generator o) ∧ o.state = .started ∧ Saves o f window ∧
      ∀ x ∈ s.roots, ∀ p, p.isCode = true → s.heap.get? x = some p → t.heap.get? x = some p := by
  have hwindow : s.slotsFrom f.base = window := hbase ▸ slotsFrom_eq hstack
  have hrun : makeGenerator s = .done c t := hrun
  unfold makeGenerator at hrun
  rw [bind_run, frame, require_run _ _ hf, Proc.bind_done, bind_run, gets_run, Proc.bind_done,
    hwindow, bind_run] at hrun
  obtain ⟨g, made, halloc, hrun⟩ := bind_eq_done.1 hrun
  generalize ho : (GeneratorObject.mk f.closure f.function .started f.ip window
    (lowerHandlers f.base f.handlers) .null) = o at halloc
  obtain ⟨heap, hneutral, hroots, hg, hmade⟩ := alloc_eq_done halloc
  have hfmade : made.frame? = some f := by
    rw [hmade]
    exact hf
  have hframe := frame?_setHandlers hfmade []
  obtain ⟨t', hreturn, hstack', hframes', hleave⟩ := return_run hframe rfl (.object g)
  cases hreturn.symm.trans hrun
  have htidy : heap.Tidy := (NeutralChanges.interned hneutral hi).toTidy
  refine ⟨g, o, ?_, ?_, ?_, ?_, ?_, ?_⟩
  · rw [hstack']
    change (made.stack.take f.base).push _ = _
    rw [hmade, hstack, ← hbase]
    exact Array.toList_inj.1 (by simp)
  · rw [hframes', setHandlers, frames_modifyFrame hfmade, Array.pop_push, hmade]
  · -- The frame may run a generator itself, but not the new one.
    have htended : State.Tended { s with heap := heap } := (hs.neutralChanges hi hneutral).1
    have hapart : f.generator ≠ some g := by
      intro hgen
      have hmem : g ∈ State.generators { s with heap := heap } :=
        List.mem_filterMap.2 ⟨f, Array.mem_toList_iff.2 (mem_frames_of_frame? hf), hgen⟩
      obtain ⟨o', ho', -⟩ := htended.exists_of_mem hmem
      rw [hg, State.generator?, Heap.get?_fresh htidy] at ho'
      cases ho'
    obtain ⟨f', hf', -, hget⟩ := hleave.ends
    rw [frame?_setHandlers hframe] at hf'
    cases hf'
    refine generator?_eq_some.1 ((hget g).trans ((if_neg hapart).trans ?_))
    change made.generator? g = some o
    rw [hmade, State.generator?_insert (s := { s with heap := heap }) htidy, if_pos hg]
  · rw [← ho]
  · rw [← ho]
    exact ⟨rfl, rfl, rfl, rfl, rfl⟩
  · intro x hx p hp hget
    have hinserted : made.heap.get? x = some p := by
      rw [hmade, ← hget, ← hroots x hx]
      exact Heap.get?_insert_of_live htidy _ (Heap.isLive_of_get? ((hroots x hx).trans hget))
    exact (hleave.retains.objects x p (Object.isSettled_of_isCode hp)).2 hinserted

/-- The state in which a generator goes on, with its frame. -/
def goesOn (s : State) (low : Array Value) (g : Handle) (o : GeneratorObject) (sent : Value)
    (proto : Proto) : State :=
  { s with
    stack := low ++ o.stack ++ if o.state = .suspended then #[sent] else #[]
    heap := s.heap.update g fun _ =>
      .generator { o with state := .running, stack := #[], handlers := [] }
    frames := s.frames.push
      { closure := o.closure
        function := o.function
        proto := proto
        base := low.size
        ip := o.ip
        handlers := raiseHandlers low.size o.handlers
        generator := some g } }

/-- What follows once the argument has been taken off the stack. -/
theorem resume_rest {sent : Value} {function : FunctionObject}
    (hstack : s.stack = low.push (.object g))
    (ho : s.heap.get? g = some (.generator o)) (hfunction : s.function? o.function = some function) :
    (do
      let base ← start 1
      truncate base
      modify fun s =>
        { s with
          heap := s.heap.update g fun _ =>
            .generator { o with state := .running, stack := #[], handlers := [] } }
      let f ← functionOf o.function
      modify fun s => { s with stack := s.stack ++ o.stack }
      if o.state = .suspended then push sent else pure ()
      pushFrame
        { closure := o.closure
          function := o.function
          proto := f.proto
          base := base
          ip := o.ip
          handlers := raiseHandlers base o.handlers
          generator := some g } : Act Unit) s =
      .done () (goesOn s low g o sent function.proto) := by
  have hsize : s.stack.size - 1 = low.size := by rw [hstack, Array.size_push, Nat.add_sub_cancel]
  have hcut : s.stack.extract 0 low.size = low := by
    rw [hstack]
    exact Array.toList_inj.1 (by simp)
  rw [bind_run, start_run (by rw [hstack, Array.size_push]; omega), Proc.bind_done, hsize]
  have hkept : ∀ t : State, t.heap = (s.heap.update g fun _ =>
      .generator { o with state := .running, stack := #[], handlers := [] }) →
      t.function? o.function = some function := by
    intro t ht
    have hne : o.function ≠ g := by
      rintro heq
      rw [State.function?, heq, ho] at hfunction
      cases hfunction
    rw [← hfunction]
    unfold State.function?
    rw [ht, Heap.get?_update, if_neg hne]
  simp only [bind_run, truncate, modify_run, Proc.bind_done]
  rw [functionOf, require_run _ _ (hkept _ rfl)]
  by_cases hstate : o.state = .suspended
  · simp [hstate, goesOn, State.truncate, hcut, State.push, pushFrame]
  · simp [hstate, goesOn, State.truncate, hcut, pushFrame]

/-- A generator that waits goes on. -/
theorem resume_run {sent : Option Value} {function : FunctionObject}
    (hstack : s.stack = low.push (.object g) ++ sent.toArray)
    (ho : s.heap.get? g = some (.generator o)) (hrest : o.state = .started ∨ o.state = .suspended)
    (hroom : s.frames.size < s.settings.maxFrames)
    (hfunction : s.function? o.function = some function) :
    enterValue sent.toArray.size s =
      .done .next (goesOn s low g o (sent.getD .null) function.proto) := by
  have hargs : sent.toArray.size ≤ 1 := by cases sent <;> simp
  have hcallee : s.stack.size - (sent.toArray.size + 1) = low.size := by
    rw [hstack, Array.size_append, Array.size_push]
    omega
  have hslot : s.stack[low.size]? = some (.object g) := by
    rw [hstack, Array.getElem?_append_left (by simp), Array.getElem?_push_size]
  unfold enterValue
  rw [bind_run, start_run (by rw [hstack, Array.size_append, Array.size_push]; omega), Proc.bind_done,
    hcallee, bind_run, slotAt, require_run _ _ hslot, Proc.bind_done]
  dsimp only
  rw [bind_run, object, require_run _ _ ho, Proc.bind_done]
  dsimp only
  rw [bind_run]
  suffices hresume : resumeGenerator g o sent.toArray.size s =
      .done () (goesOn s low g o (sent.getD .null) function.proto) by rw [hresume]; rfl
  unfold resumeGenerator
  rw [if_neg (by rcases hrest with h | h <;> simp [h]),
    if_neg (by rcases hrest with h | h <;> simp [h]), if_neg (by omega), bind_run, atFrameLimit,
    gets_run, Proc.bind_done, if_neg (by simpa using hroom)]
  cases sent with
  | none => exact resume_rest (by simpa using hstack) ho hfunction
  | some v =>
    have hpushed : s.stack = (low.push (.object g)).push v := by simpa using hstack
    have hdrop : s.drop.stack = low.push (.object g) := by
      change s.stack.pop = _
      rw [hpushed, Array.pop_push]
    have htop : s.top = v := by rw [State.top, hpushed, Array.back?_push]; rfl
    rw [← htop]
    exact resume_rest (s := s.drop) hdrop ho hfunction

/-- From a state on, a generator goes on at whatever height: when it is called for the first time,
its frame has the code, the place and the handlers of the given one, and its slots and what is
received with the argument are on top of a stack that is the same below. -/
def Continues (g : Handle) (f : Frame) (window : Array Value)
    (received : Option Value → Array Value) (t : State) : Prop :=
  ∀ (later : State) (low : Array Value) (sent : Option Value) (function : FunctionObject),
    Rests g t later → later.stack = low.push (.object g) ++ sent.toArray →
    later.frames.size < later.settings.maxFrames → later.function? f.function = some function →
    ∃ u, enterValue sent.toArray.size later = .done .next u ∧
      u.stack = low ++ window ++ received sent ∧
      u.frames = later.frames.push (resumedFrame f g function.proto low.size)

/-- A generator that saves a frame continues it when it is resumed. -/
theorem continues_of_saves (hs : s.Tended) (hi : s.heap.Interned)
    (ho : s.heap.get? g = some (.generator o)) (hrest : o.state = .started ∨ o.state = .suspended)
    (hsaves : Saves o f window) :
    Continues g f window (fun sent => if o.state = .suspended then #[sent.getD .null] else #[]) s := by
  intro later low sent function hrests hstack hroom hfunction
  have hresting : (s.life g).isResting = true := isResting_iff.2 ⟨o, generator?_eq_some.2 ho, hrest⟩
  have hkept : later.heap.get? g = some (.generator o) := by
    rw [← generator?_eq_some, hs.rests hi hresting hrests, generator?_eq_some.2 ho]
  refine ⟨_, resume_run hstack hkept hrest hroom (hsaves.function ▸ hfunction), ?_, ?_⟩
  · rw [goesOn, hsaves.stack]
  · rw [goesOn, resumedFrame, hsaves.closure, hsaves.function, hsaves.ip, hsaves.handlers,
      raise_lowerHandlers]

/-- From a first state on, a frame's closure and function stay what they were while a generator
waits from a second state on. -/
def KeepsCode (g : Handle) (f : Frame) (s t : State) : Prop :=
  ∀ later, Rests g t later → ∀ x, x = f.closure ∨ x = f.function → ∀ p : Object, p.isCode = true →
    s.heap.get? x = some p → later.heap.get? x = some p

/-- A generator that saves a frame keeps its code. -/
theorem keepsCode_of_saves {t : State} (ht : t.Tended) (hi : t.heap.Interned)
    (ho : t.heap.get? g = some (.generator o)) (hrest : o.state = .started ∨ o.state = .suspended)
    (hsaves : Saves o f window)
    (hcode : ∀ x, x = f.closure ∨ x = f.function → ∀ p : Object, p.isCode = true →
      s.heap.get? x = some p → t.heap.get? x = some p) : KeepsCode g f s t := by
  intro later hrests x hx p hp hget
  refine ht.code_rests hi ho hrest ?_ hp (hcode x hx p hp hget) hrests
  rw [← hsaves.closure, ← hsaves.function] at hx
  rcases hx with rfl | rfl <;> simp [Object.references]

/-- From a state on, a generator goes on at whatever height with the code of a function. -/
def GoesOn (g : Handle) (f : Frame) (function : FunctionObject) (window : Array Value)
    (received : Option Value → Array Value) (t : State) : Prop :=
  ∀ (later : State) (low : Array Value) (sent : Option Value),
    Rests g t later → later.stack = low.push (.object g) ++ sent.toArray →
    later.frames.size < later.settings.maxFrames →
    ∃ u, enterValue sent.toArray.size later = .done .next u ∧
      u.stack = low ++ window ++ received sent ∧
      u.frames = later.frames.push (resumedFrame f g function.proto low.size)

/-- Where the code is kept, a generator goes on with the code that its frame had. -/
theorem KeepsCode.goesOn {t : State} {function : FunctionObject}
    {received : Option Value → Array Value} (h : KeepsCode g f s t)
    (hc : Continues g f window received t) (hf : s.function? f.function = some function) :
    GoesOn g f function window received t := by
  intro later low sent hrests hstack hroom
  have hkept := h later hrests f.function (.inr rfl) (.function function) rfl (get?_of_function? hf)
  refine hc later low sent function hrests hstack hroom ?_
  unfold State.function?
  rw [hkept]

end Act

section Runs

open Act

variable {settings : Settings} {log log' : List ClassEvent} {s u : State} {name : String}
  {module : Bytecode.Module} {m : Machine} {op : Op}

/-- What holds of the machines of a run holds once they have fetched an instruction. -/
theorem Hosted.fetched (h : Hosted (.create settings) log s)
    (hd : (Act.evalModule name module s).During log' m) (hop : fetch m.state = .done op u) :
    u.Tended ∧ u.heap.Interned ∧ u.BodiesMatch := by
  obtain ⟨hsteady, hbecomes⟩ := h.during hd
  have htended : m.state.Tended := kept_tended.throughout hbecomes
    (State.fresh_create settings).1.interned (State.tended_create settings)
  have hneutral : Within State.NeutralChange false fetch := Machine.neutral_fetch
  have hbodies : Within State.KeepsBodies false fetch := Machine.neutral_fetch
  exact ⟨(htended.neutralChanges hsteady.interned (hneutral.done hop)).1,
    State.bodiesMatch_of_keeps (hbodies.done hop) hsteady.interned (h.bodiesMatch hd)⟩

/-- In every run, a frame that yields leaves the slots below it as they are, and its generator has
what the frame had. -/
theorem Hosted.yield_saves (h : Hosted (.create settings) log s)
    (hd : (Act.evalModule name module s).During log' m) {f : Frame} {g : Handle}
    {low window : Array Value} {v : Value} (hop : fetch m.state = .done .yield u)
    (hf : u.frame? = some f) (hg : f.generator = some g) (hstack : u.stack = (low ++ window).push v)
    (hbase : low.size = f.base) :
    ∃ t o, execute .yield u = .done .next t ∧ t.stack = low.push v ∧ t.frames = u.frames.pop ∧
      t.Tended ∧ t.heap.Interned ∧ t.heap.get? g = some (.generator o) ∧ o.state = .suspended ∧
      Saves o f window ∧ ∀ x p, p.isCode = true → u.heap.get? x = some p →
        t.heap.get? x = some p := by
  obtain ⟨htended, hi, hmatch⟩ := h.fetched hd hop
  have hbody : (g, f.closure, f.function) ∈ bodiesOf u.frames :=
    List.mem_filterMap.2 ⟨f, Array.mem_toList_iff.2 (State.mem_frames_of_frame? hf),
      by rw [Frame.generatorCode, hg]; rfl⟩
  obtain ⟨o, ho, hclosure, hfunction⟩ := hmatch _ hbody
  obtain ⟨t, o', hrun, hstack', hframes, ho', hstate, hsaves⟩ :=
    yield_run hf hg ho hclosure hfunction hstack hbase
  have hmoves : State.Moves none u t := by
    have hturns := turns_yieldValue u
    rw [show yieldValue u = .done .next t from hrun] at hturns
    exact hturns
  exact ⟨t, o', hrun, hstack', hframes, (htended.moves hi hmoves).1, hmoves.interned hi, ho', hstate,
    hsaves⟩

/-- In every run, a frame that makes a generator leaves it where its slots were, and the generator
has what the frame had. -/
theorem Hosted.make_saves (h : Hosted (.create settings) log s)
    (hd : (Act.evalModule name module s).During log' m) {f : Frame} {low window : Array Value}
    {c : Control} {t : State} (hop : fetch m.state = .done .generator u) (hf : u.frame? = some f)
    (hstack : u.stack = low ++ window) (hbase : low.size = f.base)
    (hrun : execute .generator u = .done c t) :
    ∃ g o, t.stack = low.push (.object g) ∧ t.frames = u.frames.pop ∧ t.Tended ∧ t.heap.Interned ∧
      t.heap.get? g = some (.generator o) ∧ o.state = .started ∧ Saves o f window ∧
      ∀ x ∈ u.roots, ∀ p, p.isCode = true → u.heap.get? x = some p → t.heap.get? x = some p := by
  obtain ⟨htended, hi, -⟩ := h.fetched hd hop
  obtain ⟨g, o, hstack', hframes, ho, hstate, hsaves⟩ := make_run htended hi hf hstack hbase hrun
  have hmoves : State.Moves none u t := by
    have hturns := turns_makeGenerator u
    rw [show makeGenerator u = .done c t from hrun] at hturns
    exact hturns
  exact ⟨g, o, hstack', hframes, (htended.moves hi hmoves).1, hmoves.interned hi, ho, hstate, hsaves⟩

/-- In every run, suspending a generator and resuming it are inverse up to where the frame is. A
`yield` leaves the slots below the frame as they are; whenever the generator is called next, its
frame goes on behind the `yield` with the code and the slots that it had, the argument or null on
top of them, and with its handlers at the same heights from the base. A generator that has not run
begins with the slots that its frame had when it was made, and nothing else. -/
theorem Hosted.resumption_restores (h : Hosted (.create settings) log s)
    (hd : (Act.evalModule name module s).During log' m) :
    (∀ u f g low window v, fetch m.state = .done .yield u → u.frame? = some f →
      f.generator = some g → u.stack = (low ++ window).push v → low.size = f.base →
      ∃ t, execute .yield u = .done .next t ∧ t.stack = low.push v ∧ t.frames = u.frames.pop ∧
        Continues g f window (fun sent => #[sent.getD .null]) t) ∧
    ∀ u f low window c t, fetch m.state = .done .generator u → u.frame? = some f →
      u.stack = low ++ window → low.size = f.base → execute .generator u = .done c t →
      ∃ g, t.stack = low.push (.object g) ∧ t.frames = u.frames.pop ∧
        Continues g f window (fun _ => #[]) t := by
  constructor
  · intro u f g low window v hop hf hg hstack hbase
    obtain ⟨t, o, hrun, hstack', hframes, htended, hi, ho, hstate, hsaves, -⟩ :=
      h.yield_saves hd hop hf hg hstack hbase
    have hcontinues := continues_of_saves htended hi ho (.inr hstate) hsaves
    simp only [hstate, if_true] at hcontinues
    exact ⟨t, hrun, hstack', hframes, hcontinues⟩
  · intro u f low window c t hop hf hstack hbase hrun
    obtain ⟨g, o, hstack', hframes, htended, hi, ho, hstate, hsaves, -⟩ :=
      h.make_saves hd hop hf hstack hbase hrun
    have hcontinues := continues_of_saves htended hi ho (.inl hstate) hsaves
    simp only [hstate, reduceCtorEq, if_false] at hcontinues
    exact ⟨g, hstack', hframes, hcontinues⟩

/-- In every run, a generator finds its closure and its function as they were when its frame was
left, however many collections there are in between. So it goes on with the code that was
suspended. -/
theorem Hosted.resumption_finds_code (h : Hosted (.create settings) log s)
    (hd : (Act.evalModule name module s).During log' m) :
    (∀ u f g low window v, fetch m.state = .done .yield u → u.frame? = some f →
      f.generator = some g → u.stack = (low ++ window).push v → low.size = f.base →
      ∃ t, execute .yield u = .done .next t ∧ KeepsCode g f u t ∧
        ∀ function, u.function? f.function = some function →
          GoesOn g f function window (fun sent => #[sent.getD .null]) t) ∧
    ∀ u f low window c t, fetch m.state = .done .generator u → u.frame? = some f →
      u.stack = low ++ window → low.size = f.base → execute .generator u = .done c t →
      ∃ g, t.stack = low.push (.object g) ∧ KeepsCode g f u t ∧
        ∀ function, u.function? f.function = some function →
          GoesOn g f function window (fun _ => #[]) t := by
  constructor
  · intro u f g low window v hop hf hg hstack hbase
    obtain ⟨t, o, hrun, -, -, htended, hi, ho, hstate, hsaves, hcode⟩ :=
      h.yield_saves hd hop hf hg hstack hbase
    have hcontinues := continues_of_saves htended hi ho (.inr hstate) hsaves
    simp only [hstate, if_true] at hcontinues
    have hkeeps := keepsCode_of_saves htended hi ho (.inr hstate) hsaves fun x _ => hcode x
    exact ⟨t, hrun, hkeeps, fun _ hfunction => hkeeps.goesOn hcontinues hfunction⟩
  · intro u f low window c t hop hf hstack hbase hrun
    obtain ⟨g, o, hstack', -, htended, hi, ho, hstate, hsaves, hcode⟩ :=
      h.make_saves hd hop hf hstack hbase hrun
    have hcontinues := continues_of_saves htended hi ho (.inl hstate) hsaves
    simp only [hstate, reduceCtorEq, if_false] at hcontinues
    -- making the generator may collect, but its frame still holds the code then
    have hkeeps : KeepsCode g f u t := by
      refine keepsCode_of_saves htended hi ho (.inl hstate) hsaves fun x hx => hcode x ?_
      refine State.mem_roots_of_frame (State.mem_frames_of_frame? hf) ?_
      rcases hx with rfl | rfl <;> simp [Frame.handles]
    exact ⟨g, hstack', hkeeps, fun _ hfunction => hkeeps.goesOn hcontinues hfunction⟩

/-- The generator of the module yields null. It is called next from an almost empty stack: its slot
is back, with the argument on top of it. -/
theorem Hosted.resumption_restores_sleepingModule : ∃ log m u f t later w,
    (evalModule mainModule sleepingModule (.create .default)).During log m ∧
      yielding m = some (u, f, t) ∧ f.base = 1 ∧ u.stack.size = 3 ∧
      State.Rests ⟨149⟩ t later ∧ later.stack = #[.object ⟨149⟩, .bool true] ∧
      enterValue 1 later = .done .next w ∧ w.stack = #[u.stack.getD 1 .null, .bool true] := by
  obtain ⟨⟨log, m⟩, hm, hshown⟩ := Option.bind_eq_some_iff.1 trace_sleepingModule
  obtain ⟨⟨u, f, t⟩, hyield, hfacts⟩ := Option.map_eq_some_iff.1 hshown
  simp only [Prod.mk.injEq, decide_eq_true_eq] at hfacts
  obtain ⟨-, -, hlife, hbase, hgen, hsize, hfound, hroom⟩ := hfacts
  obtain ⟨hop, hf, hexecute⟩ := yielding_eq_some hyield
  obtain ⟨function, hfunction⟩ := Option.isSome_iff_exists.1 hfound
  have hd := Proc.during_of_trace hm
  have hstack : u.stack = (#[u.stack[0]] ++ #[u.stack[1]]).push u.stack[2] := by
    refine Array.ext (by simp [hsize]) fun i hi _ => ?_
    obtain rfl | rfl | rfl : i = 0 ∨ i = 1 ∨ i = 2 := by omega
    all_goals rfl
  obtain ⟨t', ht', -, -, hcontinues⟩ := (Hosted.resumption_restores .start hd).1 u f ⟨149⟩ _ _ _
    hop hf hgen hstack hbase.symm
  cases hexecute.symm.trans ht'
  let later : State := { t with stack := #[.object ⟨149⟩, .bool true] }
  have hrests : State.Rests ⟨149⟩ t later :=
    .single ⟨.inl (.hostChange (.stack _)), show (t.life ⟨149⟩).isResting = true from hlife ▸ rfl⟩
  obtain ⟨w, hw, hwstack, -⟩ := hcontinues later #[] (some (.bool true)) function hrests rfl hroom
    hfunction
  have hslots : w.stack = #[u.stack.getD 1 .null, .bool true] := by
    rw [hwstack]
    simp [hsize]
  exact ⟨log, m, u, f, t, later, w, hd, hyield, hbase, hsize, hrests, rfl, hw, hslots⟩

end Runs

end ScriptEngine
