import ScriptEngine.Proofs.Hosting

/-!
# Generators, classes and strings outlast what does not concern them

What host-side code and instructions change besides generators and classes makes none of them and
changes none in place. It may only free them, and frees none that the machine holds or that a
survivor refers to; the same goes for strings, for functions with their closures, and for functions
of the core module and the host. A turn that concerns generators leaves all these alone.
-/

namespace ScriptEngine

namespace Object

/-- Whether an object is of a kind that only turns make. -/
@[simp, reducible] def isTurned : Object → Bool
  | .generator _ | .classObject _ => true
  | _ => false

/-- Whether an object is of a kind that nothing but turns changes. -/
@[simp, reducible] def isFixed : Object → Bool
  | .generator _ | .classObject _ | .string _ | .native _ | .function _ | .closure _ _ => true
  | _ => false

/-- Whether an object is of a kind that nothing but turns that concern classes changes. -/
@[simp, reducible] def isSettled : Object → Bool
  | .classObject _ | .string _ | .native _ | .function _ | .closure _ _ => true
  | _ => false

/-- What turns apply to is fixed. -/
theorem isFixed_of_isTurned {o : Object} (h : o.isTurned = true) : o.isFixed = true := by
  cases o <;> simp_all

/-- What has settled is fixed. -/
theorem isFixed_of_isSettled {o : Object} (h : o.isSettled = true) : o.isFixed = true := by
  cases o <;> simp_all

/-- Functions and closures have settled. -/
theorem isSettled_of_isCode {o : Object} (h : o.isCode = true) : o.isSettled = true := by
  cases o <;> first | rfl | cases h

/-- Of an object of such a kind all stays. -/
theorem eq_of_shell {o o' : Object} (ho : o.isFixed = true) (h : o'.shell = o.shell) : o' = o := by
  cases o <;> cases o' <;> simp_all [shell]

end Object

namespace State

/-- Generators, classes, strings and functions of one state last until another one, unless nobody
holds them. -/
structure Lasts (s t : State) : Prop where
  core : t.core = s.core
  generators : t.generators = s.generators
  /-- No generator and no class is new. -/
  old : ∀ {x : Handle} {o : Object}, o.isTurned = true → t.heap.get? x = some o →
    s.heap.get? x = some o
  /-- What the machine or a survivor refers to has not been freed. -/
  kept : ∀ {x : Handle} {o : Object}, o.isFixed = true → s.heap.get? x = some o →
    (x ∈ s.roots ∨ ∃ y p, t.heap.get? y = some p ∧ x ∈ p.references) → t.heap.get? x = some o

variable {s t : State} {event : Option ClassEvent}

/-- States with the same objects, generators and core. -/
theorem lasts_of_get? (hc : t.core = s.core) (hg : t.generators = s.generators)
    (hh : ∀ x, t.heap.get? x = s.heap.get? x) : s.Lasts t where
  core := hc
  generators := hg
  old _ hx := by rwa [← hh]
  kept _ hx _ := by rwa [hh]

/-- A new object is of another kind. -/
theorem lasts_insert {heap : Heap} (ht : s.heap.Tidy) {o : Object} (ho : o.isTurned = false)
    (hget : ∀ x, heap.get? x = (s.heap.insert o).1.get? x) :
    s.Lasts { s with heap := heap } where
  core := rfl
  generators := rfl
  old := by
    intro x p hp hx
    have hx : heap.get? x = some p := hx
    rw [hget, Heap.get?_insert ht] at hx
    split at hx
    · cases hx
      rw [ho] at hp
      cases hp
    · exact hx
  kept := by
    intro x p _ hx _
    change heap.get? x = some p
    rw [hget, Heap.get?_insert_of_live ht _ (Heap.isLive_of_get? hx), hx]

/-- Host-side code makes no class and no generator, and changes none. -/
theorem lasts_hostChange (h : s.HostChange t) (ht : s.heap.Tidy) : s.Lasts t := by
  cases h with
  | heap h =>
    cases h with
    | insert o ho => exact lasts_insert ht (by cases o <;> simp_all) fun _ => rfl
    | intern data =>
      unfold Heap.intern
      dsimp only
      split
      · exact lasts_of_get? rfl rfl fun _ => rfl
      · exact lasts_insert ht rfl fun _ => rfl
    | update y f hf =>
      refine ⟨rfl, rfl, ?_, ?_⟩
      · intro x o ho hx
        have hx : (s.heap.update y f).get? x = some o := hx
        rw [Heap.get?_update] at hx
        split at hx
        · next heq =>
          obtain ⟨p, hp, rfl⟩ := Option.map_eq_some_iff.1 hx
          exact hp.trans (congrArg some
            (Object.eq_of_shell (Object.isFixed_of_isTurned ho) (hf p (heq ▸ hp)).symm))
        · exact hx
      · intro x o ho hx _
        change (s.heap.update y f).get? x = some o
        rw [Heap.get?_update]
        split
        · next heq => rw [hx, Option.map_some, Object.eq_of_shell ho (hf o (heq ▸ hx))]
        · exact hx
    | resize y => exact lasts_of_get? rfl rfl fun _ => Heap.get?_resize _ _ _
    | collect more =>
      have hsub : ∀ {x : Handle} {o : Object},
          (s.heap.collect (s.roots ++ more)).1.get? x = some o → s.heap.get? x = some o :=
        fun hx => Heap.get?_collect (Heap.isLive_of_get? hx) ▸ hx
      refine ⟨rfl, rfl, fun _ hx => hsub hx, fun _ hx hheld => ?_⟩
      refine (Heap.get?_collect_of_reaches ?_).trans hx
      obtain hroot | ⟨y, p, hy, hmem⟩ := hheld
      · exact .root (List.mem_append_left _ hroot)
      · exact (Heap.isLive_collect.1 (Heap.isLive_of_get? hy)).2.reference (hsub hy) hmem
    | disable count => exact lasts_of_get? rfl rfl fun _ => rfl
  | _ => exact lasts_of_get? rfl rfl fun _ => rfl

/-- What host-side code and instructions change besides generators and classes. -/
theorem NeutralChange.lasts (h : s.NeutralChange t) (ht : s.heap.Tidy) : s.Lasts t := by
  cases h with
  | hostChange h => exact lasts_hostChange h ht
  | code o ho => exact lasts_insert ht (by cases o <;> simp_all) fun _ => rfl
  | frames frames h => exact lasts_of_get? rfl h fun _ => rfl
  | _ => exact lasts_of_get? rfl rfl fun _ => rfl

end State

namespace Heap

variable {heap : Heap}

/-- The class behind a handle. -/
def class? (heap : Heap) (h : Handle) : Option ClassObject :=
  match heap.get? h with
  | some (.classObject c) => some c
  | _ => none

/-- A class is an object of the heap. -/
theorem class?_eq_some {x : Handle} {c : ClassObject} :
    heap.class? x = some c ↔ heap.get? x = some (.classObject c) := by
  unfold Heap.class?
  split <;> simp_all

/-- A string is an object of the heap. -/
theorem string?_eq_some {x : Handle} {text : StringObject} :
    heap.string? x = some text ↔ heap.get? x = some (.string text) := by
  unfold Heap.string?
  split <;> simp_all

end Heap

/-! ## What turns leave alone -/

namespace State

variable {s t : State} {event : Option ClassEvent}

/-- The same classes, strings and functions. -/
structure Retains (s t : State) : Prop where
  core : t.core = s.core
  objects : ∀ x o, o.isSettled = true → (t.heap.get? x = some o ↔ s.heap.get? x = some o)

/-- States that retain their objects, one after the other. -/
theorem Retains.trans {u : State} (h : s.Retains t) (h' : t.Retains u) : s.Retains u :=
  ⟨h'.core.trans h.core, fun x o ho => (h'.objects x o ho).trans (h.objects x o ho)⟩

/-- Classes are retained. -/
theorem Retains.class? (h : s.Retains t) (x : Handle) : t.heap.class? x = s.heap.class? x :=
  Option.ext fun c => by
    rw [Heap.class?_eq_some, Heap.class?_eq_some, h.objects x (.classObject c) rfl]

/-- Strings are retained. -/
theorem Retains.string? (h : s.Retains t) (x : Handle) : t.heap.string? x = s.heap.string? x :=
  Option.ext fun text => by
    rw [Heap.string?_eq_some, Heap.string?_eq_some, h.objects x (.string text) rfl]

/-- Of objects that only turns change nothing is different. -/
theorem Alike.get?_iff (h : s.Alike t) {x : Handle} {o : Object} (ho : o.isFixed = true) :
    t.heap.get? x = some o ↔ s.heap.get? x = some o := by
  have hx := h.objects x
  constructor
  · intro ht
    rw [ht, Option.map_some] at hx
    obtain ⟨p, hp, hshell⟩ := Option.map_eq_some_iff.1 hx.symm
    rw [hp, Object.eq_of_shell ho hshell]
  · intro hs
    rw [hs, Option.map_some] at hx
    obtain ⟨p, hp, hshell⟩ := Option.map_eq_some_iff.1 hx
    rw [hp, Object.eq_of_shell ho hshell]

/-- A generator is an object of the heap. -/
theorem generator?_eq_some {x : Handle} {g : GeneratorObject} :
    s.generator? x = some g ↔ s.heap.get? x = some (.generator g) := by
  unfold generator?
  split <;> simp_all

/-- Alike states have the same generators. -/
theorem Alike.generator? (h : s.Alike t) (x : Handle) : t.generator? x = s.generator? x :=
  Option.ext fun g => by rw [generator?_eq_some, generator?_eq_some, h.get?_iff rfl]

/-- States with one heap retain everything. -/
theorem retains_of_heap (hc : t.core = s.core) (h : t.heap = s.heap) : s.Retains t :=
  ⟨hc, fun _ _ _ => by rw [h]⟩

/-- Alike states retain everything. -/
theorem Alike.retains (h : s.Alike t) : s.Retains t :=
  ⟨h.core, fun _ _ ho => h.get?_iff (Object.isFixed_of_isSettled ho)⟩

/-- What an object is after a change in place. -/
theorem get?_update (s : State) (y x : Handle) (f : Object → Object) :
    (s.update y f).heap.get? x = if x = y then (s.heap.get? x).map f else s.heap.get? x := by
  change ((s.heap.update y f).resize y).get? x = _
  rw [Heap.get?_resize, Heap.get?_update]

/-- A generator changes in place. -/
theorem retains_mapGenerator (s : State) (y : Handle) (f : GeneratorObject → GeneratorObject) :
    s.Retains (s.update y (Object.mapGenerator f)) := by
  refine ⟨rfl, fun x o ho => ?_⟩
  rw [get?_update]
  split
  · cases hx : s.heap.get? x with
    | none => rfl
    | some p =>
      rw [Option.map_some, Option.some.injEq, Option.some.injEq]
      cases p with
      | generator g =>
        constructor <;>
        · rintro rfl
          cases ho
      | _ => rfl
  · rfl

/-- What a generator is after a change in place. -/
theorem generator?_mapGenerator (s : State) (y x : Handle)
    (f : GeneratorObject → GeneratorObject) :
    (s.update y (Object.mapGenerator f)).generator? x =
      if x = y then (s.generator? x).map f else s.generator? x := by
  unfold generator?
  rw [get?_update]
  by_cases h : x = y
  · rw [if_pos h, if_pos h]
    cases s.heap.get? x with
    | none => rfl
    | some o => cases o <;> rfl
  · rw [if_neg h, if_neg h]

/-- Completing a generator changes its state and empties it. -/
theorem finishGenerator_eq (s : State) (g : Handle) : s.finishGenerator g =
    s.update g (Object.mapGenerator fun o => { o with state := .done, stack := #[], handlers := [] }) :=
  rfl

/-- A new generator. -/
theorem retains_insert (ht : s.heap.Tidy) (g : GeneratorObject) :
    s.Retains { s with heap := (s.heap.insert (.generator g)).1 } := by
  refine ⟨rfl, fun x o ho => ⟨fun hx => ?_, fun hx => ?_⟩⟩
  · have hx : (s.heap.insert (.generator g)).1.get? x = some o := hx
    rw [Heap.get?_insert ht] at hx
    split at hx
    · cases hx
      cases ho
    · exact hx
  · exact (Heap.get?_insert_of_live ht _ (Heap.isLive_of_get? hx)).trans hx

/-- Leaving a frame retains classes and strings. -/
theorem Leave.retains (h : s.Leave t) : s.Retains t := by
  obtain ⟨f, -, ha⟩ := h
  refine Retains.trans ?_ ((alike_closeUpvalues _ f.base).trans ha).retains
  have hdrop : s.Retains s.dropFrame := retains_of_heap rfl rfl
  cases f.generator with
  | none => exact hdrop
  | some g => exact hdrop.trans (s.dropFrame.retains_mapGenerator g _)

/-- So does leaving frames. -/
theorem retains_leaves (h : Relation.ReflTransGen Leave s t) : s.Retains t := by
  induction h with
  | refl => exact retains_of_heap rfl rfl
  | tail _ hl ih => exact ih.trans hl.retains

/-- A turn that concerns generators leaves classes and strings alone. -/
theorem Turn.retains (h : Turn none s t) (ht : s.heap.Tidy) : s.Retains t := by
  cases h with
  | leave h => exact retains_leaves h
  | make o ho h => exact (retains_insert ht o).trans (retains_leaves h)
  | @resume _ g o f hg ho hf =>
    refine ⟨rfl, fun x p hp => ?_⟩
    rw [heap_awaken, Heap.get?_update]
    split
    · next heq =>
      rw [heq, hg, Option.map_some, Option.some.injEq, Option.some.injEq]
      constructor <;>
      · rintro rfl
        cases hp
    · rfl
  | @suspend _ f g hf hg change hc =>
    have hdrop : s.Retains s.dropFrame := retains_of_heap rfl rfl
    exact hdrop.trans (s.dropFrame.retains_mapGenerator g change)
  | close hf hg => exact s.retains_mapGenerator _ _

end State

/-! ## What happens to classes -/

namespace Heap

variable {heap : Heap}

section Changes

variable (heap) (x y : Handle) (f : ClassObject → ClassObject)

/-- What a class is after a change in place. -/
theorem class?_mapClass {c : ClassObject} (hc : heap.class? y = some c) :
    ((heap.update y (Object.mapClass f)).resize y).class? x =
      if x = y then some (f c) else heap.class? x := by
  unfold Heap.class?
  rw [get?_resize, get?_update]
  by_cases h : x = y
  · rw [if_pos h, if_pos h, h, class?_eq_some.1 hc]
    rfl
  · rw [if_neg h, if_neg h]

/-- Strings are as they were. -/
theorem string?_mapClass :
    ((heap.update y (Object.mapClass f)).resize y).string? x = heap.string? x := by
  unfold Heap.string?
  rw [get?_resize, get?_update]
  by_cases h : x = y
  · rw [if_pos h]
    cases heap.get? x with
    | none => rfl
    | some o => cases o <;> rfl
  · rw [if_neg h]

variable {heap}

/-- Nothing is behind the handle of a new object before it is made. -/
theorem get?_fresh (ht : heap.Tidy) (o : Object) : heap.get? (heap.insert o).2 = none := by
  have hdead := (ht.insert_cells o).1
  rwa [Heap.isLive, Option.isSome_eq_false_iff, Option.isNone_iff_eq_none] at hdead

/-- A new handle is of no class yet. -/
theorem class?_fresh (ht : heap.Tidy) (o : Object) : heap.class? (heap.insert o).2 = none := by
  unfold Heap.class?
  rw [get?_fresh ht]

/-- A class is made. -/
theorem class?_made (ht : heap.Tidy) (c : ClassObject) :
    (heap.insert (.classObject c)).1.class? x =
      if x = (heap.insert (.classObject c)).2 then some c else heap.class? x := by
  unfold Heap.class?
  rw [get?_insert ht]
  by_cases h : x = (heap.insert (.classObject c)).2
  · rw [if_pos h, if_pos h]
  · rw [if_neg h, if_neg h]

/-- Strings are as they were before. -/
theorem string?_made (ht : heap.Tidy) (c : ClassObject) :
    (heap.insert (.classObject c)).1.string? x = heap.string? x := by
  unfold Heap.string?
  rw [get?_insert ht]
  by_cases h : x = (heap.insert (.classObject c)).2
  · rw [if_pos h, h, get?_fresh ht]
  · rw [if_neg h]

end Changes

end Heap

namespace State

/-- Generators are as they were when a class changes. -/
theorem generator?_mapClass (s : State) (x y : Handle) (f : ClassObject → ClassObject) :
    (s.update y (Object.mapClass f)).generator? x = s.generator? x := by
  unfold generator?
  rw [get?_update]
  by_cases h : x = y
  · rw [if_pos h]
    cases s.heap.get? x with
    | none => rfl
    | some o => cases o <;> rfl
  · rw [if_neg h]

/-- They are as they were when a class is made. -/
theorem generator?_made (s : State) (x : Handle) (ht : s.heap.Tidy) (c : ClassObject) :
    State.generator? { s with heap := (s.heap.insert (.classObject c)).1 } x = s.generator? x := by
  unfold generator?
  rw [Heap.get?_insert ht]
  by_cases h : x = (s.heap.insert (.classObject c)).2
  · rw [if_pos h, h, Heap.get?_fresh ht]
  · rw [if_neg h]

end State

end ScriptEngine
