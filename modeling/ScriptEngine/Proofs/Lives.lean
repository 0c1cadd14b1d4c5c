import ScriptEngine.Proofs.Lasting

/-!
# The lives of generators

A generator is made, runs whenever it is resumed, in a frame of its own, and ends. Its object says
whether it has ended, and may say so while the frame is still there: code that closes a generator
says so before the frame is left. Until then the frame may go on at a handler and even yield, so that
the generator is suspended again. Apart from that a generator that has ended stays so.
-/

namespace ScriptEngine

open Bytecode

/-- Where a generator stands. -/
inductive Life where
  /-- Nothing, or something else, is behind the handle. -/
  | absent
  | started
  | running
  | suspended
  /-- It has ended, but its frame is still there. -/
  | closing
  /-- It has ended and has no frame. -/
  | done
  deriving DecidableEq, Repr

namespace Life

/-- Whether a generator has a frame. -/
@[simp, reducible] def isFramed : Life → Bool
  | .running | .closing => true
  | _ => false

/-- What may become of a generator. -/
inductive Turns : Life → Life → Prop
  | make : Turns .absent .started
  | start : Turns .started .running
  | suspend : Turns .running .suspended
  | resume : Turns .suspended .running
  | finish : Turns .running .done
  | close : Turns .running .closing
  | leave : Turns .closing .done
  /-- Closed code yields. -/
  | revive : Turns .closing .suspended

/-- A generator with a frame may end. -/
theorem turns_done {a : Life} (h : a.isFramed = true) : a.Turns .done := by
  cases a with
  | running => exact .finish
  | closing => exact .leave
  | _ => cases h

/-- A generator with a frame may be suspended. -/
theorem turns_suspended {a : Life} (h : a.isFramed = true) : a.Turns .suspended := by
  cases a with
  | running => exact .suspend
  | closing => exact .revive
  | _ => cases h

/-- A generator that has no frame may be freed. -/
def Frees (a b : Life) : Prop := a.isFramed = false ∧ b = .absent

/-- What may become of a generator in one step, before which it may be freed. -/
def Steps (a b : Life) : Prop := ∃ c, (c = a ∨ a.Frees c) ∧ (b = c ∨ c.Turns b)

end Life

namespace State

/-- Where a generator stands. -/
def life (s : State) (g : Handle) : Life :=
  match s.generator? g with
  | none => .absent
  | some o =>
    match o.state with
    | .started => .started
    | .running => .running
    | .suspended => .suspended
    | .done => if g ∈ s.generators then .closing else .done

/-- Generators have frames while they run, and after that at most until they are left. -/
structure Tended (s : State) : Prop where
  /-- No generator has two frames. -/
  nodup : s.generators.Nodup
  framed : ∀ g, g ∈ s.generators ↔ (s.life g).isFramed = true

section Lives

variable {s t : State} {g : Handle} {o : GeneratorObject}

/-- The life of a generator depends on its object and on whether it has a frame. -/
theorem life_congr (hg : g ∈ t.generators ↔ g ∈ s.generators)
    (h : t.generator? g = s.generator? g) : t.life g = s.life g := by
  unfold life
  simp only [h, hg]

/-- A handle that is no generator lives no life. -/
theorem life_of_none (h : s.generator? g = none) : s.life g = .absent := by
  unfold life
  rw [h]

/-- The life a generator leads is read off the state its object is in. -/
theorem life_of_state (h : s.generator? g = some o) : s.life g =
    match o.state with
    | .started => .started
    | .running => .running
    | .suspended => .suspended
    | .done => if g ∈ s.generators then .closing else .done := by
  unfold life
  rw [h]

/-! ## Changes -/

/-- A generator with a frame is reachable. -/
theorem mem_roots_of_generators (h : g ∈ s.generators) : g ∈ s.roots := by
  obtain ⟨f, hf, hg⟩ := List.mem_filterMap.1 h
  have hframe : g ∈ s.frames.toList.flatMap
      fun f => f.closure :: f.function :: f.generator.toList :=
    List.mem_flatMap.2 ⟨f, hf, by simp [hg]⟩
  unfold roots
  simp only [List.mem_append]
  exact .inl (.inl (.inl (.inr hframe)))

/-- What keeps all generators, and frames for them, keeps their lives. -/
theorem Tended.congr (hs : s.Tended) (hg : t.generators = s.generators)
    (h : ∀ g, t.generator? g = s.generator? g) :
    t.Tended ∧ ∀ g, t.life g = s.life g := by
  have hlife : ∀ g, t.life g = s.life g := fun g => life_congr (by rw [hg]) (h g)
  exact ⟨⟨hg ▸ hs.nodup, fun g => by rw [hg, hs.framed, hlife]⟩, hlife⟩

/-- What concerns no generator leaves all be, but may free those without a frame. -/
theorem Tended.lasts (hs : s.Tended) (h : s.Lasts t) :
    t.Tended ∧ ∀ g, t.life g = s.life g ∨ (s.life g).Frees (t.life g) := by
  have hlife : ∀ g, t.life g = s.life g ∨ (s.life g).Frees (t.life g) := by
    intro g
    cases ht : t.generator? g with
    | some o =>
      refine .inl (life_congr (by rw [h.generators]) ?_)
      rw [ht, generator?_eq_some.2 (h.old rfl (generator?_eq_some.1 ht))]
    | none =>
      cases hg : s.generator? g with
      | none => exact .inl (life_congr (by rw [h.generators]) (ht.trans hg.symm))
      | some o =>
        refine .inr ⟨?_, life_of_none ht⟩
        rw [Bool.eq_false_iff, Ne, ← hs.framed g]
        intro hmem
        have hkept := h.kept rfl (generator?_eq_some.1 hg) (.inl (mem_roots_of_generators hmem))
        rw [generator?_eq_some.2 hkept] at ht
        cases ht
  refine ⟨⟨h.generators ▸ hs.nodup, fun g => ?_⟩, hlife⟩
  rw [h.generators, hs.framed]
  obtain heq | ⟨hnot, habsent⟩ := hlife g
  · rw [heq]
  · simp [hnot, habsent]

/-- Only one generator changes. -/
theorem Tended.change {r : Life → Life → Prop} (hs : s.Tended) (g : Handle)
    (hother : ∀ x, x ≠ g → (x ∈ t.generators ↔ x ∈ s.generators) ∧
      t.generator? x = s.generator? x)
    (hnodup : t.generators.Nodup) (hframed : g ∈ t.generators ↔ (t.life g).isFramed = true)
    (hr : t.life g = s.life g ∨ r (s.life g) (t.life g)) :
    t.Tended ∧ ∀ x, t.life x = s.life x ∨ r (s.life x) (t.life x) := by
  have hsame : ∀ x, x ≠ g → t.life x = s.life x := fun x hx =>
    life_congr (hother x hx).1 (hother x hx).2
  refine ⟨⟨hnodup, fun x => ?_⟩, fun x => ?_⟩
  · by_cases heq : x = g
    · rwa [heq]
    · rw [(hother x heq).1, hsame x heq, hs.framed]
  · by_cases heq : x = g
    · exact heq ▸ hr
    · exact .inl (hsame x heq)

/-! ## Turns -/

/-- The innermost frame is the last one. -/
theorem generators_dropFrame {f : Frame} (hf : s.frame? = some f) :
    s.generators = s.dropFrame.generators ++ f.generator.toList :=
  calc s.generators = generatorsOf (s.frames.pop.push f) := by rw [← frames_eq_push hf]; rfl
    _ = s.dropFrame.generators ++ f.generator.toList := generatorsOf_push _ f

/-- The generator of the frame that is left has ended. -/
theorem Leave.ends (h : s.Leave t) : ∃ f, s.frame? = some f ∧
    s.generators = t.generators ++ f.generator.toList ∧
    ∀ g, t.generator? g =
      if f.generator = some g then
        (s.generator? g).map fun o => { o with state := .done, stack := #[], handlers := [] }
      else s.generator? g := by
  obtain ⟨f, hf, ha⟩ := h
  have hleft := (alike_closeUpvalues _ f.base).trans ha
  refine ⟨f, hf, ?_, fun g => ?_⟩
  · rw [generators_dropFrame hf, hleft.generators]
    cases f.generator <;> rfl
  · rw [hleft.generator?]
    cases hg : f.generator with
    | none => rfl
    | some y =>
      dsimp only
      rw [finishGenerator_eq, generator?_mapGenerator]
      by_cases heq : g = y
      · rw [if_pos heq, if_pos (by rw [heq])]
        rfl
      · rw [if_neg heq, if_neg fun h => heq (Option.some.inj h).symm]
        rfl

/-- The generator of a frame is under way. -/
theorem Tended.exists_of_mem (hs : s.Tended) (hg : g ∈ s.generators) :
    ∃ o, s.generator? g = some o ∧ (o.state = .running ∨ o.state = .done) := by
  have hframed := (hs.framed g).1 hg
  cases ho : s.generator? g with
  | none =>
    rw [life_of_none ho] at hframed
    cases hframed
  | some o =>
    rw [life_of_state ho] at hframed
    refine ⟨o, rfl, ?_⟩
    cases hstate : o.state with
    | running => exact .inl rfl
    | done => exact .inr rfl
    | _ => simp [hstate] at hframed

/-- What the end of a frame does to a generator. -/
def Ends (a b : Life) : Prop := a.isFramed = true ∧ b = .done

/-- The generator of the innermost frame ends. -/
theorem Tended.leave (hs : s.Tended) (h : s.Leave t) :
    t.Tended ∧ ∀ x, t.life x = s.life x ∨ Ends (s.life x) (t.life x) := by
  obtain ⟨f, hf, hback, hget⟩ := h.ends
  cases hg : f.generator with
  | none =>
    simp only [hg] at hback hget
    have hsame := hs.congr (t := t) (by simpa using hback.symm) hget
    exact ⟨hsame.1, fun x => .inl (hsame.2 x)⟩
  | some g =>
    simp only [hg, Option.toList_some, Option.some.injEq] at hback hget
    have hnodup := hs.nodup
    rw [hback] at hnodup
    have hmem : g ∈ s.generators := by simp [hback]
    have hnot : g ∉ t.generators :=
      fun ht => List.disjoint_of_nodup_append hnodup ht (List.mem_singleton_self g)
    have hdone : t.life g = .done := by
      obtain ⟨o, ho, -⟩ := hs.exists_of_mem hmem
      have hended := hget g
      rw [if_pos rfl, ho, Option.map_some] at hended
      rw [life_of_state hended]
      exact if_neg hnot
    refine hs.change g (fun x hx => ⟨by simp [hback, hx], ?_⟩) hnodup.of_append_left ?_
      (.inr ⟨(hs.framed g).1 hmem, hdone⟩)
    · rw [hget, if_neg (Ne.symm hx)]
    · simp [hdone, hnot]

/-- Frames that are left end their generators and touch no other. -/
theorem Tended.leaves (hs : s.Tended) (h : Relation.ReflTransGen Leave s t) :
    t.Tended ∧ ∀ x, t.life x = s.life x ∨ Ends (s.life x) (t.life x) := by
  induction h with
  | refl => exact ⟨hs, fun _ => .inl rfl⟩
  | tail _ hl ih =>
    obtain ⟨ht, hthen⟩ := ih.1.leave hl
    refine ⟨ht, fun x => ?_⟩
    obtain hsame | ⟨hframed, hdone⟩ := hthen x
    · rw [hsame]
      exact ih.2 x
    · refine .inr ⟨?_, hdone⟩
      obtain hfirst | ⟨hfirst, -⟩ := ih.2 x
      · rwa [hfirst] at hframed
      · exact hfirst

/-- After a generator was inserted, its handle stands for it and every other for what it stood
for. -/
theorem generator?_insert (ht : s.heap.Tidy) (o : GeneratorObject) (x : Handle) :
    State.generator? { s with heap := (s.heap.insert (.generator o)).1 } x =
      if x = (s.heap.insert (.generator o)).2 then some o else s.generator? x := by
  unfold generator?
  rw [Heap.get?_insert ht]
  by_cases h : x = (s.heap.insert (.generator o)).2
  · rw [if_pos h, if_pos h]
  · rw [if_neg h, if_neg h]

/-- A generator that is made has no frame. -/
theorem Tended.make (hs : s.Tended) (ht : s.heap.Tidy) (ho : o.state = .started)
    {u : State} (hu : u = { s with heap := (s.heap.insert (.generator o)).1 }) :
    u.Tended ∧ ∀ x, u.life x = s.life x ∨ (s.life x = .absent ∧ u.life x = .started) := by
  subst hu
  have hget := s.generator?_insert ht o
  have habsent : s.life (s.heap.insert (.generator o)).2 = .absent :=
    life_of_none (by unfold generator?; rw [Heap.get?_fresh ht])
  have hstarted : State.life { s with heap := (s.heap.insert (.generator o)).1 }
      (s.heap.insert (.generator o)).2 = .started := by
    rw [life_of_state ((hget _).trans (if_pos rfl)), ho]
  refine hs.change (r := fun a b => a = .absent ∧ b = .started) _
    (fun x hx => ⟨.rfl, by rw [hget, if_neg hx]⟩) hs.nodup ?_ (.inr ⟨habsent, hstarted⟩)
  exact (hs.framed _).trans (by rw [habsent, hstarted])

/-- A generator that is resumed has a frame from then on. -/
theorem Tended.awaken (hs : s.Tended) (hg : s.heap.get? g = some (.generator o))
    (ho : o.state = .started ∨ o.state = .suspended) {f : Frame} (hf : f.generator = some g) :
    (s.awaken g o f).Tended ∧
      ∀ x, (s.awaken g o f).life x = s.life x ∨ (s.life x).Turns ((s.awaken g o f).life x) := by
  have hlife : s.life g = .started ∨ s.life g = .suspended := by
    rw [life_of_state (generator?_eq_some.2 hg)]
    exact ho.imp (fun h => by rw [h]) fun h => by rw [h]
  have hback : (s.awaken g o f).generators = s.generators ++ [g] := by
    change generatorsOf (s.frames.push f) = _
    rw [generatorsOf_push, hf]
    rfl
  have hnot : g ∉ s.generators := by
    rw [hs.framed]
    obtain h | h := hlife <;> simp [h]
  have hget : ∀ x, (s.awaken g o f).generator? x =
      if x = g then some { o with state := .running, stack := #[], handlers := [] }
      else s.generator? x := by
    intro x
    unfold generator?
    rw [heap_awaken, Heap.get?_update]
    by_cases heq : x = g
    · rw [if_pos heq, if_pos heq, heq, hg]
      rfl
    · rw [if_neg heq, if_neg heq]
  have hrunning : (s.awaken g o f).life g = .running :=
    life_of_state ((hget g).trans (if_pos rfl))
  refine hs.change g (fun x hx => ⟨by simp [hback, hx], by rw [hget, if_neg hx]⟩) ?_ ?_ (.inr ?_)
  · rw [hback]
    exact hs.nodup.append (List.nodup_singleton g) (by simpa using hnot)
  · simp [hback, hrunning]
  · rw [hrunning]
    obtain h | h := hlife
    · exact h ▸ .start
    · exact h ▸ .resume

/-- A generator that yields has no frame from then on. -/
theorem Tended.suspend (hs : s.Tended) {f : Frame} (hf : s.frame? = some f)
    (hg : f.generator = some g) {change : GeneratorObject → GeneratorObject}
    (hc : ∀ o, (change o).state = .suspended) {u : State}
    (hu : u = s.dropFrame.update g (Object.mapGenerator change)) :
    u.Tended ∧ ∀ x, u.life x = s.life x ∨ (s.life x).Turns (u.life x) := by
  have hback : s.generators = u.generators ++ [g] := by
    rw [generators_dropFrame hf, hg, hu]
    rfl
  have hnodup := hs.nodup
  rw [hback] at hnodup
  have hmem : g ∈ s.generators := by simp [hback]
  have hnot : g ∉ u.generators :=
    fun ht => List.disjoint_of_nodup_append hnodup ht (List.mem_singleton_self g)
  have hget : ∀ x, u.generator? x = if x = g then (s.generator? x).map change
      else s.generator? x := fun x => hu ▸ s.dropFrame.generator?_mapGenerator g x change
  have hsuspended : u.life g = .suspended := by
    obtain ⟨o, ho, -⟩ := hs.exists_of_mem hmem
    have hchanged := hget g
    rw [if_pos rfl, ho, Option.map_some] at hchanged
    rw [life_of_state hchanged, hc]
  refine hs.change g (fun x hx => ⟨by simp [hback, hx], by rw [hget, if_neg hx]⟩)
    hnodup.of_append_left ?_ (.inr ?_)
  · simp [hsuspended, hnot]
  · rw [hsuspended]
    exact Life.turns_suspended ((hs.framed g).1 hmem)

/-- A generator that is closed has a frame all the same. -/
theorem Tended.close (hs : s.Tended) (hmem : g ∈ s.generators) : (s.finishGenerator g).Tended ∧
      ∀ x, (s.finishGenerator g).life x = s.life x ∨
        (s.life x).Turns ((s.finishGenerator g).life x) := by
  have hget : ∀ x, (s.finishGenerator g).generator? x = _ := fun x =>
    s.generator?_mapGenerator g x fun o => { o with state := .done, stack := #[], handlers := [] }
  have hclosing : (s.finishGenerator g).life g = .closing := by
    obtain ⟨o, ho, -⟩ := hs.exists_of_mem hmem
    have hended := hget g
    rw [if_pos rfl, ho, Option.map_some] at hended
    rw [life_of_state hended]
    exact if_pos hmem
  have hframed := (hs.framed g).1 hmem
  refine hs.change g (fun x hx => ⟨.rfl, by rw [hget, if_neg hx]⟩) hs.nodup ?_ ?_
  · exact ⟨fun _ => by rw [hclosing], fun _ => hmem⟩
  · rw [hclosing]
    cases hlife : s.life g with
    | running => exact .inr .close
    | closing => exact .inl rfl
    | _ => simp [hlife] at hframed

/-- Every turn. -/
theorem Tended.turn (hs : s.Tended) (ht : s.heap.Tidy) {event : Option ClassEvent}
    (h : Turn event s t) : t.Tended ∧ ∀ x, t.life x = s.life x ∨ (s.life x).Turns (t.life x) := by
  have hsame : t.Tended ∧ (∀ x, t.life x = s.life x) →
      t.Tended ∧ ∀ x, t.life x = s.life x ∨ (s.life x).Turns (t.life x) :=
    fun h => ⟨h.1, fun x => .inl (h.2 x)⟩
  cases h with
  | leave h =>
    obtain ⟨hleft, hlife⟩ := hs.leaves h
    exact ⟨hleft, fun x => (hlife x).imp_right fun ⟨hframed, hdone⟩ =>
      hdone ▸ Life.turns_done hframed⟩
  | make o ho h =>
    obtain ⟨hmade, hfirst⟩ := hs.make ht ho rfl
    obtain ⟨hleft, hthen⟩ := hmade.leaves h
    refine ⟨hleft, fun x => ?_⟩
    obtain heq | ⟨hframed, hdone⟩ := hthen x <;> obtain heq' | ⟨habsent, hstarted⟩ := hfirst x
    · exact .inl (heq.trans heq')
    · rw [heq, habsent, hstarted]
      exact .inr .make
    · rw [← heq', hdone]
      exact .inr (Life.turns_done hframed)
    · rw [hstarted] at hframed
      cases hframed
  | resume hg ho hf => exact hs.awaken hg ho hf
  | suspend hf hg change hc => exact hs.suspend hf hg hc rfl
  | close hf hg => exact hs.close (by simp [generators_dropFrame hf, hg])
  | made text => exact hsame (hs.congr rfl fun x => s.generator?_made x ht _)
  | inherits hc hp hb => exact hsame (hs.congr rfl fun x => s.generator?_mapClass x _ _)
  | defines method hc hn => exact hsame (hs.congr rfl fun x => s.generator?_mapClass x _ _)

/-- What concerns no generator, any number of times. -/
theorem Tended.neutralChanges (hs : s.Tended) (hi : s.heap.Interned) (h : s.NeutralChanges t) :
    t.Tended ∧ ∀ x, t.life x = s.life x ∨ (s.life x).Frees (t.life x) := by
  induction h with
  | refl => exact ⟨hs, fun _ => .inl rfl⟩
  | tail hst hc ih =>
    obtain ⟨ht, hthen⟩ := ih.1.lasts (hc.lasts (NeutralChanges.interned hst hi).toTidy)
    refine ⟨ht, fun x => ?_⟩
    obtain heq | ⟨hframed, habsent⟩ := hthen x
    · rw [heq]
      exact ih.2 x
    · refine .inr ⟨?_, habsent⟩
      obtain hfirst | ⟨hfirst, -⟩ := ih.2 x
      · rwa [hfirst] at hframed
      · exact hfirst

/-- A turn with what goes before and after it. -/
theorem Tended.moves (hs : s.Tended) (hi : s.heap.Interned) {event : Option ClassEvent}
    (h : Moves event s t) : t.Tended ∧ ∀ x, (s.life x).Steps (t.life x) := by
  obtain ⟨u, v, hu, hturn, hv⟩ := h
  obtain ⟨htended, hfirst⟩ := hs.neutralChanges hi hu
  obtain ⟨hturned, hthen⟩ := htended.turn (hu.interned hi).toTidy hturn
  obtain ⟨hlast, hsame⟩ := hturned.congr hv.generators hv.generator?
  exact ⟨hlast, fun x => ⟨u.life x, hfirst x, hsame x ▸ hthen x⟩⟩

end Lives

/-! ## Runs -/

/-- A machine that has run nothing has no generators. -/
theorem tended_create (settings : Settings) : (State.create settings).Tended := by
  have hframes := (State.fresh_create settings).1.frames
  have hcodeless := (State.allLand_create (fun _ => True) settings).2
  have hnone : (State.create settings).generators = [] := by
    unfold generators
    rw [hframes]
    rfl
  refine ⟨hnone ▸ List.nodup_nil, fun g => ?_⟩
  have habsent : (State.create settings).generator? g = none := by
    rw [Option.eq_none_iff_forall_ne_some]
    intro o ho
    cases hcodeless.inert _ _ (generator?_eq_some.1 ho)
  rw [hnone, life_of_none habsent]
  exact iff_of_false List.not_mem_nil Bool.false_ne_true

end State

/-- What a run does keeps generators in tune with their frames. -/
theorem kept_tended : Kept fun _ s => s.Tended where
  neutral hi h hc := (h.lasts (hc.lasts hi.toTidy)).1
  turn hi h ht := (h.turn hi.toTidy ht).1
  alike _ h ha := (h.congr ha.generators ha.generator?).1

/-- In every run, generators have frames while they run, one each, and only closed ones keep theirs
after they have ended. Every step starts, suspends, resumes or ends them, or frees those without a
frame; those that have ended and are left stay so, but those that are closed may still yield. -/
theorem Hosted.generators_live {settings : Settings} {log log' : List ClassEvent} {s : State}
    (h : Hosted (.create settings) log s) {name : String} {module : Bytecode.Module} {m : Machine}
    (hd : (Act.evalModule name module s).During log' m) :
    m.state.generators.Nodup ∧
      (∀ g, g ∈ m.state.generators ↔ (m.state.life g).isFramed = true) ∧
      (∀ m', m.step = .running m' → ∀ g, (m.state.life g).Steps (m'.state.life g)) ∧
      ∀ ok t, m.step = .ended ok t →
        ∀ g, t.life g = m.state.life g ∨ (m.state.life g).Frees (t.life g) := by
  obtain ⟨hsteady, hbecomes⟩ := h.during hd
  have htended : m.state.Tended := kept_tended.throughout hbecomes
    (State.fresh_create settings).1.interned (State.tended_create settings)
  refine ⟨htended.nodup, htended.framed, fun m' hstep => ?_, fun ok t hend => ?_⟩
  · exact (htended.moves hsteady.interned (hsteady.moves hstep)).2
  · exact (htended.neutralChanges hsteady.interned (hsteady.ended hend).2).2

/-- Top-level code that makes a generator and resumes it; the generator yields. -/
def sleepingModule : Bytecode.Module where
  file := ""
  main :=
    { name := ""
      arity := 0
      defaults := #[]
      vararg := false
      upvalueCount := 0
      chunk :=
        { code := #[.closure 0 [], .callShort 0, .callShort 0, .pop, .null, .return]
          constants := #[.function
            { name := "sleeper"
              arity := 0
              defaults := #[]
              vararg := false
              upvalueCount := 0
              chunk := ⟨#[.generator, .null, .yield, .generatorClose, .return], #[], ⟨#[⟨1, 5⟩]⟩⟩ }]
          lines := ⟨#[⟨1, 6⟩]⟩ } }

/-- What a step makes of the lives of the generators that have frames. -/
def Machine.livesAfter (m : Machine) : List Life :=
  match m.step with
  | .running m' => m.state.generators.map m'.state.life
  | _ => []

/-- A machine that is about to yield: the state and the frame that yield, and the state after that. -/
def yielding (m : Machine) : Option (State × Frame × State) :=
  match Act.fetch m.state with
  | .done .yield u =>
    match u.frame?, Act.execute .yield u with
    | some f, .done .next t => some (u, f, t)
    | _, _ => none
  | _ => none

/-- A machine is yielding exactly when it has come to a `yield` and can execute it. -/
theorem yielding_eq_some {m : Machine} {u t : State} {f : Frame}
    (h : yielding m = some (u, f, t)) :
    Act.fetch m.state = .done .yield u ∧ u.frame? = some f ∧ Act.execute .yield u = .done .next t := by
  unfold yielding at h
  split at h
  · next u' hop =>
    split at h
    · next f' t' hf hrun =>
      cases h
      exact ⟨hop, hf, hrun⟩
    · cases h
  · cases h

/-- Eight steps on, the generator is about to yield, and it is suspended when it has. -/
theorem trace_sleepingModule :
    ((Act.evalModule Act.mainModule sleepingModule (.create .default)).trace 8).bind
      (fun r => (yielding r.2).map fun (u, f, t) =>
        (r.2.state.generators, r.2.livesAfter, t.life ⟨149⟩,
          decide (f.base = 1 ∧ f.generator = some ⟨149⟩ ∧ u.stack.size = 3 ∧
            (t.function? f.function).isSome ∧ t.frames.size < t.settings.maxFrames))) =
      some ([⟨149⟩], [.suspended], .suspended, true) := by
  decide +kernel

/-- The generator is about to yield, and has the only frame that it may have. -/
theorem Hosted.generators_live_sleepingModule : ∃ log m g,
    (Act.evalModule Act.mainModule sleepingModule (.create .default)).During log m ∧
      m.state.generators = [g] ∧ (m.state.life g).isFramed = true ∧
      ∃ m', m.step = .running m' ∧ m'.state.life g = .suspended ∧
        (m.state.life g).Steps (m'.state.life g) := by
  obtain ⟨⟨log, m⟩, hm, hshown⟩ := Option.bind_eq_some_iff.1 trace_sleepingModule
  obtain ⟨⟨u, f, t⟩, -, hfacts⟩ := Option.map_eq_some_iff.1 hshown
  simp only [Prod.mk.injEq] at hfacts
  obtain ⟨hgenerators, hlives, -⟩ := hfacts
  have hd := Proc.during_of_trace hm
  obtain ⟨-, hframed, hsteps, -⟩ := Hosted.generators_live .start hd
  refine ⟨log, m, ⟨149⟩, hd, hgenerators, (hframed _).1 (by simp [hgenerators]), ?_⟩
  unfold Machine.livesAfter at hlives
  split at hlives
  · next m' hstep =>
    rw [hgenerators] at hlives
    exact ⟨m', hstep, by simpa using hlives, hsteps m' hstep _⟩
  · cases hlives

end ScriptEngine
