import ScriptEngine.Proofs.Regions
import ScriptEngine.Proofs.Structure

/-!
# Leaving `try` statements

A jump out of a loop leaves the `try` statements between it and the loop: for each of them it drops
the locals made since, removes its handlers and runs its `ensure` part inline. `LeavesTo` says what
the handlers and entries of a level must be for that to end at the level of the loop, and that each
inlined `ensure` part is itself code that keeps the level. The handlers always come out right. The
height does only where no local was declared since the outermost of the `try` statements was
entered, since the locals are dropped once more afterwards.
-/

namespace ScriptEngine.Compile

open Bytecode Source

/-! ## Places for statements -/

/-- A place where a statement can be compiled: the locals are the values on the frame. -/
structure Placed (exact : Bool) (s : CompilerState) (τ : Typing) (L : Level) : Prop where
  /-- The code so far is typed. -/
  typed : At exact s.chunk τ L
  /-- Slot zero is there and nothing is exposed. -/
  ready : L.Ready
  /-- Every slot belongs to a local. -/
  height : s.current.locals.length = L.height
  /-- Every local has its value. -/
  settled : Settled s.current.depth (shapes s.current.locals)

/-- The locals of a place lie within its height. -/
theorem Placed.reach {exact : Bool} {s : CompilerState} {τ : Typing} {L : Level}
    (h : Placed exact s τ L) : reach s.current.locals ≤ L.height :=
  h.height ▸ reach_le_length _

/-- Places follow growth. -/
theorem Placed.extends {exact : Bool} {fresh : List (String × Option Nat)} {s t : CompilerState}
    {τ υ : Typing} {L M : Level} (h : Placed exact s τ L) (he : Extends fresh s τ t υ)
    (hat : At exact t.chunk υ M) (hready : M.Ready) (hheight : M.height = L.height + fresh.length)
    (hfresh : DeclaredAt s.current.depth fresh) : Placed exact t υ M where
  typed := hat
  ready := hready
  height := by
    rw [← length_shapes, he.locals, List.length_append, length_shapes, h.height, hheight]
    omega
  settled := by
    rw [he.locals, he.depth]
    exact hfresh.settled.append h.settled

/-- A place stays one while a run keeps scopes and comes to a level of the same height. -/
theorem Placed.keeps {exact : Bool} {s t : CompilerState} {τ υ : Typing} {L M : Level}
    (h : Placed exact s τ L) (hk : KeepsScopes s τ t υ) (hat : At exact t.chunk υ M)
    (hready : M.Ready)
    (hheight : M.height = L.height) : Placed exact t υ M :=
  h.extends (hk.grows : Grows none [] [] s τ t υ).toExtends hat hready hheight nofun

/-- Where the jumps of a loop land: at the level of the loop. -/
structure Lands (X : Level) (size : Nat) (τ : Typing) (l : LoopRecord) : Prop where
  /-- Statements can follow there. -/
  ready : X.Ready
  /-- The locals of the loop are the values on the frame. -/
  height : X.height = l.localCount
  /-- A target that is known has the level. -/
  target : ∀ c, l.continueTarget = some c → c ≤ size ∧ τ.level c = X

/-- Landing places follow growth. -/
theorem Lands.extends {fresh : List (String × Option Nat)} {s t : CompilerState} {τ υ : Typing}
    {X : Level} {l l' : LoopRecord} (h : Lands X s.size τ l) (hshape : l'.shape = l.shape)
    (he : Extends fresh s τ t υ) : Lands X t.size υ l' where
  ready := h.ready
  height := h.height.trans (congrArg (·.2.1) hshape).symm
  target c hc := by
    obtain ⟨hle, hlevel⟩ := h.target c ((congrArg (·.1) hshape).symm.trans hc)
    exact ⟨Nat.le_trans hle he.size, (he.level c hle).trans hlevel⟩

/-- The innermost loop stays the same apart from its jumps. -/
theorem Extends.innermost {fresh : List (String × Option Nat)} {s t : CompilerState}
    {τ υ : Typing} (he : Extends fresh s τ t υ) {l : LoopRecord} {ls : List LoopRecord}
    (hl : s.current.loops = l :: ls) :
    ∃ l' ls', t.current.loops = l' :: ls' ∧ l'.shape = l.shape := by
  have hshapes := he.loops
  rw [hl] at hshapes
  cases ht : t.current.loops with
  | nil =>
    rw [ht] at hshapes
    cases hshapes
  | cons l' ls' =>
    rw [ht] at hshapes
    exact ⟨l', ls', rfl, (List.cons.inj hshapes).1⟩

/-! ## Entries and handlers -/

/-- Some started entries have been left. -/
def Finished (es es' : List Entry) : Prop := ∃ done, es = done ++ es' ∧ ∀ e ∈ done, e.started = true

theorem Finished.refl (es : List Entry) : Finished es es := ⟨[], rfl, nofun⟩

/-- One more entry that has begun is finished as well. -/
theorem Finished.cons {es es' : List Entry} (h : Finished es es') (t : Nat) :
    Finished (⟨t, true⟩ :: es) es' := by
  obtain ⟨done, rfl, hdone⟩ := h
  refine ⟨⟨t, true⟩ :: done, rfl, ?_⟩
  intro e he
  rcases List.mem_cons.1 he with rfl | he
  · rfl
  · exact hdone e he

/-- What is finished and finished again is finished altogether. -/
theorem Finished.trans {a b c : List Entry} (h : Finished a b) (h' : Finished b c) :
    Finished a c := by
  obtain ⟨done, rfl, hdone⟩ := h
  obtain ⟨done', rfl, hdone'⟩ := h'
  refine ⟨done ++ done', (List.append_assoc _ _ _).symm, ?_⟩
  intro e he
  rcases List.mem_append.1 he with he | he
  · exact hdone e he
  · exact hdone' e he

/-- Leaving started entries is progress. -/
theorem Finished.progress {es es' : List Entry} (h : Finished es es') : Progress es es' := by
  obtain ⟨done, rfl, hdone⟩ := h
  induction done with
  | nil => exact .refl _
  | cons e done ih =>
    obtain ⟨t, started⟩ := e
    obtain rfl : started = true := hdone _ List.mem_cons_self
    exact (Progress.leave (.refl _)).trans (ih fun e he => hdone e (List.mem_cons_of_mem _ he))

/-- Handlers of except clauses. -/
def AllExcept (gs : List Guard) : Prop := ∀ g ∈ gs, g.kind = .except

section Covered

variable {n m t : Nat} {gs gs' : List Guard} {es es' : List Entry}

/-- A level is covered if its `ensure` handlers are those of the entries that have not begun, in
order. -/
theorem covered_iff : (Level.mk n gs es).Covered ↔
    (gs.filter (·.kind = .ensure)).map (·.setup) = (es.filter (!·.started)).map (·.setup) :=
  Iff.rfl

/-- Handlers of except clauses do not count. -/
theorem covered_except (h : AllExcept gs) :
    (Level.mk n (gs ++ gs') es).Covered ↔ (Level.mk m gs' es).Covered := by
  have hnil : gs.filter (·.kind = .ensure) = [] := by
    rw [List.filter_eq_nil_iff]
    intro g hg
    simp [h g hg]
  rw [covered_iff, covered_iff, List.filter_append, hnil, List.nil_append]

/-- Started entries do not count. -/
theorem covered_finished (h : Finished es es') :
    (Level.mk n gs es).Covered ↔ (Level.mk m gs es').Covered := by
  obtain ⟨done, rfl, hdone⟩ := h
  have hnil : done.filter (!·.started) = [] := by
    rw [List.filter_eq_nil_iff]
    intro e he
    simp [hdone e he]
  rw [covered_iff, covered_iff, List.filter_append, hnil, List.nil_append]

/-- An `ensure` handler covers its entry. -/
theorem covered_ensure :
    (Level.mk n (⟨.ensure, t⟩ :: gs) (⟨t, false⟩ :: es)).Covered ↔ (Level.mk m gs es).Covered := by
  simp [covered_iff]

end Covered

/-- Leaving the `try` statements entered since a loop began, from a place with some handlers and
entries, ends at the level of the loop. Only those beyond the depth of the loop are left. -/
def LeavesTo (exact : Bool) (depth : Nat) (X : Level) :
    List TryBlock → List Guard → List Entry → Prop
  | [], gs, es => gs = X.guards ∧ Finished es X.entries
  | b :: rest, gs, es =>
    if rest.length < depth then gs = X.guards ∧ Finished es X.entries
    else 1 ≤ b.localCount ∧
      match b.ensure with
      | none => ∃ hs gs', gs = hs ++ gs' ∧ AllExcept hs ∧ hs.length = b.liveHandlers ∧
          LeavesTo exact depth X rest gs' es
      | some e => ∃ hs t gs' es', gs = hs ++ ⟨.ensure, t⟩ :: gs' ∧ AllExcept hs ∧
          hs.length + 1 = b.liveHandlers ∧ Finished es (⟨t, false⟩ :: es') ∧
          LeavesTo exact depth X rest gs' (⟨t, true⟩ :: es') ∧
          -- the inlined code may itself jump out of the loop
          ∀ ⦃s s' : CompilerState⦄ ⦃τ : Typing⦄ ⦃L : Level⦄ ⦃l : LoopRecord⦄ ⦃ls⦄,
            Placed exact s τ L → s.current.loops = l :: ls → Lands X s.size τ l →
            l.tryDepth = depth → LeavesTo exact depth X rest L.guards L.entries →
            Ran e s () s' →
              ∃ τ', At exact s'.chunk τ' L ∧ Grows (some X) [] [] s τ s' τ'

section LeavesTo

variable {exact : Bool} {depth : Nat} {X : Level}

/-- With no `try` statement to leave, nothing is left but entries that have begun. -/
theorem leavesTo_short {tries : List TryBlock} {gs : List Guard} {es : List Entry}
    (h : tries.length ≤ depth) :
    LeavesTo exact depth X tries gs es ↔ gs = X.guards ∧ Finished es X.entries := by
  cases tries with
  | nil => exact Iff.rfl
  | cons b rest => rw [LeavesTo, if_pos (show rest.length < depth from h)]

/-- More started entries change nothing. -/
theorem LeavesTo.finished {tries : List TryBlock} {gs : List Guard} {es es' : List Entry}
    (h : LeavesTo exact depth X tries gs es') (hf : Finished es es') :
    LeavesTo exact depth X tries gs es := by
  induction tries generalizing gs es es' with
  | nil => exact ⟨h.1, hf.trans h.2⟩
  | cons b rest ih =>
    rw [LeavesTo] at h ⊢
    split at h
    · next hlt =>
      rw [if_pos hlt]
      exact ⟨h.1, hf.trans h.2⟩
    · next hlt =>
      rw [if_neg hlt]
      obtain ⟨hpos, h⟩ := h
      refine ⟨hpos, ?_⟩
      cases hb : b.ensure with
      | none =>
        rw [hb] at h
        obtain ⟨hs, gs', hgs, hex, hlen, hrest⟩ := h
        exact ⟨hs, gs', hgs, hex, hlen, ih hrest hf⟩
      | some e =>
        rw [hb] at h
        obtain ⟨hs, t, gs', es'', hgs, hex, hlen, hfin, hrest⟩ := h
        exact ⟨hs, t, gs', es'', hgs, hex, hlen, hf.trans hfin, hrest⟩

end LeavesTo

/-! ## Code that leaves -/

section Leave

variable {exact : Bool} {s s' : CompilerState} {τ : Typing} {X : Level} {line n : Nat} {u : Unit}
variable {gs gs' : List Guard} {es es' : List Entry}

/-- A handler that is there may be removed. -/
theorem typed_popHandler {g : Guard} (hat : At exact s.chunk τ ⟨n, g :: gs, es⟩)
    (hL : (Level.mk n (g :: gs) es).Ready) (hes : Progress es es') (line : Nat) :
    ∃ τ', At exact (s.withCurrent (s.current.emit .popHandler line)).chunk τ' ⟨n, gs, es'⟩ ∧
      KeepsScopes s τ (s.withCurrent (s.current.emit .popHandler line)) τ' := by
  have hsafe : Op.popHandler.Safe exact ⟨n, g :: gs, es⟩ :=
    ⟨fun _ => hL.pos, nofun, fun _ => List.cons_ne_nil _ _, .inl hL.covered⟩
  have hflow : (Op.popHandler.next s.size ⟨n, g :: gs, es⟩).Flows exact ⟨n, gs, es'⟩ :=
    ⟨fun _ => rfl, rfl, hes⟩
  exact typed_straight hat _ _ hsafe (fun _ => hflow) rfl line

/-- Handlers of except clauses are removed one after another. -/
theorem typed_popHandlers {hs : List Guard} {ks : List Nat}
    (hat : At exact s.chunk τ ⟨n, hs ++ gs, es⟩) (hL : (Level.mk n (hs ++ gs) es).Ready)
    (hs' : AllExcept hs) (hks : hs.length = ks.length)
    (hr : Ran (ks.forM fun _ => emit .popHandler line) s u s') :
    ∃ τ', At exact s'.chunk τ' ⟨n, gs, es⟩ ∧ KeepsScopes s τ s' τ' := by
  induction ks generalizing s τ hs u with
  | nil =>
    obtain rfl := List.length_eq_zero_iff.1 hks
    obtain rfl := ran_forM_nil.1 hr
    exact ⟨τ, hat, .refl _ _⟩
  | cons k ks ih =>
    cases hs with
    | nil => cases hks
    | cons h hs =>
      obtain ⟨t, hpop, hrest⟩ := ran_forM_cons.1 hr
      obtain rfl := ran_emit.1 hpop
      have hrem : AllExcept hs := fun g hg => hs' g (List.mem_cons_of_mem _ hg)
      obtain ⟨τ₁, hat₁, hk₁⟩ := typed_popHandler hat hL (.refl es) line
      have hcov : (Level.mk n (hs ++ gs) es).Covered :=
        (covered_except hrem).2 ((covered_except (m := n) hs').1 hL.covered)
      obtain ⟨τ', hat', hk⟩ := ih hat₁ ⟨hL.pos, hcov⟩ hrem (Nat.succ.inj hks) hrest
      exact ⟨τ', hat', hk₁.trans hk⟩

/-- The handlers of a `try` statement whose `ensure` part has to run are removed, the one of
`ensure` last. Behind it the `ensure` part counts as started. -/
theorem typed_popEnsure {hs : List Guard} {ks : List Nat} {t : Nat}
    (hat : At exact s.chunk τ ⟨n, hs ++ ⟨.ensure, t⟩ :: gs, es⟩)
    (hL : (Level.mk n (hs ++ ⟨.ensure, t⟩ :: gs) es).Ready) (hs' : AllExcept hs)
    (hks : hs.length + 1 = ks.length) (hes : Finished es (⟨t, false⟩ :: es'))
    (hr : Ran (ks.forM fun _ => emit .popHandler line) s u s') :
    ∃ τ', At exact s'.chunk τ' ⟨n, gs, ⟨t, true⟩ :: es'⟩ ∧ KeepsScopes s τ s' τ' := by
  induction ks generalizing s τ hs u with
  | nil => cases hks
  | cons k ks ih =>
    obtain ⟨t₁, hpop, hrest⟩ := ran_forM_cons.1 hr
    obtain rfl := ran_emit.1 hpop
    cases hs with
    | nil =>
      obtain rfl := List.length_eq_zero_iff.1 (Nat.succ.inj hks).symm
      obtain rfl := ran_forM_nil.1 hrest
      exact typed_popHandler hat hL (.start hes.progress) line
    | cons h hs =>
      have hrem : AllExcept hs := fun g hg => hs' g (List.mem_cons_of_mem _ hg)
      obtain ⟨τ₁, hat₁, hk₁⟩ := typed_popHandler hat hL (.refl es) line
      have hcov : (Level.mk n (hs ++ ⟨.ensure, t⟩ :: gs) es).Covered :=
        (covered_except hrem).2 ((covered_except (m := n) hs').1 hL.covered)
      obtain ⟨τ', hat', hk⟩ := ih hat₁ ⟨hL.pos, hcov⟩ hrem (Nat.succ.inj hks) hrest
      exact ⟨τ', hat', hk₁.trans hk⟩

@[simp] theorem dropAll_locals (line : Nat) (f : FunctionState) (ls : List Local) :
    (dropAll line f ls).locals = f.locals := by
  induction ls generalizing f with
  | nil => rfl
  | cons l ls ih => exact ih _

@[simp] theorem dropAll_depth (line : Nat) (f : FunctionState) (ls : List Local) :
    (dropAll line f ls).depth = f.depth := by
  induction ls generalizing f with
  | nil => rfl
  | cons l ls ih => exact ih _

/-- Discarding locals drops those above the number that is to stay. -/
theorem ran_discardLocals {count : Nat} :
    Ran (updateFunction (·.discardLocals count line)) s u s' ↔
      s' = s.withCurrent (dropAll line s.current
        (s.current.locals.take (s.current.locals.length - count))) := ran_updateFunction

/-- Dropping the locals from a slot up and forgetting them leads to a place with the locals below. -/
theorem placed_truncate {L : Level} {count : Nat} (h : Placed exact s τ L) (hcount : 1 ≤ count)
    {t : CompilerState}
    (hr : Ran (updateFunction (·.discardLocals count line)) s () t) :
    ∃ τ', KeepsScopes s τ t τ' ∧
      Placed exact
        (t.withScope (t.current.locals.drop (t.current.locals.length - count)) t.current.depth) τ'
        (L.drop (s.current.locals.length - count)) := by
  obtain rfl := ran_discardLocals.1 hr
  have hpos := h.ready.pos
  have hheight := h.height
  have hlen : (s.current.locals.take (s.current.locals.length - count)).length =
      s.current.locals.length - count := by
    rw [List.length_take]
    omega
  obtain ⟨τ', hat', hk⟩ := typed_dropAll h.typed h.ready.covered line
    (s.current.locals.take (s.current.locals.length - count)) fun _ => by
      rw [hlen]
      omega
  rw [hlen] at hat'
  refine ⟨τ', hk, hat', ⟨?_, h.ready.covered⟩, ?_, ?_⟩
  · rw [Level.drop_height]
    omega
  · simp only [withScope_locals, withCurrent_current, dropAll_locals, List.length_drop,
      Level.drop_height]
    omega
  · intro x hx
    simp only [withScope_locals, withScope_depth, withCurrent_current, dropAll_locals,
      dropAll_depth] at hx ⊢
    obtain ⟨l, hl, rfl⟩ := List.mem_map.1 hx
    exact h.settled _ (List.mem_map_of_mem (List.mem_of_mem_drop hl))

/-- The height behind some `try` statements that are left: each drops the locals above its own. -/
def heightLeaving (left : List TryBlock) (height : Nat) : Nat :=
  left.foldl (fun h b => min h b.localCount) height

/-- Leaving `try` statements only drops locals. -/
theorem heightLeaving_le (left : List TryBlock) (height : Nat) :
    heightLeaving left height ≤ height := by
  induction left generalizing height with
  | nil => exact Nat.le_refl _
  | cons b left ih => exact Nat.le_trans (ih _) (Nat.min_le_left _ _)

/-- Nothing is dropped just in case no local was declared since one of them was entered. -/
theorem heightLeaving_eq_iff {left : List TryBlock} {height : Nat} :
    heightLeaving left height = height ↔ ∀ b ∈ left, height ≤ b.localCount := by
  induction left with
  | nil => simp [heightLeaving]
  | cons b left ih =>
    have hcons : heightLeaving (b :: left) height = heightLeaving left (min height b.localCount) :=
      rfl
    rw [hcons, List.forall_mem_cons]
    constructor
    · intro h
      have hle := heightLeaving_le left (min height b.localCount)
      have hb : height ≤ b.localCount := by omega
      rw [Nat.min_eq_left hb] at h
      exact ⟨hb, ih.1 h⟩
    · rintro ⟨hb, hrest⟩
      rw [Nat.min_eq_left hb]
      exact ih.2 hrest

/-- Leaving one `try` statement leads to a place from which the rest can be left. -/
theorem placed_leaveTry {L : Level} {l : LoopRecord} {ls : List LoopRecord} {b : TryBlock}
    {rest : List TryBlock} (hp : Placed exact s τ L) (hl : s.current.loops = l :: ls)
    (hland : Lands X s.size τ l) (hd : l.tryDepth ≤ rest.length)
    (hleave : LeavesTo exact l.tryDepth X (b :: rest) L.guards L.entries)
    (hr : Ran (do
      updateFunction (·.discardLocals b.localCount line)
      updateFunction fun f =>
        { f with scope := .ofList (f.locals.drop (f.locals.length - b.localCount)) }
      (List.range b.liveHandlers).forM fun _ => emit .popHandler line
      b.ensure.forM id) s u s') :
    ∃ τ' L', Placed exact s' τ' L' ∧ LeavesTo exact l.tryDepth X rest L'.guards L'.entries ∧
      s'.current.depth = s.current.depth ∧
      (∀ ms d, Grows (some X) [] [] (s.withScope ms d) τ (s'.withScope ms d) τ') ∧
      L'.height = min L.height b.localCount := by
  rw [LeavesTo, if_neg (Nat.not_lt.2 hd)] at hleave
  obtain ⟨hpos, hleave⟩ := hleave
  simp only [ran_bind] at hr
  obtain ⟨_, t₁, hdrop, _, t₂, htrunc, _, t₃, hpop, hens⟩ := hr
  obtain rfl := ran_updateFunction.1 htrunc
  obtain ⟨τ₁, hk₁, hp₂⟩ := placed_truncate hp hpos hdrop
  have hheight : (L.drop (s.current.locals.length - b.localCount)).height =
      min L.height b.localCount := by
    rw [Level.drop_height, hp.height]
    omega
  have hrange : b.liveHandlers = (List.range b.liveHandlers).length := List.length_range.symm
  cases hb : b.ensure with
  | none =>
    rw [hb] at hleave hens
    obtain ⟨-, rfl⟩ := ran_pure.1 hens
    obtain ⟨hs, gs', hgs, hex, hlen, hrest⟩ := hleave
    have hat₂ := hp₂.typed
    have hready := hp₂.ready
    simp only [Level.drop, hgs] at hat₂ hready
    obtain ⟨τ₃, hat₃, hk₃⟩ := typed_popHandlers hat₂ hready hex (hlen.trans hrange) hpop
    refine ⟨τ₃, _, hp₂.keeps hk₃ hat₃
      ⟨hready.pos, (covered_except hex).1 hready.covered⟩ rfl, hrest, hk₃.depth.trans hk₁.depth, ?_,
      hheight⟩
    intro ms d
    exact (hk₁.grows.relocate ms d).trans (hk₃.grows.relocate ms d)
  | some e =>
    rw [hb] at hleave hens
    obtain ⟨hs, t, gs', es', hgs, hex, hlen, hfin, hrest, hinline⟩ := hleave
    have hat₂ := hp₂.typed
    have hready := hp₂.ready
    simp only [Level.drop, hgs] at hat₂ hready
    obtain ⟨τ₃, hat₃, hk₃⟩ := typed_popEnsure hat₂ hready hex (hlen.trans hrange) hfin hpop
    have hcov₃ : (Level.mk (L.height - (s.current.locals.length - b.localCount)) gs'
        (⟨t, true⟩ :: es')).Covered := by
      have h₁ := (covered_finished (m := 0) hfin).1 ((covered_except (m := 0) hex).1 hready.covered)
      exact (covered_finished ((Finished.refl es').cons t)).2 ((covered_ensure (m := 0)).1 h₁)
    have hp₃ := hp₂.keeps hk₃ hat₃ ⟨hready.pos, hcov₃⟩ rfl
    have hg₃ : ∀ ms d, Grows (some X) [] [] (s.withScope ms d) τ (t₃.withScope ms d) τ₃ :=
      fun ms d => (hk₁.grows.relocate ms d).trans (hk₃.grows.relocate ms d)
    obtain ⟨l₃, ls₃, hl₃, hshape⟩ := (hg₃ [] 0).toExtends.innermost hl
    have hland₃ : Lands X (t₃.withScope [] 0).size τ₃ l₃ :=
      Lands.extends (s := s.withScope [] 0) hland hshape (hg₃ [] 0).toExtends
    have hdepth : l₃.tryDepth = l.tryDepth := congrArg (·.2.2) hshape
    obtain ⟨τ₄, hat₄, hg₄⟩ := hinline hp₃ hl₃ hland₃ hdepth hrest hens
    refine ⟨τ₄, _, hp₃.extends hg₄.toExtends hat₄ hp₃.ready rfl nofun, hrest,
      hg₄.depth.trans (hk₃.depth.trans hk₁.depth), ?_, hheight⟩
    intro ms d
    exact (hg₃ ms d).trans (hg₄.relocate ms d)

/-- Leaving `try` statements leads to a place with the handlers and entries of the loop. The locals
are those of the outermost one left. -/
theorem placed_leaveTries {L : Level} {l : LoopRecord} {ls : List LoopRecord}
    {tries : List TryBlock} (hp : Placed exact s τ L) (hl : s.current.loops = l :: ls)
    (hland : Lands X s.size τ l) (hd : l.tryDepth ≤ tries.length)
    (hleave : LeavesTo exact l.tryDepth X tries L.guards L.entries)
    (hr : Ran (leaveTries line (tries.take (tries.length - l.tryDepth))) s u s') :
    ∃ τ' L', Placed exact s' τ' L' ∧ L'.guards = X.guards ∧ Finished L'.entries X.entries ∧
      s'.current.depth = s.current.depth ∧
      (∀ ms d, Grows (some X) [] [] (s.withScope ms d) τ (s'.withScope ms d) τ') ∧
      L'.height = heightLeaving (tries.take (tries.length - l.tryDepth)) L.height := by
  induction tries generalizing s τ L l ls u with
  | nil =>
    rw [List.take_nil] at hr ⊢
    obtain ⟨-, rfl⟩ := ran_pure.1 hr
    exact ⟨τ, L, hp, hleave.1, hleave.2, rfl, fun ms d => (KeepsScopes.refl _ _).grows, rfl⟩
  | cons b rest ih =>
    by_cases hlt : rest.length < l.tryDepth
    · rw [leavesTo_short hlt] at hleave
      have hzero : (b :: rest).length - l.tryDepth = 0 := Nat.sub_eq_zero_of_le hlt
      rw [hzero, List.take_zero] at hr ⊢
      obtain ⟨-, rfl⟩ := ran_pure.1 hr
      exact ⟨τ, L, hp, hleave.1, hleave.2, rfl, fun ms d => (KeepsScopes.refl _ _).grows, rfl⟩
    · have hd' : l.tryDepth ≤ rest.length := Nat.not_lt.1 hlt
      have hsucc : (b :: rest).length - l.tryDepth = rest.length - l.tryDepth + 1 :=
        Nat.succ_sub hd'
      rw [hsucc, List.take_succ_cons] at hr ⊢
      simp only [leaveTries, ran_bind] at hr
      obtain ⟨u₁, t₁, hdrop, u₂, t₂, htrunc, u₃, t₃, hpop, u₄, t₄, hens, hrest⟩ := hr
      obtain ⟨τ₄, L₄, hp₄, hleave₄, hdepth₄, hg₄, hheight₄⟩ := placed_leaveTry hp hl hland hd' hleave
        (by simp only [ran_bind]; exact ⟨u₁, t₁, hdrop, u₂, t₂, htrunc, u₃, t₃, hpop, hens⟩)
      obtain ⟨l₄, ls₄, hl₄, hshape⟩ := (hg₄ [] 0).toExtends.innermost hl
      have hland₄ : Lands X (t₄.withScope [] 0).size τ₄ l₄ :=
        Lands.extends (s := s.withScope [] 0) hland hshape (hg₄ [] 0).toExtends
      have hdepth : l₄.tryDepth = l.tryDepth := congrArg (·.2.2) hshape
      rw [← hdepth] at hd' hleave₄ hrest
      obtain ⟨τ', L', hp', hguards, hentries, hdepth', hg', hheight'⟩ :=
        ih hp₄ hl₄ hland₄ hd' hleave₄ hrest
      refine ⟨τ', L', hp', hguards, hentries, hdepth'.trans hdepth₄,
        fun ms d => (hg₄ ms d).trans (hg' ms d), ?_⟩
      rw [hheight', hheight₄, hdepth]
      rfl

/-- Taking over captures changes no shapes. -/
theorem shapes_mergeCaptures (saved current : List Local) :
    shapes (mergeCaptures saved current) = shapes saved := by
  obtain ⟨f, hf, hnone, hsome⟩ : ∃ f : Option Local → Option Local → List Local,
      mergeCaptures saved current =
          (List.zipWithAll f saved.reverse current.reverse).flatten.reverse ∧
        (∀ c, f none c = []) ∧ ∀ s c, ∃ l, f (some s) c = [l] ∧ l.shape = s.shape :=
    ⟨_, rfl, by intro c; rfl, by intro s c; cases c <;> exact ⟨_, rfl, rfl⟩⟩
  have key : ∀ as bs : List Local, shapes (List.zipWithAll f as bs).flatten = shapes as := by
    intro as
    induction as with
    | nil =>
      intro bs
      rw [List.nil_zipWithAll]
      induction bs with
      | nil => rfl
      | cons b bs ih => rwa [List.map_cons, List.flatten_cons, hnone, List.nil_append]
    | cons a as ih =>
      intro bs
      cases bs with
      | nil =>
        have h := ih []
        obtain ⟨l, hl, hshape⟩ := hsome a none
        rw [List.zipWithAll_nil] at h ⊢
        rw [List.map_cons, List.flatten_cons, hl, List.singleton_append, shapes_cons, hshape, h,
          shapes_cons]
      | cons b bs =>
        obtain ⟨l, hl, hshape⟩ := hsome a (some b)
        rw [List.zipWithAll_cons_cons, List.flatten_cons, hl, List.singleton_append, shapes_cons,
          hshape, ih bs, shapes_cons]
  rw [hf, shapes, List.map_reverse, ← shapes]
  refine (congrArg List.reverse (key saved.reverse current.reverse)).trans ?_
  rw [shapes, List.map_reverse, List.reverse_reverse]
  rfl

/-- Before a jump out of the loop the `try` statements are left. The locals are in scope again
behind it, whether or not their values are on the stack. -/
theorem typed_exitTries {ctx : Context} {L : Level} {l : LoopRecord} {ls : List LoopRecord}
    (hp : Placed exact s τ L) (hl : s.current.loops = l :: ls) (hland : Lands X s.size τ l)
    (hd : l.tryDepth ≤ ctx.tries.length)
    (hleave : LeavesTo exact l.tryDepth X ctx.tries L.guards L.entries)
    (hr : Ran (exitTries ctx l.tryDepth line) s u s') :
    ∃ τ' L', At exact s'.chunk τ' L' ∧ L'.Ready ∧ L'.guards = X.guards ∧
      Finished L'.entries X.entries ∧ Grows (some X) [] [] s τ s' τ' ∧
      L'.height = heightLeaving (ctx.tries.take (ctx.tries.length - l.tryDepth)) L.height := by
  unfold exitTries at hr
  split at hr
  · next hle =>
    obtain ⟨-, rfl⟩ := ran_pure.1 hr
    rw [leavesTo_short hle] at hleave
    rw [Nat.sub_eq_zero_of_le hle]
    exact ⟨τ, L, hp.typed, hp.ready, hleave.1, hleave.2, (KeepsScopes.refl _ _).grows, rfl⟩
  · simp only [ran_bind, ran_get, ran_updateFunction] at hr
    obtain ⟨_, s, ⟨rfl, rfl⟩, _, t, hleaves, rfl⟩ := hr
    obtain ⟨τ', L', hp', hguards, hentries, hdepth, hg, hheight⟩ :=
      placed_leaveTries hp hl hland hd hleave hleaves
    refine ⟨τ', L', hp'.typed, hp'.ready, hguards, hentries, ?_, hheight⟩
    have hshapes : shapes (mergeCaptures s.current.locals t.current.locals) =
        [] ++ shapes s.current.locals := shapes_mergeCaptures _ _
    have hmerged := (hg [] 0).reframe hshapes s.current.depth
    rw [← hdepth] at hmerged
    nth_rewrite 1 [hdepth] at hmerged
    rwa [withScope_withScope, withScope_withScope, withScope_self] at hmerged

end Leave

end ScriptEngine.Compile
