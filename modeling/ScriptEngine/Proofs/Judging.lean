import ScriptEngine.Proofs.Outlines

/-!
# When code generation stops

`Checks` says of a generator from which outline to which it leads, and for which condition it asks: it
goes through only if the condition holds, and when the condition holds it stops only if the outline it
leads to is beyond the limits. What the limits allow at the end they allow before, so that the rules
put generators together.

The second half may assume a `side` condition. The `ensure` part of a `try` statement is emitted once
more at every `break` and `continue` that leaves the statement, before it is emitted in its own place.
Inside the statement its own condition is put on the side, so that the inlined copies ask for nothing.
-/

namespace ScriptEngine.Compile

open Bytecode Source

/-! ## Generators that stop -/

/-- The generator stops with a diagnostic. -/
def Stops {α : Type} (m : Gen α) (s : CompilerState) (d : Diagnostic) : Prop := m s = .error d

section Stops

variable {α β : Type} {s : CompilerState} {d : Diagnostic}

/-- Giving a value never stops. -/
theorem not_stops_pure {a : α} : ¬ Stops (pure a : Gen α) s d := by
  intro h
  cases h

/-- A check stops with its error. -/
theorem stops_lift {x : Except Diagnostic α} : Stops (liftM x : Gen α) s d ↔ x = .error d := by
  cases x with
  | error e =>
    constructor
    · intro h
      cases h
      rfl
    · intro h
      cases h
      rfl
  | ok a =>
    constructor
    · intro h
      cases h
    · intro h
      cases h

/-- One generator after another stops in the first or in the second. -/
theorem stops_bind {m : Gen α} {f : α → Gen β} :
    Stops (m >>= f) s d ↔ Stops m s d ∨ ∃ a t, Ran m s a t ∧ Stops (f a) t d := by
  unfold Stops Ran
  change StateT.bind m f s = _ ↔ _
  unfold StateT.bind
  cases hm : m s with
  | error e =>
    constructor
    · intro h
      cases h
      exact .inl rfl
    · rintro (h | ⟨a, t, hr, -⟩)
      · cases h
        rfl
      · cases hr
  | ok p =>
    constructor
    · exact fun h => .inr ⟨p.1, p.2, rfl, h⟩
    · rintro (h | ⟨a, t, h, hf⟩)
      · cases h
      · cases h
        exact hf

/-- Reading the state never stops. -/
theorem not_stops_get : ¬ Stops (get : Gen CompilerState) s d := not_stops_pure

/-- Neither does writing it. -/
theorem not_stops_set {t : CompilerState} : ¬ Stops (set t : Gen PUnit) s d := by
  intro h
  cases h

/-- Neither does a change of the function under construction. -/
theorem not_stops_updateFunction {g : FunctionState → FunctionState} :
    ¬ Stops (updateFunction g) s d := by
  intro h
  cases h

/-- A change that may be refused stops with its error. -/
theorem stops_updateFunctionM {g : FunctionState → Except Diagnostic FunctionState} :
    Stops (updateFunctionM g) s d ↔ g s.current = .error d := by
  unfold updateFunctionM
  simp only [stops_bind, not_stops_get, ran_get, stops_lift, not_stops_set, false_or,
    and_false, exists_false, or_false]
  constructor
  · rintro ⟨_, _, ⟨rfl, rfl⟩, h⟩
    exact h
  · exact fun h => ⟨_, _, ⟨rfl, rfl⟩, h⟩

end Stops

/-! ## Conditions -/

/-- The function under construction and those around have some outlines. -/
def CompilerState.Outlined (around : List Outline) (o : Outline) (s : CompilerState) : Prop :=
  Outlines around o s.current s.enclosing

/-- The generator leads from one outline to another and asks for a condition. -/
structure Checks {α : Type} (side : Prop) (around : List Outline) (o o' : Outline) (P : Prop)
    (m : Gen α) : Prop where
  /-- What is within the limits behind it was so before. -/
  grows : Within around o' → Within around o
  /-- It goes through only if the condition holds. -/
  keeps : ∀ ⦃s : CompilerState⦄ ⦃a : α⦄ ⦃s' : CompilerState⦄, s.Outlined around o →
    Ran m s a s' → s'.Outlined around o' ∧ P
  /-- If the condition holds, it stops beyond the limits only. -/
  stops : ∀ ⦃s : CompilerState⦄ ⦃d : Diagnostic⦄, s.Outlined around o → Stops m s d → side → P →
    ¬ Within around o'

section Rules

variable {α β : Type} {S S' : Prop} {around : List Outline} {o o₁ o₂ : Outline} {P Q : Prop}
variable {pos : Position}

/-- The condition may be put in another way. -/
theorem Checks.congr {m : Gen α} (h : Checks S around o o₁ P m) (hpq : P ↔ Q) :
    Checks S around o o₁ Q m where
  grows := h.grows
  keeps _ _ _ hs hr := (h.keeps hs hr).imp_right hpq.1
  stops _ _ hs hd hside hq := h.stops hs hd hside (hpq.2 hq)

/-- The outline behind a generator, written in another way. -/
theorem Checks.to {m : Gen α} (h : Checks S around o o₁ P m) (heq : o₁ = o₂) :
    Checks S around o o₂ P m := heq ▸ h

/-- More may be assumed on the side. -/
theorem Checks.mono {m : Gen α} (h : Checks S' around o o₁ P m) (hside : S → S') :
    Checks S around o o₁ P m where
  grows := h.grows
  keeps := h.keeps
  stops _ _ hs hd hs' hp := h.stops hs hd (hside hs') hp

/-- A condition that is assumed on the side need not be asked for. -/
theorem Checks.granted {m : Gen α} (h : Checks S around o o₁ P m) (hside : S → P) :
    Checks S around o o₁ True m where
  grows := h.grows
  keeps _ _ _ hs hr := (h.keeps hs hr).imp_right fun _ => trivial
  stops _ _ hs hd hs' _ := h.stops hs hd hs' (hside hs')

/-- Giving a value asks for nothing. -/
theorem Checks.pure (a : α) : Checks S around o o True (pure a : Gen α) where
  grows := id
  keeps s b s' hs hr := by
    obtain ⟨-, rfl⟩ := ran_pure.1 hr
    exact ⟨hs, trivial⟩
  stops _ _ _ hd := absurd hd not_stops_pure

/-- A rule is violated. -/
theorem Checks.fail {x : Extent} (cause : Cause) (pos : Position) (hp : ¬ P) :
    Checks S around o (o.plus x) P (fail cause pos : Gen α) where
  grows := Within.before
  keeps _ _ _ _ hr := absurd hr ran_fail
  stops _ _ _ _ _ h := absurd h hp

/-- A limit is exceeded. -/
theorem Checks.refuse {x : Extent} (cause : Cause) (pos : Position)
    (h : ¬ Within around (o.plus x)) :
    Checks S around o (o.plus x) P (Compile.fail cause pos : Gen α) where
  grows := Within.before
  keeps _ _ _ _ hr := absurd hr ran_fail
  stops _ _ _ _ _ _ := h

/-- What the second generator asks for may be assumed on the side of the first. -/
theorem Checks.seq [hα : Nonempty α] {m : Gen α} {f : α → Gen β} (hm : Checks S' around o o₁ P m)
    (hf : ∀ a, Checks S around o₁ o₂ Q (f a)) (hside : S → Q → S') :
    Checks S around o o₂ (P ∧ Q) (m >>= f) where
  grows h := hα.elim fun a => hm.grows ((hf a).grows h)
  keeps s b s' hs hr := by
    obtain ⟨a, t, hra, hrb⟩ := ran_bind.1 hr
    obtain ⟨ht, hp⟩ := hm.keeps hs hra
    obtain ⟨hs', hq⟩ := (hf a).keeps ht hrb
    exact ⟨hs', hp, hq⟩
  stops s d hs hd hS hpq hwithin := by
    rcases stops_bind.1 hd with hd | ⟨a, t, hra, hd⟩
    · exact hα.elim fun a => hm.stops hs hd (hside hS hpq.2) hpq.1 ((hf a).grows hwithin)
    · exact (hf a).stops (hm.keeps hs hra).1 hd hS hpq.2 hwithin

/-- One generator after another: both conditions are asked for. -/
theorem Checks.bind [Nonempty α] {m : Gen α} {f : α → Gen β} (hm : Checks S around o o₁ P m)
    (hf : ∀ a, Checks S around o₁ o₂ Q (f a)) : Checks S around o o₂ (P ∧ Q) (m >>= f) :=
  hm.seq hf fun h _ => h

/-- First something that asks for nothing. -/
theorem Checks.after [Nonempty α] {m : Gen α} {f : α → Gen β} (hm : Checks S around o o₁ True m)
    (hf : ∀ a, Checks S around o₁ o₂ P (f a)) : Checks S around o o₂ P (m >>= f) :=
  (hm.bind hf).congr (Iff.of_eq (true_and P))

/-- Then something that asks for nothing. -/
theorem Checks.before [Nonempty α] {m : Gen α} {f : α → Gen β} (hm : Checks S around o o₁ P m)
    (hf : ∀ a, Checks S around o₁ o₂ True (f a)) : Checks S around o o₂ P (m >>= f) :=
  (hm.bind hf).congr (Iff.of_eq (and_true P))

/-- What follows may depend on the state. -/
theorem Checks.withState {f : CompilerState → Gen α} (hg : Within around o₁ → Within around o)
    (hf : ∀ s, s.Outlined around o → Checks S around o o₁ P (f s)) :
    Checks S around o o₁ P (MonadState.get >>= f) where
  grows := hg
  keeps s a s' hs hr := by
    obtain ⟨_, s, hget, hr⟩ := ran_bind.1 hr
    obtain ⟨rfl, rfl⟩ := ran_get.1 hget
    exact (hf _ hs).keeps hs hr
  stops s d hs hd := by
    rcases stops_bind.1 hd with hd | ⟨_, s, hget, hd⟩
    · exact absurd hd not_stops_get
    · obtain ⟨rfl, rfl⟩ := ran_get.1 hget
      exact (hf _ hs).stops hs hd

/-- A choice asks for what its cases ask for. -/
theorem Checks.ite {p : Prop} [Decidable p] {m n : Gen α} (hm : p → Checks S around o o₁ P m)
    (hn : ¬ p → Checks S around o o₁ P n) : Checks S around o o₁ P (if p then m else n) := by
  split
  · next h => exact hm h
  · next h => exact hn h

/-- What follows a violated rule does not matter. -/
theorem Checks.failed {cause : Cause} {f : β → Gen α} {x : Extent} (hp : ¬ P) :
    Checks S around o (o.plus x) P ((Compile.fail cause pos : Gen β) >>= f) where
  grows := Within.before
  keeps s a s' _ hr := by
    obtain ⟨_, _, hfail, -⟩ := ran_bind.1 hr
    exact absurd hfail ran_fail
  stops _ _ _ _ _ h := absurd h hp

/-- A rule that is checked before something. -/
theorem Checks.require {p : Prop} [Decidable p] {cause : Cause} {f : β → Gen α} {m : Gen α}
    {x : Extent} (hm : ¬ p → Checks S around o (o.plus x) P m) :
    Checks S around o (o.plus x) (¬ p ∧ P)
      (if p then (Compile.fail cause pos : Gen β) >>= f else m) := by
  split
  · next h => exact .failed fun hp => hp.1 h
  · next h => exact (hm h).congr ⟨fun hp => ⟨h, hp⟩, And.right⟩

/-- More may be told of a function than there is. -/
theorem Checks.noted {x : Extent} {m : Gen α} (hlines : x.lines = []) (hfunctions : x.functions = 0)
    (hcaptured : x.captured = []) (hm : Checks S around (o.plus x) o₁ P m) :
    Checks S around o o₁ P m := by
  have hnoted : ∀ s : CompilerState, s.Outlined around o → s.Outlined around (o.plus x) := by
    intro s hs
    refine hs.change (hs.shows.silent hlines hfunctions) rfl ?_
    rw [Outline.plus, Extent.captured_append, hcaptured, List.append_nil]
  exact
    { grows := fun h => (hm.grows h).before
      keeps := fun _ _ _ hs hr => hm.keeps (hnoted _ hs) hr
      stops := fun _ _ hs hd => hm.stops (hnoted _ hs) hd }

/-- A limit that is told of. -/
theorem Checks.limit {b : Bool} {m : Gen α} (hm : Checks S around (o.plus (.limit b)) o₁ P m) :
    Checks S around o o₁ P m := hm.noted rfl rfl rfl

/-- A limit that is checked before something. -/
theorem Checks.unless {p : Prop} [Decidable p] {b : Bool} {cause : Cause} {f : β → Gen α}
    {m : Gen α} (hb : b = true → ¬ p) (hm : Checks S around (o.plus (.limit b)) o₁ P m) :
    Checks S around o o₁ P (if p then (Compile.fail cause pos : Gen β) >>= f else m) := by
  split
  · next h =>
    exact
      { grows := fun hwithin => (hm.grows hwithin).before
        keeps := fun s a s' _ hr => by
          obtain ⟨_, _, hfail, -⟩ := ran_bind.1 hr
          exact absurd hfail ran_fail
        stops := fun _ _ _ _ _ _ hwithin => hb (hm.grows hwithin).limit h }
  · exact hm.limit

/-- A computation beside the state. -/
theorem Checks.lift {x : Except Diagnostic α} {b : Bool} (hok : ∀ a, x = .ok a → P)
    (herror : ∀ d, x = .error d → P → b = false) :
    Checks S around o (o.plus (.limit b)) P (liftM x : Gen α) := by
  refine .limit
    { grows := id
      keeps := fun s a s' hs hr => ?_
      stops := fun s d _ hd _ hp hwithin => ?_ }
  · obtain ⟨ha, rfl⟩ := ran_lift.1 hr
    exact ⟨hs, hok a ha⟩
  · rw [herror d (stops_lift.1 hd) hp] at hwithin
    cases hwithin.limit

end Rules

/-! ## Instructions and constants -/

section Primitives

variable {α : Type} {S : Prop} {around : List Outline} {o o₁ : Outline} {P : Prop}
variable {pos : Position}

/-- A change of the function under construction. -/
theorem Checks.update {g : FunctionState → FunctionState} (hw : Within around o₁ → Within around o)
    (hc : o₁.extent.captured = o.extent.captured) (hu : ∀ f, (g f).upvalues = f.upvalues)
    (hg : ∀ f : FunctionState, f.Shows o → (g f).Shows o₁) :
    Checks S around o o₁ True (updateFunction g) where
  grows := hw
  keeps s u s' hs hr := by
    obtain rfl := ran_updateFunction.1 hr
    exact ⟨hs.change (hg _ hs.shows) (hu _) hc, trivial⟩
  stops _ _ _ hd := absurd hd not_stops_updateFunction

/-- A change of the function under construction that may be refused. -/
theorem Checks.updateM {g : FunctionState → Except Diagnostic FunctionState}
    (hw : Within around o₁ → Within around o) (hc : o₁.extent.captured = o.extent.captured)
    (hok : ∀ f f', f.Shows o → g f = .ok f' → f'.Shows o₁ ∧ f'.upvalues = f.upvalues ∧ P)
    (herror : ∀ f d, f.Shows o → g f = .error d → P → ¬ Within around o₁) :
    Checks S around o o₁ P (updateFunctionM g) where
  grows := hw
  keeps s u s' hs hr := by
    obtain ⟨f, hf, rfl⟩ := ran_updateFunctionM.1 hr
    obtain ⟨hshows, hup, hp⟩ := hok _ f hs.shows hf
    exact ⟨hs.change hshows hup hc, hp⟩
  stops s d hs hd _ hp := herror _ d hs.shows (stops_updateFunctionM.1 hd) hp

/-- An instruction more. -/
theorem FunctionState.Shows.emit {f : FunctionState} (h : f.Shows o) (op : Op) (line : Nat) :
    (f.emit op line).Shows (o.plus (.ops line 1)) := by
  have hle := longestRun_le_append o.extent.lines [.ofNat line]
  obtain ⟨⟨code, constants, lines⟩, scope, depth, captures, loops, overflowed⟩ := f
  refine ⟨h.locals, h.depth, h.loops, ?_, ?_, ?_, ?_⟩
  · rw [Outline.size_plus, Extent.size_ops, ← h.size]
    exact Chunk.emit_size _ op line
  · intro l hl
    rw [Outline.size_plus]
    exact Nat.le_add_right_of_le (h.begun l hl)
  · exact ⟨h.pool.distinct, List.subset_append_of_subset_left _ h.pool.known, h.pool.size⟩
  · intro hrun
    change longestRun (o.extent.lines ++ [.ofNat line]) < _ at hrun
    obtain ⟨hoverflowed, htrails⟩ := h.lines (Nat.lt_of_le_of_lt hle hrun)
    have hfull : lines.isFull line = false := by
      refine Bool.eq_false_iff.2 fun hfull => ?_
      have hlong := htrails.full hfull
      omega
    refine ⟨?_, htrails.push hfull⟩
    change (lines.isFull line || overflowed) = false
    rw [hfull]
    exact hoverflowed

/-- An instruction asks for nothing and takes up its line. -/
theorem Checks.emit (op : Op) (line : Nat) :
    Checks S around o (o.plus (.ops line 1)) True (Compile.emit op line) :=
  .update Within.before (List.append_nil _) (fun _ => rfl) fun _ hf => hf.emit op line

/-- Instructions one after another. -/
theorem Checks.emits {f : α → Op} (as : List α) (line : Nat) :
    Checks S around o (o.plus (.ops line as.length)) True
      (as.forM fun a => Compile.emit (f a) line) := by
  induction as generalizing o with
  | nil => exact (Checks.pure _).to (o.plus_nothing).symm
  | cons a as ih =>
    refine Checks.to ((Checks.emit (f a) line).after fun _ => ih) ?_
    rw [← Outline.plus_append, ← Extent.ops_add, List.length_cons, Nat.add_comm]

/-- What follows may depend on the offset. -/
theorem Checks.withOffset {f : Nat → Gen α} (h : Checks S around o o₁ P (f o.size)) :
    Checks S around o o₁ P (Compile.offset >>= f) := by
  unfold Compile.offset
  rw [bind_assoc]
  refine .withState h.grows fun s hs => ?_
  rw [pure_bind, hs.shows.size]
  exact h

/-- What follows a jump knows where it stands. -/
theorem Checks.jump {f : Nat → Gen α} {op : Op} {line : Nat}
    (h : Checks S around (o.plus (.ops line 1)) o₁ P (f o.size)) :
    Checks S around o o₁ P (Compile.emitJump op line >>= f) := by
  unfold Compile.emitJump
  simp only [bind_assoc, pure_bind]
  exact .withOffset ((Checks.emit op line).after fun _ => h)

/-- A jump lands that is short enough. -/
theorem Checks.patchWithin {jump : Nat}
    (h : Within around o → o.size - jump - 1 ≤ Chunk.maxJump) (pos : Position) :
    Checks S around o o True (Compile.patchJump jump pos) := by
  refine .updateM id rfl ?_ ?_
  · rintro ⟨chunk, scope, depth, captures, loops, overflowed⟩ f' hf hok
    dsimp only at hok
    split at hok
    · next c hc =>
      cases hok
      obtain ⟨-, hconstants, hlines, -⟩ := Chunk.patchJump?_code hc
      refine ⟨⟨hf.locals, hf.depth, hf.loops, ?_, hf.begun, ?_, ?_⟩, rfl, trivial⟩
      · exact (Chunk.patchJump?_size hc).trans hf.size
      · exact hconstants ▸ hf.pool
      · exact hlines ▸ hf.lines
    · cases hok
  · rintro ⟨⟨code, constants, lines⟩, scope, depth, captures, loops, overflowed⟩ d hf herror - hwithin
    have hle := h hwithin
    rw [← hf.size] at hle
    simp only [Chunk.patchJump?, Chunk.size] at herror hle
    rw [if_pos hle] at herror
    cases herror

/-- A jump lands behind what it skips. -/
theorem Checks.patch {jump : Nat} {x : Extent} (h : o.size = jump + 1 + x.size) (pos : Position) :
    Checks S around o (o.plus (.limit (x.size ≤ Chunk.maxJump))) True
      (Compile.patchJump jump pos) := by
  refine .limit (.patchWithin (fun hwithin => ?_) pos)
  have hle := of_decide_eq_true hwithin.limit
  rw [Outline.size_plus, Extent.size_limit]
  omega

/-- Patching jumps asks for nothing, if they are no longer than a jump may be within the limits. -/
theorem Checks.patchJumps {jumps : List Nat}
    (h : Within around o → ∀ j ∈ jumps, o.size - j - 1 ≤ Chunk.maxJump) (pos : Position) :
    Checks S around o o True (Compile.patchJumps jumps pos) := by
  induction jumps with
  | nil => exact .pure _
  | cons j jumps ih =>
    have hone : Checks S around o o True (Compile.patchJump j pos) :=
      .patchWithin (fun hwithin => h hwithin j List.mem_cons_self) pos
    exact hone.after fun _ => ih fun hwithin k hk => h hwithin k (List.mem_cons_of_mem _ hk)

/-- A jump back that is short enough. -/
theorem Checks.emitLoop {start : Nat} {pos : Position}
    (h : Within around (o.plus (.ops pos.line 1)) → o.size - start < Chunk.maxJump) :
    Checks S around o (o.plus (.ops pos.line 1)) True (Compile.emitLoop start pos) := by
  refine .withOffset (.ite (fun _ => .emit _ _) fun hlong => .refuse _ _ fun hwithin => ?_)
  have hlt := h hwithin
  omega

/-- A jump back over what is repeated. -/
theorem Checks.repeated {start : Nat} {x : Extent} (h : o.size = start + x.size) (pos : Position) :
    Checks S around o ((o.plus (.limit (x.size < Chunk.maxJump))).plus (.ops pos.line 1)) True
      (Compile.emitLoop start pos) := by
  refine .limit (.emitLoop fun hwithin => ?_)
  have hlt := of_decide_eq_true hwithin.before.limit
  rw [Outline.size_plus, Extent.size_limit]
  omega

/-- A constant takes up no instruction. -/
theorem lines_constantExtent (c : Constant) : (constantExtent c).lines = [] := by
  unfold constantExtent
  split <;> rfl

/-- It captures nothing. -/
theorem captured_constantExtent (c : Constant) : (constantExtent c).captured = [] := by
  unfold constantExtent
  split <;> rfl

/-- A constant asks for nothing and takes up a place in the pool. -/
theorem Checks.addConstant (c : Constant) (pos : Position) :
    Checks S around o (o.plus (constantExtent c)) True (Compile.addConstant c pos) := by
  have hlines : (o.plus (constantExtent c)).extent.lines = o.extent.lines := by
    rw [Outline.plus, Extent.lines_append, lines_constantExtent, List.append_nil]
  have hcaptured : (o.plus (constantExtent c)).extent.captured = o.extent.captured := by
    rw [Outline.plus, Extent.captured_append, captured_constantExtent, List.append_nil]
  have hsize : (o.plus (constantExtent c)).size = o.size := congrArg List.length hlines
  refine .withState Within.before fun s hs => ?_
  have hshows := hs.shows
  dsimp only
  split
  · next i chunk hc =>
    have hput : CompilerState.Outlined around (o.plus (constantExtent c))
        ⟨{ s.current with chunk := chunk }, s.enclosing⟩ := by
      obtain ⟨hcode, hchunk, -⟩ := Chunk.addConstant?_spec hc
      refine hs.change ⟨hshows.locals, hshows.depth, hshows.loops, ?_, ?_, ?_, ?_⟩ rfl hcaptured
      · rw [hsize, ← hshows.size]
        exact congrArg Array.size hcode
      · rw [hsize]
        exact hshows.begun
      · exact hshows.pool.addConstant hc
      · rw [hlines, hchunk]
        exact hshows.lines
    exact
      { grows := Within.before
        keeps := fun t a t' _ hr => by
          obtain ⟨_, _, hset, hr⟩ := ran_bind.1 hr
          obtain rfl := ran_set.1 hset
          obtain ⟨-, rfl⟩ := ran_pure.1 hr
          exact ⟨hput, trivial⟩
        stops := fun t d _ hd => by
          rcases stops_bind.1 hd with hd | ⟨_, _, -, hd⟩
          · exact absurd hd not_stops_set
          · exact absurd hd not_stops_pure }
  · next hc =>
    refine .refuse _ pos fun hwithin => ?_
    have hfull := hshows.pool.full hc
    rw [show (o.extent ++ constantExtent c).within = true from hwithin.fits.1] at hfull
    cases hfull

/-- So does a name. -/
theorem Checks.addName (name : String) (pos : Position) :
    Checks S around o (o.plus (.name name)) True (Compile.addName name pos) :=
  .addConstant (.string name) pos

/-- A constant and the instruction that pushes it. -/
theorem Checks.emitConstant (c : Constant) (pos : Position) :
    Checks S around o ((o.plus (constantExtent c)).plus (.ops pos.line 1)) True
      (Compile.emitConstant c pos) :=
  (Checks.addConstant c pos).after fun _ => .emit _ _

/-- What follows may depend on the number of locals. -/
theorem Checks.withCount {f : Nat → Gen α} (h : Checks S around o o₁ P (f o.locals.length)) :
    Checks S around o o₁ P (localCount >>= f) := by
  unfold localCount
  rw [bind_assoc]
  refine .withState h.grows fun s hs => ?_
  rw [pure_bind, ← length_shapes, hs.shows.locals]
  exact h

/-- What follows may depend on whether declarations make globals. -/
theorem Checks.withTop {f : Bool → Gen α} (h : Checks S around o o₁ P (f (o.depth == 0))) :
    Checks S around o o₁ P (atTopLevel >>= f) := by
  unfold atTopLevel
  rw [bind_assoc]
  refine .withState h.grows fun s hs => ?_
  rw [pure_bind, hs.shows.depth]
  exact h

end Primitives

/-! ## Variables -/

/-- The names of the locals of the functions around. -/
def outerNames (around : List Outline) : List String := around.flatMap Outline.names

/-- The use of a variable. A global is found by its name. -/
def useOf (around : List Outline) (o : Outline) (name : String) : Extent :=
  if name ∈ o.names then .nothing
  else if name ∈ outerNames around then .captures [name] else .name name

section Resolve

variable {f : FunctionState} {fs : List FunctionState} {name : String} {pos : Position}

/-- A local is resolved unless its initial value is being computed. -/
theorem resolveLocal_ok {slot : Option UInt16} (h : f.resolveLocal name pos = .ok slot) :
    (shapes f.locals).lookup name = none ∧ slot = none ∨
      ∃ d i, (shapes f.locals).lookup name = some (some d) ∧ slot = some i := by
  rw [← findLocal_shapes]
  unfold FunctionState.resolveLocal at h
  split at h
  · next hfind =>
    cases h
    exact .inl ⟨by rw [hfind]; rfl, rfl⟩
  · next i l hfind =>
    split at h
    · cases h
    · next hd =>
      cases h
      obtain ⟨d, hd⟩ : ∃ d, l.depth = some d := Option.ne_none_iff_exists'.1 (by simpa using hd)
      exact .inr ⟨d, _, by rw [hfind]; exact congrArg some hd, rfl⟩

/-- The locals of functions, apart from captures. -/
def shapesOf (fs : List FunctionState) : List (String × Option Nat) :=
  fs.flatMap fun f => shapes f.locals

/-- Names are looked up in the innermost function first. -/
theorem lookup_shapesOf_cons : (shapesOf (f :: fs)).lookup name =
    ((shapes f.locals).lookup name).or ((shapesOf fs).lookup name) := by
  rw [shapesOf, List.flatMap_cons, List.lookup_append]
  rfl

/-- A captured variable is resolved unless its initial value is being computed. -/
theorem resolveUpvalue_ok {g : FunctionState} {gs : List FunctionState} {found : Option UInt16}
    (h : resolveUpvalue name pos f fs = .ok (found, g, gs)) :
    (shapesOf fs).lookup name ≠ some none := by
  induction fs generalizing f g gs found with
  | nil => simp [shapesOf]
  | cons outer rest ih =>
    rw [lookup_shapesOf_cons]
    rw [resolveUpvalue] at h
    obtain ⟨slot?, hlocal, h⟩ := except_bind_ok h
    rw [FunctionState.resolveOuter_eq] at hlocal
    rcases resolveLocal_ok hlocal with ⟨hnone, rfl⟩ | ⟨d, i, hsome, rfl⟩
    · obtain ⟨⟨found', outer', rest'⟩, hrec, -⟩ := except_bind_ok h
      rw [hnone]
      exact ih hrec
    · simp [hsome]

end Resolve

section Variables

variable {S : Prop} {around : List Outline} {o : Outline} {name : String} {pos : Position}

/-- The outlines see a name where the compiler finds it. -/
theorem CompilerState.Outlined.lookup {s : CompilerState} (hs : s.Outlined around o)
    (name : String) : (sightOf around o).lookup name =
      ((shapes s.current.locals).lookup name).or ((shapesOf s.enclosing).lookup name) := by
  have houter : shapesOf s.enclosing = around.flatMap Outline.locals := by
    rw [shapesOf, List.flatMap_def, Outlines.shapes hs, List.flatMap_def]
  rw [sightOf, hs.shows.locals, List.lookup_append, houter]

/-- A name is resolved to a local, to a variable of a function around, or to a global. -/
theorem ran_resolve_outlined {s s' : CompilerState} {a : Access} (hs : s.Outlined around o)
    (hr : Ran (resolve name pos) s a s') :
    (sightOf around o).lookup name ≠ some none ∧
      ((∃ i, a = .slot i) ∧ name ∈ o.names ∧ s'.Outlined around o ∨
        (∃ i, a = .upvalue i) ∧ name ∉ o.names ∧ name ∈ outerNames around ∧
          s'.Outlined around (o.plus (.captures [name])) ∨
        a = .global ∧ name ∉ o.names ∧ name ∉ outerNames around ∧ s'.Outlined around o) := by
  have hlocals : shapes s.current.locals = o.locals := hs.shows.locals
  rw [hs.lookup, hlocals]
  simp only [Compile.resolve, ran_bind, ran_get, ran_lift] at hr
  obtain ⟨_, _, ⟨rfl, rfl⟩, slot?, s, ⟨hlocal, rfl⟩, hr⟩ := hr
  rcases resolveLocal_ok hlocal with ⟨hnone, rfl⟩ | ⟨d, i, hsome, rfl⟩
  · simp only [ran_bind, ran_lift, ran_set] at hr
    obtain ⟨⟨found, current, enclosing⟩, _, ⟨hup, rfl⟩, _, _, rfl, hr⟩ := hr
    rw [hlocals] at hnone
    rw [hnone]
    have hnot : name ∉ o.names := lookup_eq_none_iff_names.1 hnone
    refine ⟨resolveUpvalue_ok hup, .inr ?_⟩
    obtain ⟨-, -, ⟨houter, rfl, hout⟩ | ⟨houter, i, _, rfl, -, -, hout⟩⟩ :=
      Outlines.resolveUpvalue hs hup
    · obtain ⟨rfl, rfl⟩ := ran_pure.1 hr
      exact .inr ⟨rfl, hnot, houter, hout⟩
    · obtain ⟨rfl, rfl⟩ := ran_pure.1 hr
      exact .inl ⟨⟨i, rfl⟩, hnot, houter, hout⟩
  · obtain ⟨rfl, rfl⟩ := ran_pure.1 hr
    rw [hlocals] at hsome
    refine ⟨by simp [hsome], .inl ⟨⟨i, rfl⟩, ?_, hs⟩⟩
    by_contra hnot
    rw [lookup_eq_none_iff_names.2 hnot] at hsome
    cases hsome

/-- A name that is not resolved means a variable whose value is still to come, or there are too many
captures. -/
theorem stops_resolve_outlined {s : CompilerState} {d : Diagnostic} (hs : s.Outlined around o)
    (hd : Stops (resolve name pos) s d) :
    (sightOf around o).lookup name = some none ∨
      name ∉ o.names ∧ name ∈ outerNames around ∧ ¬ Within around (o.plus (.captures [name])) := by
  have hlocals : shapes s.current.locals = o.locals := hs.shows.locals
  simp only [Compile.resolve, stops_bind, not_stops_get, false_or, ran_get, stops_lift,
    ran_lift] at hd
  obtain ⟨_, _, ⟨rfl, rfl⟩, h | ⟨slot?, s, ⟨hlocal, rfl⟩, h⟩⟩ := hd
  · rw [← FunctionState.resolveOuter_eq] at h
    rw [hs.lookup, resolveOuter_error h]
    exact .inl rfl
  rcases resolveLocal_ok hlocal with ⟨hnone, rfl⟩ | ⟨_, i, -, rfl⟩
  · simp only [stops_bind, stops_lift] at h
    rcases h with h | ⟨⟨found, current, enclosing⟩, _, -, h⟩
    · obtain ⟨houter, hpending | hfull⟩ := Outlines.resolveUpvalue_error hs h
      · left
        rw [sightOf, List.lookup_append, ← hlocals, hnone]
        exact hpending
      · exact .inr ⟨lookup_eq_none_iff_names.1 (hlocals ▸ hnone), houter, hfull⟩
    · rcases h with h | ⟨_, _, -, h⟩
      · exact absurd h not_stops_set
      · cases found <;> exact absurd h not_stops_pure
  · exact absurd h not_stops_pure

/-- An instruction that names a variable. -/
theorem Checks.access {f : Access → Gen Unit} {line : Nat}
    (hslot : ∀ i o, Checks S around o (o.plus (.ops line 1)) True (f (.slot i)))
    (hup : ∀ i o, Checks S around o (o.plus (.ops line 1)) True (f (.upvalue i)))
    (hglobal : ∀ o, Checks S around o ((o.plus (.name name)).plus (.ops line 1)) True (f .global)) :
    Checks S around o ((o.plus (useOf around o name)).plus (.ops line 1))
      ((sightOf around o).lookup name ≠ some none) (Compile.resolve name pos >>= f) where
  grows h := h.before.before
  keeps s a s' hs hr := by
    obtain ⟨access, t, hra, hrf⟩ := ran_bind.1 hr
    obtain ⟨hknown, hcase⟩ := ran_resolve_outlined hs hra
    refine ⟨?_, hknown⟩
    rcases hcase with ⟨⟨i, rfl⟩, hlocal, ht⟩ | ⟨⟨i, rfl⟩, hlocal, houter, ht⟩ |
      ⟨rfl, hlocal, houter, ht⟩
    · rw [useOf, if_pos hlocal, Outline.plus_nothing]
      exact ((hslot i o).keeps ht hrf).1
    · rw [useOf, if_neg hlocal, if_pos houter]
      exact ((hup i _).keeps ht hrf).1
    · rw [useOf, if_neg hlocal, if_neg houter]
      exact ((hglobal o).keeps ht hrf).1
  stops s d hs hd hside hknown hwithin := by
    rcases stops_bind.1 hd with hd | ⟨access, t, hra, hd⟩
    · rcases stops_resolve_outlined hs hd with hpending | ⟨hlocal, houter, hfull⟩
      · exact hknown hpending
      · rw [useOf, if_neg hlocal, if_pos houter] at hwithin
        exact hfull hwithin.before
    · rcases (ran_resolve_outlined hs hra).2 with ⟨⟨i, rfl⟩, hlocal, ht⟩ |
        ⟨⟨i, rfl⟩, hlocal, houter, ht⟩ | ⟨rfl, hlocal, houter, ht⟩
      · rw [useOf, if_pos hlocal, Outline.plus_nothing] at hwithin
        exact (hslot i o).stops ht hd hside trivial hwithin
      · rw [useOf, if_neg hlocal, if_pos houter] at hwithin
        exact (hup i _).stops ht hd hside trivial hwithin
      · rw [useOf, if_neg hlocal, if_neg houter] at hwithin
        exact (hglobal o).stops ht hd hside trivial hwithin

/-- Reading a variable. -/
theorem Checks.getVariable (name : String) (pos : Position) :
    Checks S around o ((o.plus (useOf around o name)).plus (.ops pos.line 1))
      ((sightOf around o).lookup name ≠ some none) (Compile.getVariable name pos) :=
  .access (fun _ _ => .emit _ _) (fun _ _ => .emit _ _)
    fun _ => (Checks.addName name pos).after fun _ => .emit _ _

/-- Writing a variable. -/
theorem Checks.setVariable (name : String) (pos : Position) :
    Checks S around o ((o.plus (useOf around o name)).plus (.ops pos.line 1))
      ((sightOf around o).lookup name ≠ some none) (Compile.setVariable name pos) :=
  .access (fun _ _ => .emit _ _) (fun _ _ => .emit _ _)
    fun _ => (Checks.addName name pos).after fun _ => .emit _ _

end Variables

/-! ## Scopes -/

/-- Whether a name is declared in the innermost scope, apart from captures. -/
def redeclares (name : String) (depth : Nat) : List (String × Option Nat) → Bool
  | [] => false
  | (n, d) :: outer =>
    if d.any (· < depth) then false else if n == name then true else redeclares name depth outer

/-- Whether a name is declared twice depends on the names and the depths of the locals. -/
theorem isRedeclared_shapes (name : String) (depth : Nat) (ls : List Local) :
    isRedeclared name depth ls = redeclares name depth (shapes ls) := by
  induction ls with
  | nil => rfl
  | cons l ls ih => rw [isRedeclared, shapes_cons, Local.shape, redeclares, ih]

/-- A new scope declares nothing. -/
theorem redeclares_settled {depth : Nat} {ls : List (String × Option Nat)} (h : Settled depth ls)
    (name : String) : redeclares name (depth + 1) ls = false := by
  cases ls with
  | nil => rfl
  | cons l ls =>
    obtain ⟨d, hd, hl⟩ := h l List.mem_cons_self
    rw [redeclares, hl]
    exact if_pos (decide_eq_true (Nat.lt_succ_of_le hd))

/-- A local that is declared or defined in the innermost scope. -/
theorem redeclares_cons {n name : String} {d : Option Nat} {depth : Nat}
    {ls : List (String × Option Nat)} (hd : d.any (· < depth) = false) :
    redeclares name depth ((n, d) :: ls) = (n == name || redeclares name depth ls) := by
  rw [redeclares, hd, if_neg Bool.false_ne_true]
  cases n == name <;> rfl

/-- The innermost scope declares some ordinary names. -/
def Outline.Lists (o : Outline) (scope : List String) : Prop :=
  ∀ name, isOrdinary name = true → redeclares name o.depth o.locals = scope.contains name

section Scopes

variable {o : Outline} {scope : List String}

/-- A new scope has no names. -/
theorem Outline.lists_inner (h : Settled o.depth o.locals) : o.inner.Lists [] := fun name _ =>
  redeclares_settled h name

/-- A local that belongs to the scope is one name more. -/
theorem Outline.Lists.cons (h : o.Lists scope) {d : Option Nat} (hd : d.any (· < o.depth) = false)
    (n : String) : Outline.Lists { o with locals := (n, d) :: o.locals } (n :: scope) := by
  intro name hname
  rw [redeclares_cons hd, h name hname, List.contains_cons, Bool.beq_comm]

/-- Hidden locals do not count. -/
theorem Outline.Lists.hide (h : o.Lists scope) {d : Option Nat} (hd : d.any (· < o.depth) = false)
    {n : String} (hn : isOrdinary n = false) :
    Outline.Lists { o with locals := (n, d) :: o.locals } scope := by
  intro name hname
  have hne : (n == name) = false := by
    refine beq_eq_false_iff_ne.2 ?_
    rintro rfl
    rw [hn] at hname
    cases hname
  rw [redeclares_cons hd, h name hname, hne, Bool.false_or]

/-- Nothing is at a depth below its own. -/
theorem some_any_lt (depth : Nat) : (some depth).any (· < depth) = false :=
  decide_eq_false (Nat.lt_irrefl depth)

/-- Names are bound one by one. -/
theorem Outline.bind_cons (o : Outline) (name : String) (names : List String) :
    o.bind (name :: names) = (o.bind [name]).bind names := by
  rw [Outline.bind_bind, List.singleton_append]

/-- So they are while their values are computed. -/
theorem Outline.await_cons (o : Outline) (name : String) (names : List String) :
    o.await (name :: names) = (o.await [name]).await names := by
  rw [Outline.await_await, List.singleton_append]

/-- Bound names are names of the scope. -/
theorem Outline.Lists.bind (h : o.Lists scope) (names : List String) :
    (o.bind names).Lists (names.reverse ++ scope) := by
  induction names generalizing o scope with
  | nil => exact h
  | cons name names ih =>
    rw [Outline.bind_cons, List.reverse_cons, List.append_assoc]
    exact ih (h.cons (some_any_lt o.depth) name)

/-- What a new scope has declared. -/
theorem redeclares_bind (o : Outline) (names : List String) (name : String) :
    redeclares name (o.bind names).depth (o.bind names).locals =
      (names.contains name || redeclares name o.depth o.locals) := by
  induction names generalizing o with
  | nil => rfl
  | cons n names ih =>
    rw [Outline.bind_cons, ih, List.contains_cons]
    have hone : redeclares name (o.bind [n]).depth (o.bind [n]).locals =
        (n == name || redeclares name o.depth o.locals) := redeclares_cons (some_any_lt o.depth)
    rw [hone, Bool.beq_comm, ← Bool.or_assoc, Bool.or_comm (names.contains name)]


/-- There is room for more locals, unless what is told of is beyond the limits. -/
def Outline.Roomy (o : Outline) (count : Nat) : Prop :=
  o.extent.fits = true → o.locals.length + count ≤ FunctionState.maxLocals

/-- A limit on the locals says that there is room for them. -/
theorem Outline.roomy_limit (o : Outline) (count : Nat) :
    (o.plus (.limit (o.locals.length + count ≤ FunctionState.maxLocals))).Roomy count := fun h =>
  of_decide_eq_true (Bool.and_eq_true_iff.1 h).2

/-- There is as much room, whatever else is taken up. -/
theorem Outline.Roomy.plus {count : Nat} (h : o.Roomy count) (x : Extent) :
    (o.plus x).Roomy count := fun hfits => h (Bool.and_eq_true_iff.1 hfits).1

/-- Names that are bound take up their room. -/
theorem Outline.Roomy.bind {names : List String} {count : Nat} (h : o.Roomy (names.length + count)) :
    (o.bind names).Roomy count := by
  intro hfits
  have hle := h hfits
  rw [Outline.bind, List.length_append, List.length_map, List.length_reverse]
  omega

/-- So they do while their values are computed. -/
theorem Outline.Roomy.await {names : List String} {count : Nat}
    (h : o.Roomy (names.length + count)) : (o.await names).Roomy count := by
  intro hfits
  have hle := h hfits
  rw [Outline.await, List.length_append, List.length_map, List.length_reverse]
  omega

/-- Room for some is room for fewer. -/
theorem Outline.Roomy.less {count count' : Nat} (h : o.Roomy count) (hle : count' ≤ count) :
    o.Roomy count' := fun hfits => by
  have hle' := h hfits
  omega

/-- Where there is no room for a local, the limits are exceeded. -/
theorem Outline.Roomy.lt (h : o.Roomy 1) {around : List Outline} {o' : Outline}
    (hwithin : Within around o') (hx : o'.extent = o.extent) :
    o.locals.length < FunctionState.maxLocals :=
  h (hx ▸ (Extent.within_iff.1 hwithin.fits.1).1)

variable {S : Prop} {around : List Outline} {name : String} {names : List String}
variable {pos : Position} {P : Prop}

/-- A declaration is refused for a name that is declared already, or for want of room. -/
theorem declare_error {f : FunctionState} {d : Diagnostic} (h : f.declare name pos = .error d) :
    isRedeclared name f.depth f.locals = true ∨ FunctionState.maxLocals ≤ f.locals.length := by
  rw [FunctionState.declare_eq] at h
  split at h
  · next hre => exact .inl hre
  · split at h
    · cases h
    · next hfull => exact .inr (Nat.le_of_not_lt hfull)

/-- A declaration that goes through is of a new name. -/
theorem declare_fresh {f g : FunctionState} (h : f.declare name pos = .ok g) :
    isRedeclared name f.depth f.locals = false := by
  rw [FunctionState.declare_eq] at h
  split at h
  · cases h
  · next hre => exact Bool.eq_false_iff.2 hre

/-- More locals on the frame. -/
theorem FunctionState.Shows.withScope {f : FunctionState} (h : f.Shows o) {locals : List Local}
    {shown : List (String × Option Nat)} (hs : shapes locals = shown) :
    FunctionState.Shows { f with scope := .ofList locals } { o with locals := shown } :=
  ⟨hs, h.depth, h.loops, h.size, h.begun, h.pool, h.lines⟩

/-- A name is declared once in a scope. -/
theorem Checks.declare (hroom : o.Roomy 1) (name : String) (pos : Position) :
    Checks S around o (o.await [name]) (redeclares name o.depth o.locals = false)
      (updateFunctionM (·.declare name pos)) := by
  have hw : Within around (o.await [name]) → Within around o :=
    Within.below (.refl _) (List.Subset.refl _)
  refine .updateM hw rfl ?_ ?_
  · intro f g hf h
    have hfresh := declare_fresh h
    rw [isRedeclared_shapes, hf.locals, hf.depth] at hfresh
    obtain rfl := declare_ok h
    exact ⟨hf.withScope (congrArg ((name, none) :: ·) hf.locals), rfl, hfresh⟩
  · intro f d hf h hp hwithin
    have hlt := hroom.lt hwithin rfl
    rcases declare_error h with hre | hfull
    · rw [isRedeclared_shapes, hf.locals, hf.depth, hp] at hre
      cases hre
    · rw [← length_shapes, hf.locals] at hfull
      omega

/-- A local whose value is there is declared once in a scope. -/
theorem Checks.defineLocal (hroom : o.Roomy 1) (name : String) (pos : Position) :
    Checks S around o (o.bind [name]) (redeclares name o.depth o.locals = false)
      (Compile.defineLocal name pos) := by
  have hw : Within around (o.bind [name]) → Within around o :=
    Within.below (.refl _) (List.Subset.refl _)
  refine .updateM hw rfl ?_ ?_
  · intro f g hf h
    have hfresh : isRedeclared name f.depth f.locals = false := by
      unfold FunctionState.define at h
      cases hd : f.declare name pos with
      | error e =>
        rw [hd] at h
        cases h
      | ok f' => exact declare_fresh hd
    rw [isRedeclared_shapes, hf.locals, hf.depth] at hfresh
    obtain rfl := define_ok h
    have hshape : shapes (⟨name, some f.depth, false⟩ :: f.locals) =
        (name, some o.depth) :: o.locals := by
      rw [shapes_cons, hf.locals, Local.shape, hf.depth]
    exact ⟨hf.withScope hshape, rfl, hfresh⟩
  · intro f d hf h hp hwithin
    have hlt := hroom.lt hwithin rfl
    have herror : f.declare name pos = .error d := by
      unfold FunctionState.define at h
      cases hd : f.declare name pos with
      | error e =>
        rw [hd] at h
        cases h
        rfl
      | ok f' =>
        rw [hd] at h
        cases h
    rcases declare_error herror with hre | hfull
    · rw [isRedeclared_shapes, hf.locals, hf.depth, hp] at hre
      cases hre
    · rw [← length_shapes, hf.locals] at hfull
      omega

/-- A local of a name that the scope does not declare yet. -/
theorem Checks.defineFresh (h : redeclares name o.depth o.locals = false) (hroom : o.Roomy 1)
    (pos : Position) : Checks S around o (o.bind [name]) True (Compile.defineLocal name pos) :=
  (Checks.defineLocal hroom name pos).congr (iff_true_intro h)

/-- A local of a scope that has declared others. -/
theorem Checks.defineNext (hs : Settled o.depth o.locals) (names : List String) (name : String)
    (h : names.contains name = false) (hroom : (o.inner.bind names).Roomy 1) (pos : Position) :
    Checks S around (o.inner.bind names) (o.inner.bind (names ++ [name])) True
      (Compile.defineLocal name pos) := by
  rw [← Outline.bind_bind]
  refine .defineFresh ?_ hroom pos
  rw [redeclares_bind, h, Bool.false_or]
  exact redeclares_settled hs name

/-- Names are declared one after another. -/
theorem Checks.declares (hl : o.Lists scope) (hnames : names.all isOrdinary = true)
    (hroom : o.Roomy names.length) (pos : Position) :
    Checks S around o (o.await names) (unused scope names = true)
      (names.forM fun name => updateFunctionM (·.declare name pos)) := by
  induction names generalizing o scope with
  | nil => exact (Checks.pure _).congr (by simp [unused])
  | cons name names ih =>
    obtain ⟨hname, hnames⟩ := Bool.and_eq_true_iff.1 hnames
    have hone : o.Roomy 1 := hroom.less (by simp)
    have hmore : (o.await [name]).Roomy names.length :=
      Outline.Roomy.await (hroom.less (by simp [Nat.add_comm]))
    have hrest := ih (hl.cons (d := none) rfl name) hnames hmore
    have hboth := (Checks.declare hone name pos : Checks S around o _ _ _).bind fun _ => hrest
    rw [Outline.await_cons]
    refine hboth.congr ?_
    rw [hl name hname, unused_cons, Bool.and_eq_true, Bool.not_eq_true']

/-- So are names whose values are there. -/
theorem Checks.defineAll (hl : o.Lists scope) (hnames : names.all isOrdinary = true)
    (hroom : o.Roomy names.length) (pos : Position) :
    Checks S around o (o.bind names) (unused scope names = true)
      (names.forM (Compile.defineLocal · pos)) := by
  induction names generalizing o scope with
  | nil => exact (Checks.pure _).congr (by simp [unused])
  | cons name names ih =>
    obtain ⟨hname, hnames⟩ := Bool.and_eq_true_iff.1 hnames
    have hone : o.Roomy 1 := hroom.less (by simp)
    have hmore : (o.bind [name]).Roomy names.length :=
      Outline.Roomy.bind (hroom.less (by simp [Nat.add_comm]))
    have hrest := ih (hl.cons (some_any_lt o.depth) name) hnames hmore
    have hboth := (Checks.defineLocal hone name pos : Checks S around o _ _ _).bind fun _ => hrest
    rw [Outline.bind_cons]
    refine hboth.congr ?_
    rw [hl name hname, unused_cons, Bool.and_eq_true, Bool.not_eq_true']

/-- Names have their values now. -/
theorem Checks.markInitialized (names : List String) :
    Checks S around (o.await names) (o.bind names) True
      (updateFunction (·.markInitialized names.length)) := by
  refine .update (Within.below (.refl _) (List.Subset.refl _)) rfl (fun _ => rfl) fun f hf => ?_
  have hmark := shapes_markInitialized f hf.locals
  rw [List.length_map, List.length_reverse, List.map_map, hf.depth] at hmark
  exact hf.withScope hmark

/-- A scope begins. -/
theorem Checks.beginScope : Checks S around o o.inner True Compile.beginScope :=
  .update (Within.below (.refl _) (List.Subset.refl _)) rfl (fun _ => rfl) fun _ hf =>
    ⟨hf.locals, congrArg (· + 1) hf.depth, hf.loops, hf.size, hf.begun, hf.pool, hf.lines⟩

/-- Locals that are dropped are instructions more. -/
theorem FunctionState.Shows.dropAll {f : FunctionState} (h : f.Shows o) (line : Nat)
    (ls : List Local) :
    (Compile.dropAll line f ls).Shows (o.plus (.ops line ls.length)) := by
  induction ls generalizing f o with
  | nil => exact (o.plus_nothing).symm ▸ h
  | cons l ls ih =>
    have hrest := ih (h.emit (dropOp l) line)
    rwa [← Outline.plus_append, ← Extent.ops_add, Nat.add_comm] at hrest

/-- Dropping locals leaves captures alone. -/
theorem upvalues_dropAll (line : Nat) (f : FunctionState) (ls : List Local) :
    (dropAll line f ls).upvalues = f.upvalues := by
  induction ls generalizing f with
  | nil => rfl
  | cons l ls ih => exact ih _

/-- So does dropping the locals of a scope. -/
theorem upvalues_dropScope (line : Nat) (f : FunctionState) (ls : List Local) :
    (f.dropScope line ls).upvalues = f.upvalues := by
  induction ls generalizing f with
  | nil => rfl
  | cons l ls ih =>
    rw [FunctionState.dropScope]
    split
    · exact ih _
    · rfl

/-- The locals of the innermost scope are dropped at its end. -/
theorem Checks.endScope (line : Nat) (h : Settled o.depth o.locals) (names : List String) :
    Checks S around (o.inner.bind names) (o.plus (.ops line names.length)) True
      (Compile.endScope line) := by
  have hw : Within around (o.plus (.ops line names.length)) → Within around (o.inner.bind names) :=
    Within.below (Extent.below_append _ _) (List.Subset.refl _)
  refine .update hw (List.append_nil _) (fun f => upvalues_dropScope _ _ _) fun f hf => ?_
  have hdepth : f.depth - 1 = o.depth := by
    rw [hf.depth]
    rfl
  obtain ⟨ls, rest, hsplit, hls, hrest⟩ := shapes_split hf.locals
  have hlength : ls.length = names.length := by
    rw [← length_shapes, hls, List.length_map, List.length_reverse]
  have hinner : ∀ l ∈ ls, l.depth.any (f.depth - 1 < ·) = true := by
    intro l hl
    have hmem : l.shape ∈ names.reverse.map (·, some (o.depth + 1)) :=
      hls ▸ List.mem_map_of_mem hl
    obtain ⟨name, -, heq⟩ := List.mem_map.1 hmem
    rw [show l.depth = some (o.depth + 1) from (congrArg Prod.snd heq).symm, hdepth]
    exact decide_eq_true (Nat.lt_succ_self _)
  have houter : ∀ l ∈ rest, l.depth.any (f.depth - 1 < ·) = false := by
    intro l hl
    obtain ⟨d, hd, heq⟩ := h l.shape (hrest ▸ List.mem_map_of_mem hl)
    rw [show l.depth = some d from heq, hdepth]
    exact decide_eq_false (Nat.not_lt.2 hd)
  have hdrop := dropScope_append line { f with depth := f.depth - 1 } ls rest hinner houter
  rw [← hsplit] at hdrop
  have hdeep : FunctionState.Shows { f with depth := f.depth - 1 }
      { o.inner.bind names with depth := o.depth } :=
    ⟨hf.locals, hdepth, hf.loops, hf.size, hf.begun, hf.pool, hf.lines⟩
  have hshows := (hdeep.dropAll line ls).withScope hrest
  rw [hlength] at hshows
  dsimp only at hdrop ⊢
  rw [FunctionState.locals_withDepth, hdrop]
  exact hshows

/-- Something in a scope of its own asks for what it asks for, and the names it binds are
dropped. -/
theorem Checks.inScope {body : Gen Unit} {x : Extent} (line : Nat) (h : Settled o.depth o.locals)
    (names : List String) (hbody : Checks S around o.inner ((o.inner.bind names).plus x) P body) :
    Checks S around o ((o.plus x).plus (.ops line names.length)) P (Compile.inScope line body) :=
  have hend : Checks S around ((o.inner.bind names).plus x) _ True (Compile.endScope line) :=
    Checks.endScope (o := o.plus x) line h names
  Checks.beginScope.after fun _ => hbody.before fun _ => hend

/-- Where a declaration of names makes globals, or locals that are new in their scope. -/
def Outline.Admits (o : Outline) (scope names : List String) : Prop :=
  o.depth = 0 ∨ unused scope names = true

end Scopes

/-! ## Loops -/

section Loops

variable {S : Prop} {around : List Outline} {o : Outline} {pos : Position}

/-- A function in the loops of an outline. -/
theorem FunctionState.Shows.withLoops {f : FunctionState} (h : f.Shows o)
    {records : List LoopRecord} {loops : List LoopOutline}
    (hloops : List.Forall₂ LoopRecord.Shows records loops) (hbegun : ∀ l ∈ loops, l.start ≤ o.size) :
    FunctionState.Shows { f with loops := records } { o with loops := loops } :=
  ⟨h.locals, h.depth, hloops, h.size, hbegun, h.pool, h.lines⟩

/-- A loop begins. -/
theorem Checks.beginLoop (ctx : Context) {target : Option Nat}
    (ht : ∀ t, target = some t → o.size ≤ t) :
    Checks S around o (o.loop ctx.tries.length) True (Compile.beginLoop ctx target) := by
  refine .update (Within.below (.refl _) (List.subset_cons_self _ _)) rfl (fun _ => rfl)
    fun f hf => ?_
  have hcount : f.locals.length = o.locals.length := by rw [← length_shapes, hf.locals]
  refine hf.withLoops (.cons ⟨rfl, hcount, ht, nofun, nofun⟩ hf.loops) ?_
  exact List.forall_mem_cons.2 ⟨Nat.le_refl _, hf.begun⟩

/-- A change of the innermost loop record. -/
theorem Checks.updateLoop {g : LoopRecord → LoopRecord}
    (hg : ∀ r l, l ∈ o.loops.head? → r.Shows l → (g r).Shows l) :
    Checks S around o o True (Compile.updateLoop g) := by
  refine .update id rfl (fun f => ?_) fun f hf => ?_
  · split <;> rfl
  · have hloops := hf.loops
    split
    · exact hf
    · next r rest hrecords =>
      rw [hrecords] at hloops
      obtain ⟨locals, depth, loops, extent⟩ := o
      cases hloops with
      | cons hfirst hrest =>
        refine hf.withLoops (.cons (hg r _ rfl hfirst) hrest) ?_
        exact hf.begun

/-- Jumps that stand in a loop are short where the loop is. -/
theorem short_of_start_le {start j : Nat} (hj : start ≤ j) (h : o.size - start ≤ Chunk.maxJump) :
    o.size - j - 1 ≤ Chunk.maxJump := by
  omega

/-- The jumps to the next round are patched. They are no longer than the loop. -/
theorem Checks.patchContinues (pos : Position) :
    Checks S around o o True (Compile.patchContinues pos) := by
  refine .withState id fun s hs => ?_
  have hloops := hs.shows.loops
  split
  · exact .pure _
  · next r rest hrecords =>
    rw [hrecords] at hloops
    refine Checks.after (.patchJumps (fun hwithin j hj => ?_) pos) fun _ => .updateLoop ?_
    · obtain ⟨locals, depth, loops, extent⟩ := o
      cases hloops with
      | cons hfirst _ =>
        exact short_of_start_le (hfirst.continues j hj) (hwithin.fits.2 _ List.mem_cons_self)
    · exact fun r l _ hr => ⟨hr.tries, hr.locals, hr.target, hr.breaks, nofun⟩

/-- Behind a loop that is within the limits. -/
theorem Checks.endLoop {l : LoopOutline} (pos : Position)
    (h : o.extent.fits = true → o.size - l.start ≤ Chunk.maxJump) :
    Checks S around { o with loops := l :: o.loops } o True (Compile.endLoop pos) := by
  have hw : Within around o → Within around { o with loops := l :: o.loops } := fun hwithin =>
    hwithin.mono (fun hfits => ⟨hfits.1, List.forall_mem_cons.2
      ⟨h (Extent.within_iff.1 hfits.1).1, hfits.2⟩⟩) (List.Subset.refl _)
  refine .withState hw fun s hs => ?_
  have hloops := hs.shows.loops
  split
  · next hrecords =>
    rw [hrecords] at hloops
    cases hloops
  · next r rest hrecords =>
    rw [hrecords] at hloops
    cases hloops with
    | cons hfirst hrest =>
      have hbegun := (List.forall_mem_cons.1 hs.shows.begun).2
      have hupdate : Checks S around { o with loops := l :: o.loops } o True
          (updateFunction fun f => { f with loops := rest }) :=
        .update hw rfl (fun _ => rfl) fun f hf => hf.withLoops hrest hbegun
      refine hupdate.after fun _ => .patchJumps (fun hwithin j hj => ?_) pos
      exact short_of_start_le (hfirst.breaks j hj) (h (Extent.within_iff.1 hwithin.fits.1).1)

end Loops

/-! ## Leaving `try` statements -/

section Leaving

variable {S S' : Prop} {around : List Outline} {o : Outline} {loops : List LoopOutline}
variable {frame : List (String × Option Nat)} {tries : List TryBlock} {exits : List Exit}
variable {pos : Position}

/-- An inlined `ensure` part asks for nothing wherever the locals are those of its statement. It takes
up as much everywhere. -/
def Inlined (S : Prop) (around : List Outline) (loops : List LoopOutline)
    (frame : List (String × Option Nat)) (y : Extent) (m : Gen Unit) : Prop :=
  ∀ depth x, Settled depth frame →
    Checks S around ⟨frame, depth, loops, x⟩ ⟨frame, depth, loops, x ++ y⟩ True m

/-- The `ensure` parts of the `try` statements that leaving the innermost loop leaves ask for nothing,
each with the locals its statement was entered with. -/
inductive Guarded (S : Prop) (around : List Outline) (loops : List LoopOutline) :
    List (String × Option Nat) → List TryBlock → List Exit → Prop
  /-- No more are left. -/
  | all {frame : List (String × Option Nat)} {tries : List TryBlock}
    (depth : ∀ l ∈ loops.head?, l.tries = tries.length) : Guarded S around loops frame tries []
  /-- One more, which was entered with fewer locals. -/
  | inside {frame below above : List (String × Option Nat)} {b : TryBlock} {tries : List TryBlock}
    {e : Exit} {exits : List Exit} (split : frame = above ++ below)
    (count : b.localCount = below.length) (locals : e.locals = below.length)
    (handlers : e.handlers = b.liveHandlers)
    (ensure : Inlined S around loops below e.ensure (b.ensure.forM id))
    (rest : Guarded S around loops below tries exits) :
    Guarded S around loops frame (b :: tries) (e :: exits)

/-- More locals do not change what leaving costs. -/
theorem Guarded.more (h : Guarded S around loops frame tries exits)
    (ls : List (String × Option Nat)) : Guarded S around loops (ls ++ frame) tries exits := by
  cases h with
  | all depth => exact .all depth
  | inside split count locals handlers ensure rest =>
    exact .inside (split ▸ (List.append_assoc _ _ _).symm) count locals handlers ensure rest

/-- A stronger side condition. -/
theorem Guarded.mono (h : Guarded S' around loops frame tries exits) (hside : S → S') :
    Guarded S around loops frame tries exits := by
  induction h with
  | all depth => exact .all depth
  | inside split count locals handlers ensure _ ih =>
    exact .inside split count locals handlers
      (fun depth x hd => (ensure depth x hd).mono hside) ih

/-- The statements that are left are those inside the loop. -/
theorem Guarded.length (h : Guarded S around loops frame tries exits) {l : LoopOutline}
    (hl : l ∈ loops.head?) : tries.length = exits.length + l.tries := by
  induction h with
  | all depth => rw [depth l hl, List.length_nil, Nat.zero_add]
  | inside _ _ _ _ _ _ ih =>
    rw [List.length_cons, List.length_cons, ih]
    omega

/-- Locals are dropped, but not forgotten. -/
theorem Checks.discardLocals (count line : Nat) :
    Checks S around o (o.plus (.ops line (o.locals.length - count))) True
      (updateFunction (·.discardLocals count line)) := by
  refine .update Within.before (List.append_nil _) (fun f => upvalues_dropAll _ _ _) fun f hf => ?_
  have hlength : (f.locals.take (f.locals.length - count)).length = o.locals.length - count := by
    rw [List.length_take, ← length_shapes, hf.locals]
    omega
  exact hlength ▸ hf.dropAll line _

/-- Leaving `try` statements asks for nothing. -/
theorem checks_leaveTries (line : Nat) (h : Guarded S around loops frame tries exits)
    {l : LoopOutline} (hl : l ∈ loops.head?) {depth : Nat} (hs : Settled depth frame) (x : Extent) :
    ∃ frame', Checks S around ⟨frame, depth, loops, x⟩
      ⟨frame', depth, loops, x ++ Situation.leave line frame.length exits⟩ True
      (leaveTries line (tries.take (tries.length - l.tries))) := by
  induction h generalizing x with
  | @all frame _ heq =>
    rw [heq l hl, Nat.sub_self, List.take_zero, Situation.leave, Extent.append_nothing]
    exact ⟨frame, .pure _⟩
  | @inside frame below above b tries e exits split count locals handlers ensure rest ih =>
    have hlength := rest.length hl
    rw [List.length_cons, Nat.sub_add_comm (by omega), List.take_succ_cons, leaveTries]
    have hbelow : Settled depth below := fun x hx =>
      hs x (split ▸ List.mem_append_right above hx)
    obtain ⟨frame', hrest⟩ := ih hbelow (x ++ .ops line (frame.length - b.localCount) ++
      .ops line b.liveHandlers ++ e.ensure)
    have hcut : ∀ y, Checks S around ⟨frame, depth, loops, y⟩ ⟨below, depth, loops, y⟩ True
        (updateFunction fun f =>
          { f with scope := .ofList (f.locals.drop (f.locals.length - b.localCount)) }) := by
      intro y
      refine .update (Within.below (.refl _) (List.Subset.refl _)) rfl (fun _ => rfl) fun f hf => ?_
      have hlocals : shapes f.locals = above ++ below := split ▸ hf.locals
      have hlen : f.locals.length - b.localCount = above.length := by
        rw [← length_shapes, hlocals, List.length_append, count, Nat.add_sub_cancel_right]
      have hdrop : shapes (f.locals.drop above.length) = below := by
        rw [shapes, List.map_drop, ← shapes, hlocals, List.drop_left]
      rw [hlen]
      exact hf.withScope hdrop
    have hdiscard : Checks S around ⟨frame, depth, loops, x⟩ _ True
        (updateFunction (·.discardLocals b.localCount line)) := .discardLocals b.localCount line
    have hhandlers : ∀ y, Checks S around ⟨below, depth, loops, y⟩
        ⟨below, depth, loops, y ++ .ops line b.liveHandlers⟩ True
        ((List.range b.liveHandlers).forM fun _ => Compile.emit .popHandler line) := fun y =>
      (Checks.emits _ line).to (by rw [List.length_range]; rfl)
    refine ⟨frame', Checks.to (hdiscard.after fun _ => (hcut _).after fun _ =>
      (hhandlers _).after fun _ => (ensure depth _ hbelow).after fun _ => hrest) ?_⟩
    rw [Situation.leave, handlers, locals, ← count]
    simp only [Extent.append_assoc]

/-- Behind the statements that are left the locals are as they were. -/
theorem Checks.exitTries {ctx : Context} (line : Nat) {l : LoopOutline}
    (h : Guarded S around o.loops o.locals ctx.tries exits) (hl : l ∈ o.loops.head?)
    (hs : Settled o.depth o.locals) :
    Checks S around o (o.plus (Situation.leave line o.locals.length exits)) True
      (Compile.exitTries ctx l.tries line) := by
  have hlength := h.length hl
  unfold Compile.exitTries
  split
  · next hle =>
    rw [List.eq_nil_of_length_eq_zero (show exits.length = 0 by omega), Situation.leave,
      Outline.plus_nothing]
    exact .pure _
  · obtain ⟨frame', hleave⟩ := checks_leaveTries line h hl hs o.extent
    refine .withState Within.before fun s hs => hleave.after fun _ =>
      .update (Within.below (.refl _) (List.Subset.refl _)) rfl (fun _ => rfl) fun f hf => ?_
    exact hf.withScope ((shapes_mergeCaptures _ _).trans hs.shows.locals)

/-- A jump that leaves the innermost loop, or starts its next round. -/
def jumpOf (line : Nat) (l : LoopOutline) (o : Outline) (exits : List Exit) : Extent :=
  Situation.leave line o.locals.length exits ++ .ops line (o.locals.length - l.locals) ++ .ops line 1

/-- `break` stands in a loop. -/
theorem Checks.emitBreak {ctx : Context} {x : Extent} (pos : Position)
    (h : Guarded S around o.loops o.locals ctx.tries exits) (hs : Settled o.depth o.locals)
    (hx : ∀ l ∈ o.loops.head?, x = jumpOf pos.line l o exits) :
    Checks S around o (o.plus x) (o.loops ≠ []) (Compile.emitBreak ctx pos) := by
  refine .withState Within.before fun s hout => ?_
  have hloops := hout.shows.loops
  split
  · next hl =>
    rw [hl] at hloops
    exact .fail _ _ (not_not.2 (List.forall₂_nil_left_iff.1 hloops))
  · next r rest hl =>
    rw [hl] at hloops
    obtain ⟨locals, depth, loops, extent⟩ := o
    cases hloops with
    | @cons _ l _ loops hfirst hrest =>
      rw [hx l rfl, jumpOf, Outline.plus_append, Outline.plus_append, hfirst.tries, hfirst.locals]
      have hbegun := hout.shows.begun l List.mem_cons_self
      refine Checks.congr (P := True) ?_ (iff_of_true trivial (List.cons_ne_nil _ _))
      refine (Checks.exitTries pos.line h rfl hs).after fun _ => .after (.discardLocals _ _) fun _ =>
        .jump (.updateLoop ?_)
      rintro r _ ⟨⟩ hr
      refine ⟨hr.tries, hr.locals, hr.target, fun j hj => ?_, hr.continues⟩
      rcases List.mem_append.1 hj with hj | hj
      · exact hr.breaks j hj
      · rw [List.mem_singleton.1 hj, Outline.size_plus, Outline.size_plus]
        omega

/-- `continue` stands in a loop. -/
theorem Checks.emitContinue {ctx : Context} {x : Extent} (pos : Position)
    (h : Guarded S around o.loops o.locals ctx.tries exits) (hs : Settled o.depth o.locals)
    (hx : ∀ l ∈ o.loops.head?, x = jumpOf pos.line l o exits) :
    Checks S around o (o.plus x) (o.loops ≠ []) (Compile.emitContinue ctx pos) := by
  refine .withState Within.before fun s hout => ?_
  have hloops := hout.shows.loops
  split
  · next hl =>
    rw [hl] at hloops
    exact .fail _ _ (not_not.2 (List.forall₂_nil_left_iff.1 hloops))
  · next r rest hl =>
    rw [hl] at hloops
    obtain ⟨locals, depth, loops, extent⟩ := o
    cases hloops with
    | @cons _ l _ loops hfirst hrest =>
      rw [hx l rfl, jumpOf, Outline.plus_append, Outline.plus_append, hfirst.tries, hfirst.locals]
      have hbegun := hout.shows.begun l List.mem_cons_self
      refine Checks.congr (P := True) ?_ (iff_of_true trivial (List.cons_ne_nil _ _))
      refine (Checks.exitTries pos.line h rfl hs).after fun _ =>
        .after (.discardLocals _ _) fun _ => ?_
      split
      · next start hstart =>
        refine .emitLoop fun hwithin => ?_
        -- the loop is not too long so far, with this jump
        have hshort := hwithin.fits.2 l List.mem_cons_self
        have hle := hfirst.target start hstart
        simp only [Outline.size_plus, Extent.size_ops] at hshort ⊢
        omega
      · refine .jump (.updateLoop ?_)
        rintro r _ ⟨⟩ hr
        refine ⟨hr.tries, hr.locals, hr.target, hr.breaks, fun j hj => ?_⟩
        rcases List.mem_append.1 hj with hj | hj
        · exact hr.continues j hj
        · rw [List.mem_singleton.1 hj, Outline.size_plus, Outline.size_plus]
          omega

end Leaving

end ScriptEngine.Compile
