import ScriptEngine.Proofs.Stacking

/-!
# Growth of a function under construction

A statement may declare locals, and it may record jumps out of the innermost loop that are patched
when the loop ends. `Extends` says what a run leaves as it was, and `Grows` adds what it owes: the
jumps it recorded, all to one level, and the jumps it has yet to patch itself. Branches are typed
here once for expressions and for statements: an expression is the case that records no jumps.
-/

namespace ScriptEngine.Compile

open Bytecode Source

/-- A loop apart from the jumps recorded for it. -/
def LoopRecord.shape (l : LoopRecord) : Option Nat × Nat × Nat :=
  (l.continueTarget, l.localCount, l.tryDepth)

/-- The loops of a function apart from their jumps. -/
def loopShapes (ls : List LoopRecord) : List (Option Nat × Nat × Nat) := ls.map LoopRecord.shape

/-- Records jumps of `break` and `continue` statements for the innermost loop. -/
def addJumps (breaks continues : List Nat) : List LoopRecord → List LoopRecord
  | [] => []
  | l :: ls =>
    { l with
      breakPatches := l.breakPatches ++ breaks
      continuePatches := l.continuePatches ++ continues } :: ls

@[simp] theorem addJumps_nil (ls : List LoopRecord) : addJumps [] [] ls = ls := by
  cases ls <;> simp [addJumps]

/-- Jumps recorded after others are recorded with them. -/
theorem addJumps_addJumps (bs cs bs' cs' : List Nat) (ls : List LoopRecord) :
    addJumps bs' cs' (addJumps bs cs ls) = addJumps (bs ++ bs') (cs ++ cs') ls := by
  cases ls <;> simp [addJumps]

@[simp] theorem loopShapes_addJumps (bs cs : List Nat) (ls : List LoopRecord) :
    loopShapes (addJumps bs cs ls) = loopShapes ls := by
  cases ls <;> rfl

/-- A run from one state to another adds code and locals and leaves the rest as it was, apart from
jumps recorded for loops and captures. -/
structure Extends (fresh : List (String × Option Nat)) (s : CompilerState) (τ : Typing)
    (s' : CompilerState) (τ' : Typing) : Prop where
  /-- Code is only added. -/
  size : s.size ≤ s'.size
  /-- Levels of code that was there stay. -/
  level : ∀ pc ≤ s.size, τ'.level pc = τ.level pc
  /-- The scope depth stays. -/
  depth : s'.current.depth = s.current.depth
  /-- The loops stay. -/
  loops : loopShapes s'.current.loops = loopShapes s.current.loops
  /-- New locals stand before the old ones. -/
  locals : shapes s'.current.locals = fresh ++ shapes s.current.locals
  /-- The functions around change in captures only. -/
  enclosing : List.Forall₂ Alike s.enclosing s'.enclosing

/-- What a run owes anew: the jumps it has recorded for the innermost loop owe the level `exit`, and
each of its own `debts` is a jump with the level it owes. All are among the new instructions. Where
there is no level `exit`, or no loop, nothing is recorded. -/
structure Owes (exit : Option Level) (debts : List (Nat × Level)) (s : CompilerState) (τ : Typing)
    (s' : CompilerState) (τ' : Typing) (breaks continues : List Nat) : Prop where
  /-- The jumps are recorded. -/
  loops : s'.current.loops = addJumps breaks continues s.current.loops
  /-- No jump counts twice. -/
  nodup : (breaks ++ continues ++ debts.map Prod.fst).Nodup
  /-- They are new. -/
  within : ∀ j ∈ breaks ++ continues ++ debts.map Prod.fst, s.size ≤ j ∧ j < s'.size
  /-- Nothing is recorded without a loop. -/
  empty : exit = none ∨ s.current.loops = [] → breaks ++ continues = []
  /-- A `continue` is recorded only where its target is not known yet. -/
  targeted : ∀ l ls, s.current.loops = l :: ls → l.continueTarget ≠ none → continues = []
  /-- What recorded jumps owe. -/
  jump : ∀ j ∈ breaks ++ continues, τ'.owed j = exit
  /-- What the other jumps owe. -/
  debt : ∀ e ∈ debts, τ'.owed e.1 = some e.2
  /-- Nothing else is owed anew. -/
  rest : ∀ j ∉ breaks ++ continues ++ debts.map Prod.fst, τ'.owed j = τ.owed j

/-- A run adds code, locals and jumps. -/
structure Grows (exit : Option Level) (debts : List (Nat × Level))
    (fresh : List (String × Option Nat)) (s : CompilerState) (τ : Typing) (s' : CompilerState)
    (τ' : Typing) : Prop extends Extends fresh s τ s' τ' where
  /-- What it owes. -/
  owes : ∃ breaks continues, Owes exit debts s τ s' τ' breaks continues

section Relations

variable {exit : Option Level} {debts debts' : List (Nat × Level)}
variable {fresh fresh' : List (String × Option Nat)}
variable {s t s' : CompilerState} {τ υ τ' : Typing}

theorem Extends.refl (s : CompilerState) (τ : Typing) : Extends [] s τ s τ :=
  ⟨Nat.le_refl _, fun _ _ => rfl, rfl, rfl, rfl, forall₂_alike_refl _⟩

theorem Extends.trans (a : Extends fresh s τ t υ) (b : Extends fresh' t υ s' τ') :
    Extends (fresh' ++ fresh) s τ s' τ' where
  size := Nat.le_trans a.size b.size
  level pc h := (b.level pc (Nat.le_trans h a.size)).trans (a.level pc h)
  depth := b.depth.trans a.depth
  loops := b.loops.trans a.loops
  locals := by rw [b.locals, a.locals, List.append_assoc]
  enclosing := forall₂_alike_trans a.enclosing b.enclosing

/-- A run that keeps everything owes nothing, whatever its jumps would owe. -/
theorem KeepsScopes.grows (h : KeepsScopes s τ s' τ') : Grows exit [] [] s τ s' τ' where
  size := h.size
  level := h.level
  depth := h.depth
  loops := by rw [h.loops]
  locals := h.locals
  enclosing := h.enclosing
  owes := by
    refine ⟨[], [], ?_, .nil, nofun, fun _ => rfl, fun _ _ _ _ => rfl, nofun, nofun, ?_⟩
    · rw [addJumps_nil, h.loops]
    · intro pc _
      rw [h.owed]

/-- A run that can record no jumps and leaves none to patch owes nothing anew. -/
theorem Grows.owed_eq (h : Grows none [] fresh s τ s' τ') :
    τ'.owed = τ.owed ∧ s'.current.loops = s.current.loops := by
  obtain ⟨bs, cs, ho⟩ := h.owes
  obtain ⟨rfl, rfl⟩ := List.append_eq_nil_iff.1 (ho.empty (.inl rfl))
  refine ⟨?_, ?_⟩
  · funext pc
    exact ho.rest pc List.not_mem_nil
  · rw [ho.loops, addJumps_nil]

/-- If it declares nothing either, it keeps everything. -/
theorem Grows.keeps (h : Grows none [] [] s τ s' τ') : KeepsScopes s τ s' τ' :=
  ⟨h.size, h.level, h.owed_eq.1, h.depth, h.owed_eq.2, h.locals, h.enclosing⟩

/-- Runs one after the other owe what both owe. -/
theorem Owes.trans {bs cs bs' cs' : List Nat} (a : Owes exit debts s τ t υ bs cs)
    (b : Owes exit debts' t υ s' τ' bs' cs') (hst : s.size ≤ t.size) (hts : t.size ≤ s'.size) :
    Owes exit (debts ++ debts') s τ s' τ' (bs ++ bs') (cs ++ cs') := by
  have hperm : ((bs ++ bs') ++ (cs ++ cs') ++ (debts ++ debts').map Prod.fst).Perm
      ((bs ++ cs ++ debts.map Prod.fst) ++ (bs' ++ cs' ++ debts'.map Prod.fst)) := by
    refine List.perm_iff_count.2 fun j => ?_
    simp only [List.count_append, List.map_append]
    omega
  have hold : ∀ j ∈ bs ++ cs ++ debts.map Prod.fst,
      j ∉ bs' ++ cs' ++ debts'.map Prod.fst := by
    intro j hj hj'
    have := (a.within j hj).2
    have := (b.within j hj').1
    omega
  refine ⟨?_, ?_, ?_, ?_, ?_, ?_, ?_, ?_⟩
  · rw [b.loops, a.loops, addJumps_addJumps]
  · refine hperm.nodup_iff.2 (List.nodup_append.2 ⟨a.nodup, b.nodup, ?_⟩)
    rintro j hj _ hj' rfl
    exact hold j hj hj'
  · intro j hj
    rcases List.mem_append.1 (hperm.mem_iff.1 hj) with h | h
    · have := a.within j h
      omega
    · have := b.within j h
      omega
  · intro h
    have ha := List.append_eq_nil_iff.1 (a.empty h)
    have hb := List.append_eq_nil_iff.1 (b.empty (h.imp id fun hs => by rw [a.loops, hs]; rfl))
    rw [ha.1, ha.2, hb.1, hb.2]
    rfl
  · intro l ls hl ht
    have hl' : t.current.loops = addJumps bs cs (l :: ls) := by rw [a.loops, hl]
    rw [a.targeted l ls hl ht, b.targeted _ _ hl' ht]
    rfl
  · intro j hj
    have hmem : j ∈ bs ++ cs ∨ j ∈ bs' ++ cs' := by
      simp only [List.mem_append] at hj ⊢
      tauto
    rcases hmem with h | h
    · rw [b.rest j (hold j (List.mem_append_left _ h)), a.jump j h]
    · exact b.jump j h
  · intro e he
    rcases List.mem_append.1 he with h | h
    · rw [b.rest _ (hold _ (List.mem_append_right _ (List.mem_map_of_mem h))), a.debt e h]
    · exact b.debt e h
  · intro j hj
    have hj' := mt hperm.mem_iff.2 hj
    rw [List.mem_append, not_or] at hj'
    rw [b.rest j hj'.2, a.rest j hj'.1]

/-- Runs that grow code one after the other grow it altogether. -/
theorem Grows.trans (a : Grows exit debts fresh s τ t υ) (b : Grows exit debts' fresh' t υ s' τ') :
    Grows exit (debts ++ debts') (fresh' ++ fresh) s τ s' τ' where
  toExtends := a.toExtends.trans b.toExtends
  owes := by
    obtain ⟨bs, cs, ha⟩ := a.owes
    obtain ⟨bs', cs', hb⟩ := b.owes
    exact ⟨_, _, ha.trans hb a.size b.size⟩

/-- Code that keeps scopes may come before code that grows. -/
theorem KeepsScopes.trans_grows (a : KeepsScopes s τ t υ) (b : Grows exit debts fresh t υ s' τ') :
    Grows exit debts fresh s τ s' τ' := by
  have h := (a.grows : Grows exit [] [] s τ t υ).trans b
  rwa [List.nil_append, List.append_nil] at h

/-- Code that keeps scopes may come after code that grows. -/
theorem Grows.trans_keepsScopes (a : Grows exit debts fresh s τ t υ) (b : KeepsScopes t υ s' τ') :
    Grows exit debts fresh s τ s' τ' := by
  have h := a.trans (b.grows : Grows exit [] [] t υ s' τ')
  rwa [List.nil_append, List.append_nil] at h

end Relations

/-! ## Jumps that are patched later -/

section Jumps

variable {exact : Bool} {exit : Option Level} {fresh : List (String × Option Nat)}
variable {s t t' : CompilerState} {τ υ : Typing} {L L₀ X : Level}

/-- A forward jump may be appended with a promise, which it then owes. -/
theorem grows_jump (exit : Option Level) (h : At exact s.chunk τ L) (op : Op) (L' X : Level)
    (hs : op.Safe exact L)
    (hf : op.fallsThrough = true → (op.next s.size L).Flows exact L')
    (hd : op.forwardDistance?.isSome = true) (hX : (op.landing s.size L).Flows exact X)
    (line : Nat) :
    ∃ τ', At exact (s.withCurrent (s.current.emit op line)).chunk τ' L' ∧
      Grows exit [(s.size, X)] [] s τ (s.withCurrent (s.current.emit op line)) τ' := by
  have hsize := size_emit s op line
  refine ⟨_, h.appendForward hs hf hd hX line, ⟨by omega, fun _ hpc => Typing.append_level hpc, rfl,
    rfl, rfl, forall₂_alike_refl _⟩, [], [], ?_⟩
  refine ⟨?_, by simp, ?_, fun _ => rfl, fun _ _ _ _ => rfl, nofun, ?_, ?_⟩
  · rw [addJumps_nil]
    rfl
  · intro j hj
    obtain rfl := List.mem_singleton.1 hj
    omega
  · intro e he
    obtain rfl := List.mem_singleton.1 he
    exact if_pos rfl
  · intro j hj
    exact if_neg (mt List.mem_singleton.2 hj)

/-- A debt is paid by patching the jump where the level is the one it owes. -/
theorem Grows.patch (pre : List (Nat × Level)) {post : List (Nat × Level)} {j : Nat}
    (h : Grows exit (pre ++ (j, X) :: post) fresh s τ t υ) (hs : At exact s.chunk τ L₀)
    (hat : At exact t.chunk υ L) (hX : X.Flows exact L) {pos : Position} {u : Unit}
    (hr : Ran (patchJump j pos) t u t') :
    ∃ υ', At exact t'.chunk υ' L ∧ Grows exit (pre ++ post) fresh s τ t' υ' := by
  obtain ⟨bs, cs, ho⟩ := h.owes
  obtain ⟨c, hc, rfl⟩ := ran_patchJump.1 hr
  have hsize : (t.withCurrent { t.current with chunk := c }).size = t.size :=
    Chunk.patchJump?_size hc
  have hmem : (j, X) ∈ pre ++ (j, X) :: post := by simp
  have hj : j ∈ bs ++ cs ++ (pre ++ (j, X) :: post).map Prod.fst :=
    List.mem_append_right _ (List.mem_map_of_mem hmem)
  have hnew := ho.within j hj
  have hperm : (bs ++ cs ++ (pre ++ (j, X) :: post).map Prod.fst).Perm
      (j :: (bs ++ cs ++ (pre ++ post).map Prod.fst)) := by
    refine List.perm_iff_count.2 fun i => ?_
    simp only [List.count_append, List.map_append, List.map_cons, List.count_cons]
    omega
  have hnodup := hperm.nodup_iff.1 ho.nodup
  rw [List.nodup_cons] at hnodup
  -- the patched jump is none of those that remain
  have hother : ∀ i ∈ bs ++ cs ++ (pre ++ post).map Prod.fst, i ≠ j := by
    rintro i hi rfl
    exact hnodup.1 hi
  refine ⟨_, hat.patch (ho.debt _ hmem) hX hc, ⟨by rw [hsize]; exact h.size, h.level, h.depth, h.loops,
    h.locals, h.enclosing⟩, bs, cs, ho.loops, hnodup.2, ?_, ho.empty, ho.targeted, ?_, ?_, ?_⟩
  · intro i hi
    rw [hsize]
    exact ho.within i (hperm.mem_iff.2 (List.mem_cons_of_mem _ hi))
  · intro i hi
    rw [← ho.jump i hi]
    exact if_neg (hother i (List.mem_append_left _ hi))
  · intro e he
    have hne := hother e.1 (List.mem_append_right _ (List.mem_map_of_mem he))
    have he' : e ∈ pre ++ (j, X) :: post := by
      simp only [List.mem_append, List.mem_cons] at he ⊢
      tauto
    rw [← ho.debt e he']
    exact if_neg hne
  · intro i hi
    simp only
    split
    · next heq =>
      subst heq
      exact (hs.bound _ hnew.1).symm
    · next hne =>
      refine ho.rest i fun hi' => ?_
      rcases List.mem_cons.1 (hperm.mem_iff.1 hi') with h' | h'
      · exact hne h'
      · exact hi h'

end Jumps

/-! ## Branches -/

section Branches

variable {exact : Bool} {exit : Option Level} {s s' : CompilerState} {τ : Typing} {L : Level}

/-- From every state that extends the start, the generator grows the code from one level to
another and leaves nothing to patch. -/
def GrowsFrom (exact : Bool) (exit : Option Level) (s : CompilerState) (τ : Typing)
    (L L' : Level) (m : Gen Unit) : Prop :=
  ∀ ⦃t υ t'⦄, Extends [] s τ t υ → At exact t.chunk υ L → Ran m t () t' →
    ∃ υ', At exact t'.chunk υ' L' ∧ Grows exit [] [] t υ t' υ'

/-- A branch around code that moves the stack to one level. Without an alternative that is the level
of the start. -/
theorem grows_branch {pos : Position} {condition thenBranch : Gen Unit}
    {elseBranch : Option (Gen Unit)} {q : Nat}
    (hc : GrowsFrom exact exit s τ L (L.push 1) condition)
    (ht : GrowsFrom exact exit s τ L (L.push q) thenBranch)
    (he : ∀ m, elseBranch = some m → GrowsFrom exact exit s τ L (L.push q) m)
    (hq : elseBranch = none → q = 0) (hL : L.Ready) (hat : At exact s.chunk τ L)
    (hr : Ran (emitBranch pos condition thenBranch elseBranch) s () s') :
    ∃ τ', At exact s'.chunk τ' (L.push q) ∧ Grows exit [] [] s τ s' τ' := by
  simp only [emitBranch, ran_bind, ran_emitJump] at hr
  obtain ⟨_, t₁, hrc, j, t₂, ⟨rfl, rfl⟩, _, t₃, hrt, hr⟩ := hr
  obtain ⟨υ₁, hat₁, hg₁⟩ := hc (.refl _ _) hat hrc
  obtain ⟨υ₂, hat₂, hg₂⟩ := grows_jump exit hat₁ (.jumpIfFalse 0) L L
    (Op.safe_covered rfl nofun (Nat.succ_lt_succ hL.pos) hL.covered) (fun _ => .refl _ _) rfl
    (.refl _ _) pos.line
  have hg₂ := hg₁.trans hg₂
  obtain ⟨υ₃, hat₃, hg₃⟩ := ht hg₂.toExtends hat₂ hrt
  have hg₃ := hg₂.trans hg₃
  cases elseBranch with
  | none =>
    obtain rfl := hq rfl
    exact hg₃.patch [] hat hat₃ (.refl _ _) hr
  | some other =>
    simp only [ran_bind, ran_emitJump] at hr
    obtain ⟨k, t₄, ⟨rfl, rfl⟩, _, t₅, hrp, _, t₆, hre, hr⟩ := hr
    obtain ⟨υ₄, hat₄, hg₄⟩ := grows_jump exit hat₃ (.jump 0) L (L.push q)
      (Op.safe_covered rfl nofun (Nat.lt_of_lt_of_le hL.pos (Nat.le_add_right _ _)) hL.covered)
      nofun rfl (.refl _ _) pos.line
    obtain ⟨υ₅, hat₅, hg₅⟩ := (hg₃.trans hg₄).patch [] hat hat₄ (.refl _ _) hrp
    obtain ⟨υ₆, hat₆, hg₆⟩ := he other rfl hg₅.toExtends hat₅ hre
    exact (hg₅.trans hg₆).patch [] hat hat₆ (.refl _ _) hr

/-- A generator that moves the stack grows the code from every state that extends the start. -/
theorem Turns.growsFrom {p q : Nat} {m : Gen Unit} (h : Turns exact p q m) (hL : L.Ready)
    (hreach : reach s.current.locals ≤ L.height) :
    GrowsFrom exact exit s τ (L.push p) (L.push q) m := by
  intro t υ t' hext hat hr
  have hreach' : reach t.current.locals ≤ L.height := reach_congr hext.locals ▸ hreach
  obtain ⟨υ', hat', hk⟩ := h hat hL hreach' hr
  exact ⟨υ', hat', hk.grows⟩

/-- A branch around code that moves the stack. -/
theorem turns_branch {q : Nat} {pos : Position} {condition thenBranch : Gen Unit}
    {elseBranch : Option (Gen Unit)} (hc : Turns exact 0 1 condition)
    (ht : Turns exact 0 q thenBranch) (he : ∀ m, elseBranch = some m → Turns exact 0 q m)
    (hq : elseBranch = none → q = 0) :
    Turns exact 0 q (emitBranch pos condition thenBranch elseBranch) := by
  intro s s' τ L _ hat hL hreach hr
  obtain ⟨τ', hat', hg⟩ := grows_branch (hc.growsFrom hL hreach) (ht.growsFrom hL hreach)
    (fun m hm => (he m hm).growsFrom hL hreach) hq hL hat hr
  exact ⟨τ', hat', hg.keeps⟩

/-- A short-circuit operator around the code of its operands: the jump keeps the left value, and
otherwise the right value takes its place. -/
theorem turns_shortCircuit {pos : Position} {left right : Gen Unit} {op : Op}
    (hop : op = .jumpIfFalse 0 ∨ op = .jumpIfTrue 0) (hl : Turns exact 0 1 left)
    (hr : Turns exact 0 1 right) :
    Turns exact 0 1 (do
      left
      emit .dup pos.line
      let jump ← emitJump op pos.line
      emit .pop pos.line
      right
      patchJump jump pos) := by
  intro s s' τ L _ hat hL hreach hrun
  simp only [ran_bind, ran_emitJump] at hrun
  obtain ⟨_, t₁, hrl, _, t₂, hrd, j, t₃, ⟨rfl, rfl⟩, _, t₄, hrp, _, t₅, hrr, hpatch⟩ := hrun
  obtain ⟨υ₂, hat₂, hk₂⟩ := (hl.bind fun _ => turns_emit pos.line rfl rfl : Turns exact 0 2
    (left >>= fun _ => emit .dup pos.line)) hat hL hreach (ran_bind.2 ⟨_, _, hrl, hrd⟩)
  have hsafe : op.Safe exact (L.push 2) := by
    have h2 : 1 < (L.push 2).height := Nat.lt_of_lt_of_le Nat.one_lt_two (Nat.le_add_left 2 _)
    rcases hop with rfl | rfl <;> exact Op.safe_covered rfl nofun h2 hL.covered
  obtain ⟨υ₃, hat₃, hg₃⟩ := grows_jump none hat₂ op (L.push 1) (L.push 1) hsafe
    (by rcases hop with rfl | rfl <;> exact fun _ => .refl _ _)
    (by rcases hop with rfl | rfl <;> rfl) (by rcases hop with rfl | rfl <;> exact .refl _ _)
    pos.line
  have hg₃ := hk₂.grows.trans hg₃
  obtain ⟨υ₅, hat₅, hg₅⟩ := (Turns.bind (turns_emit pos.line rfl rfl) fun _ => hr : Turns exact 1 1
    (emit .pop pos.line >>= fun _ => right)).growsFrom hL hreach hg₃.toExtends hat₃
      (ran_bind.2 ⟨_, _, hrp, hrr⟩)
  obtain ⟨τ', hat', hg'⟩ := (hg₃.trans hg₅).patch [] hat hat₅ (.refl _ _) hpatch
  exact ⟨τ', hat', hg'.keeps⟩

/-- Closing a resource leaves the stack as it was. -/
theorem turns_emitClose (pos : Position) (name : String) :
    Turns exact 0 0 (emitClose pos name) := by
  refine turns_branch (turns_getVariable name pos) ?_ nofun fun _ => rfl
  refine .bind (turns_getVariable name pos) fun _ => .bind (turns_addName _ pos) fun i => ?_
  exact .bind (turns_emit pos.line (Op.isPlain_invoke 0 i) (Op.effect_invoke 0 i)) fun _ =>
    turns_emit pos.line rfl rfl

end Branches

end ScriptEngine.Compile
