import ScriptEngine.Proofs.Leaving

/-!
# Code of statements

`Inside` is what holds where a statement is compiled: a place for statements, and, within a loop, a
way out to the level of the loop. `Builds` says that a generator grows typed code from every such
place and that only the locals it declares remain on the stack. Each compound statement is proved to
build code from the code of its parts.
-/

namespace ScriptEngine.Compile

open Bytecode Source

/-- The locals of a place fit its scope: the locals a jump drops are all there. Where heights are
exact this is what makes jumps arrive at the height of the loop. -/
def Fits (scope : Scope) (left : List TryBlock) (count height : Nat) : Prop :=
  match scope with
  | .free => left = [] ∧ count ≤ height
  | .bare => (∀ b ∈ left, b.localCount = height) ∧ count ≤ height
  | .bound => True

/-- A place within a loop. -/
structure InLoop (exact : Bool) (scope : Scope) (tries : List TryBlock) (X : Level) (size : Nat)
    (τ : Typing) (L : Level) (l : LoopRecord) : Prop where
  /-- Where its jumps land. -/
  lands : Lands X size τ l
  /-- The loop began outside the `try` statements it leaves. -/
  depth : l.tryDepth ≤ tries.length
  /-- Leaving them leads there. -/
  leaves : LeavesTo exact l.tryDepth X tries L.guards L.entries
  /-- The locals fit. -/
  fits : exact = true →
    Fits scope (tries.take (tries.length - l.tryDepth)) l.localCount L.height

/-- A place where a statement is compiled within some `try` statements. The level `exit` is that of
the innermost loop. -/
structure Inside (exact : Bool) (scope : Scope) (tries : List TryBlock) (exit : Option Level)
    (s : CompilerState) (τ : Typing) (L : Level) : Prop extends Placed exact s τ L where
  /-- What holds within a loop. -/
  loop : ∀ l ls, s.current.loops = l :: ls →
    ∃ X, exit = some X ∧ InLoop exact scope tries X s.size τ L l

/-- The generator grows typed code from every place in a scope. Locals that remain on the stack were
declared at the current depth, and only where the statement `declares` something below the top
level. -/
def Builds (exact : Bool) (scope : Scope) (tries : List TryBlock) (declares : Bool)
    (m : Gen Unit) : Prop :=
  ∀ ⦃s s' : CompilerState⦄ ⦃τ : Typing⦄ ⦃L : Level⦄ ⦃exit : Option Level⦄,
    Inside exact scope tries exit s τ L → Ran m s () s' →
      ∃ τ' fresh, At exact s'.chunk τ' (L.push fresh.length) ∧ Grows exit [] fresh s τ s' τ' ∧
        DeclaredAt s.current.depth fresh ∧ (declares = false ∨ s.current.depth = 0 → fresh = [])

section Places

variable {exact : Bool} {scope : Scope} {tries : List TryBlock} {exit : Option Level}
variable {s t : CompilerState} {τ υ : Typing} {L : Level}

/-- The locals fit behind a statement. -/
theorem Fits.after {left : List TryBlock} {count height n : Nat} {declares : Bool}
    (h : Fits scope left count height) (hn : declares = false → n = 0) :
    Fits (scope.after declares) left count (height + n) := by
  cases scope with
  | free => exact ⟨h.1, Nat.le_add_right_of_le h.2⟩
  | bare =>
    cases declares with
    | false =>
      obtain rfl := hn rfl
      exact h
    | true => trivial
  | bound => trivial

/-- Growth leads from one place to another, within other `try` statements and in another scope, if
the loop can be left from there and the locals fit. -/
theorem Inside.move {fresh : List (String × Option Nat)} {tries' : List TryBlock} {scope' : Scope}
    {M : Level} (h : Inside exact scope tries exit s τ L) (he : Extends fresh s τ t υ)
    (hat : At exact t.chunk υ M) (hM : M.Ready) (hheight : M.height = L.height + fresh.length)
    (hfresh : DeclaredAt s.current.depth fresh) (hlen : tries.length ≤ tries'.length)
    (hleaves : ∀ d X, d ≤ tries.length → LeavesTo exact d X tries L.guards L.entries →
      LeavesTo exact d X tries' M.guards M.entries)
    (hfits : ∀ d count, d ≤ tries.length →
      Fits scope (tries.take (tries.length - d)) count L.height →
      Fits scope' (tries'.take (tries'.length - d)) count M.height) :
    Inside exact scope' tries' exit t υ M where
  toPlaced := h.toPlaced.extends he hat hM hheight hfresh
  loop l' ls' hl' := by
    cases hl : s.current.loops with
    | nil =>
      have hshapes := he.loops
      rw [hl, hl'] at hshapes
      cases hshapes
    | cons l ls =>
      obtain ⟨X, hX, hin⟩ := h.loop l ls hl
      obtain ⟨l'', ls'', hl'', hshape⟩ := he.innermost hl
      obtain ⟨rfl, -⟩ := List.cons.inj (hl''.symm.trans hl')
      have hdepth : l''.tryDepth = l.tryDepth := congrArg (·.2.2) hshape
      have hcount : l''.localCount = l.localCount := congrArg (·.2.1) hshape
      refine ⟨X, hX, hin.lands.extends hshape he, ?_, ?_, ?_⟩
      · rw [hdepth]
        exact Nat.le_trans hin.depth hlen
      · rw [hdepth]
        exact hleaves _ _ hin.depth hin.leaves
      · rw [hdepth, hcount]
        intro hexact
        exact hfits _ _ hin.depth (hin.fits hexact)

/-- Code that may declare something leads to a place in the scope behind it. -/
theorem Inside.after {fresh : List (String × Option Nat)}
    (h : Inside exact scope tries exit s τ L) (declares : Bool) (he : Extends fresh s τ t υ)
    (hat : At exact t.chunk υ (L.push fresh.length)) (hfresh : DeclaredAt s.current.depth fresh)
    (hn : declares = false → fresh = []) :
    Inside exact (scope.after declares) tries exit t υ (L.push fresh.length) :=
  h.move he hat (h.ready.push _) rfl hfresh (Nat.le_refl _) (fun _ _ _ hl => hl)
    fun _ _ _ hf => hf.after fun hd => by rw [hn hd]; rfl

/-- A statement that declares nothing leaves the scope as it was. -/
theorem Scope.after_false (scope : Scope) : scope.after false = scope := by
  cases scope <;> rfl

/-- Code that declares nothing leads to a place of the same kind. -/
theorem Inside.extends (h : Inside exact scope tries exit s τ L) (he : Extends [] s τ t υ)
    (hat : At exact t.chunk υ L) : Inside exact scope tries exit t υ L :=
  Scope.after_false scope ▸ h.after false he hat nofun fun _ => rfl

/-- A place one scope deeper. -/
theorem Inside.deeper (h : Inside exact scope tries exit s τ L) :
    Inside exact scope tries exit (s.withScope s.current.locals (s.current.depth + 1)) τ L :=
  ⟨⟨h.typed, h.ready, h.height, h.settled.mono (Nat.le_succ _)⟩, h.loop⟩

end Places

/-! ## Sequences, scopes and branches -/

section Combine

variable {exact : Bool} {scope : Scope} {tries : List TryBlock}

/-- A generator that moves no values builds code. -/
theorem Turns.builds {m : Gen Unit} (h : Turns exact 0 0 m) (declares : Bool) :
    Builds exact scope tries declares m := by
  intro s s' τ L exit hin hr
  obtain ⟨τ', hat', hk⟩ := h hin.typed hin.ready hin.reach hr
  exact ⟨τ', [], hat', hk.grows, nofun, fun _ => rfl⟩

/-- Code that builds nothing but what declares nothing. -/
theorem Builds.run {m : Gen Unit} (h : Builds exact scope tries false m) {s s' : CompilerState}
    {τ : Typing} {L : Level} {exit : Option Level} (hin : Inside exact scope tries exit s τ L)
    (hr : Ran m s () s') : ∃ τ', At exact s'.chunk τ' L ∧ Grows exit [] [] s τ s' τ' := by
  obtain ⟨τ', fresh, hat', hg, -, hnil⟩ := h hin hr
  obtain rfl := hnil (.inl rfl)
  exact ⟨τ', hat', hg⟩

/-- Code that declares nothing grows from every place it is built at. -/
theorem Builds.growsFrom {m : Gen Unit} (h : Builds exact scope tries false m)
    {s : CompilerState} {τ : Typing} {L : Level} {exit : Option Level}
    (hin : Inside exact scope tries exit s τ L) : GrowsFrom exact exit s τ L L m :=
  fun _ _ _ he hat hr => h.run (hin.extends he hat) hr

/-- No code builds nothing. -/
theorem Builds.nothing : Builds exact scope tries false (pure ()) :=
  (Turns.pure ()).builds false

/-- Code that moves no values may come first. -/
theorem Turns.thenBuilds {α : Type} {m : Gen α} {f : α → Gen Unit} {d : Bool}
    (h : Turns exact 0 0 m) (h' : ∀ a, Builds exact scope tries d (f a)) :
    Builds exact scope tries d (m >>= f) := by
  intro s s' τ L exit hin hr
  obtain ⟨a, t, hrm, hrf⟩ := ran_bind.1 hr
  obtain ⟨υ, hat, hk⟩ := h hin.typed hin.ready hin.reach hrm
  have hin' := hin.extends (hk.grows : Grows none [] [] s τ t υ).toExtends hat
  obtain ⟨τ', fresh, hat', hg, hdecl, hnil⟩ := h' a hin' hrf
  rw [hk.depth] at hdecl hnil
  exact ⟨τ', fresh, hat', hk.trans_grows hg, hdecl, hnil⟩

/-- Statements one after another. -/
theorem Builds.seq {m m' : Gen Unit} {d d' : Bool} (h : Builds exact scope tries d m)
    (h' : Builds exact (scope.after d) tries d' m') :
    Builds exact scope tries (d || d') (m >>= fun _ => m') := by
  intro s s' τ L exit hin hr
  obtain ⟨_, t, hrm, hrm'⟩ := ran_bind.1 hr
  obtain ⟨υ, fresh, hat, hg, hdecl, hnil⟩ := h hin hrm
  obtain ⟨τ', fresh', hat', hg', hdecl', hnil'⟩ :=
    h' (hin.after d hg.toExtends hat hdecl fun hd => hnil (.inl hd)) hrm'
  rw [Level.push_push, Nat.add_comm, ← List.length_append] at hat'
  rw [hg.depth] at hdecl' hnil'
  refine ⟨τ', fresh' ++ fresh, hat', hg.trans hg', hdecl'.append hdecl, ?_⟩
  intro hd
  have hd₁ : d = false ∨ s.current.depth = 0 := hd.imp (fun h => by simp_all) id
  have hd₂ : d' = false ∨ s.current.depth = 0 := hd.imp (fun h => by simp_all) id
  rw [hnil hd₁, hnil' hd₂]
  rfl

/-- What a scope declares is gone behind it. -/
theorem Builds.inScope {m : Gen Unit} {d : Bool} (h : Builds exact scope tries d m) (line : Nat) :
    Builds exact scope tries false (inScope line m) := by
  intro s s' τ L exit hin hr
  obtain ⟨t, hrm, hend⟩ := ran_inScope.1 hr
  obtain ⟨υ, fresh, hat, hg, hdecl, -⟩ := h hin.deeper hrm
  obtain ⟨τ', hat', hg'⟩ := hg.endScope hdecl hin.settled hin.ready hat hend
  exact ⟨τ', [], hat', hg', nofun, fun _ => rfl⟩

/-- A branch between statements that declare nothing. -/
theorem builds_branch {pos : Position} {condition thenBranch : Gen Unit}
    {elseBranch : Option (Gen Unit)} (hc : Turns exact 0 1 condition)
    (ht : Builds exact scope tries false thenBranch)
    (he : ∀ m, elseBranch = some m → Builds exact scope tries false m) :
    Builds exact scope tries false (emitBranch pos condition thenBranch elseBranch) := by
  intro s s' τ L exit hin hr
  obtain ⟨τ', hat', hg⟩ := grows_branch (q := 0) (hc.growsFrom hin.ready hin.reach)
    (ht.growsFrom hin) (fun m hm => (he m hm).growsFrom hin) (fun _ => rfl) hin.ready hin.typed hr
  exact ⟨τ', [], hat', hg, nofun, fun _ => rfl⟩

end Combine

/-! ## Jumps out of loops -/

section Jumps

variable {exact : Bool} {scope : Scope} {ctx : Context} {exit : Option Level}
variable {s s' t : CompilerState} {τ υ : Typing} {L X : Level} {l : LoopRecord}
variable {ls : List LoopRecord} {pos : Position} {u : Unit}

/-- The `try` statements that a jump out of the innermost loop leaves. -/
def leftBy (ctx : Context) (l : LoopRecord) : List TryBlock :=
  ctx.tries.take (ctx.tries.length - l.tryDepth)

/-- The code before a jump out of a loop removes the handlers of the `try` statements that are left.
The locals above the loop are dropped behind those dropped on leaving. -/
theorem typed_toLoop (hin : Inside exact scope ctx.tries exit s τ L)
    (hl : s.current.loops = l :: ls)
    (hroom : exact = true →
      L.height - l.localCount < heightLeaving (leftBy ctx l) L.height)
    (hr : Ran (do
      exitTries ctx l.tryDepth pos.line
      updateFunction (·.discardLocals l.localCount pos.line)) s u t) :
    ∃ X υ M, exit = some X ∧ Lands X s.size τ l ∧ At exact t.chunk υ M ∧ M.Covered ∧
      M.height = heightLeaving (leftBy ctx l) L.height - (L.height - l.localCount) ∧
      M.guards = X.guards ∧ Progress M.entries X.entries ∧ Grows (some X) [] [] s τ t υ := by
  obtain ⟨X, rfl, hloop⟩ := hin.loop l ls hl
  obtain ⟨_, t₁, hexit, hdrop⟩ := ran_bind.1 hr
  obtain ⟨υ₁, M, hat₁, hready₁, hguards, hentries, hg₁, hheight⟩ :=
    typed_exitTries hin.toPlaced hl hloop.lands hloop.depth hloop.leaves hexit
  obtain rfl := ran_discardLocals.1 hdrop
  have hlen : t₁.current.locals.length = L.height := by
    rw [← length_shapes, hg₁.locals, List.nil_append, length_shapes, hin.height]
  have hdropped : (t₁.current.locals.take (t₁.current.locals.length - l.localCount)).length =
      L.height - l.localCount := by
    rw [List.length_take, hlen]
    omega
  obtain ⟨υ, hat, hk⟩ := typed_dropAll hat₁ hready₁.covered pos.line
    (t₁.current.locals.take (t₁.current.locals.length - l.localCount)) fun he => by
      rw [hdropped, hheight]
      exact hroom he
  rw [hdropped] at hat
  refine ⟨X, υ, _, rfl, hloop.lands, hat, hready₁.covered, ?_, hguards, hentries.progress,
    hg₁.trans hk.grows⟩
  rw [Level.drop_height, hheight]
  rfl

/-- In a scope that is not bound nothing is dropped on leaving, so the code leads to the level of the
loop. -/
theorem flows_toLoop (hin : Inside exact scope ctx.tries exit s τ L)
    (hl : s.current.loops = l :: ls) (hscope : exact = true → scope ≠ .bound)
    (hr : Ran (do
      exitTries ctx l.tryDepth pos.line
      updateFunction (·.discardLocals l.localCount pos.line)) s u t) :
    ∃ X υ M, exit = some X ∧ Lands X s.size τ l ∧ At exact t.chunk υ M ∧ M.Covered ∧
      (exact = true → 0 < M.height) ∧ M.Flows exact X ∧ Grows (some X) [] [] s τ t υ := by
  have hsame : exact = true → heightLeaving (leftBy ctx l) L.height = L.height ∧
      l.localCount ≤ L.height := by
    intro he
    obtain ⟨X, -, hloop⟩ := hin.loop l ls hl
    have hfits := hloop.fits he
    cases scope with
    | free =>
      refine ⟨heightLeaving_eq_iff.2 ?_, hfits.2⟩
      rw [leftBy, hfits.1]
      nofun
    | bare => exact ⟨heightLeaving_eq_iff.2 fun b hb => Nat.le_of_eq (hfits.1 b hb).symm, hfits.2⟩
    | bound => exact absurd rfl (hscope he)
  obtain ⟨X, -, hloop⟩ := hin.loop l ls hl
  have hpos := hloop.lands.ready.pos
  rw [hloop.lands.height] at hpos
  obtain ⟨X, υ, M, rfl, hland, hat, hcov, hheight, hguards, hentries, hg⟩ :=
    typed_toLoop hin hl (fun he => by
      have := hsame he
      omega) hr
  refine ⟨X, υ, M, rfl, hland, hat, hcov, ?_, ⟨?_, hguards, hentries⟩, hg⟩
  · intro he
    have := hsame he
    omega
  · intro he
    have := hsame he
    rw [hland.height]
    omega

/-- A jump whose target comes later is recorded for the loop, as a `break` or as a `continue`. -/
theorem typed_record {M : Level} (hg : Grows (some X) [] [] s τ t υ) (hat : At exact t.chunk υ M)
    (hl : s.current.loops = l :: ls) (hc : M.Covered) (hpos : exact = true → 0 < M.height)
    (hX : M.Flows exact X) (L : Level) {g : Nat → LoopRecord → LoopRecord} (bs' cs' : List Nat)
    (hrecord : ∀ r rs, g t.size r :: rs = addJumps bs' cs' (r :: rs))
    (hone : bs' ++ cs' = [t.size]) (htarget : l.continueTarget ≠ none → cs' = [])
    (hr : Ran (emitJump (.jump 0) pos.line >>= fun jump => updateLoop (g jump)) t u s') :
    ∃ τ', At exact s'.chunk τ' L ∧ Grows (some X) [] [] s τ s' τ' := by
  simp only [ran_bind, ran_emitJump] at hr
  obtain ⟨_, _, ⟨rfl, rfl⟩, hupdate⟩ := hr
  have hsafe : (Op.jump 0).Safe exact M := ⟨hpos, nofun, nofun, .inl hc⟩
  obtain ⟨τ', hat', hgj⟩ := grows_jump (some X) hat (.jump 0) L X hsafe nofun rfl hX pos.line
  have hg' := hg.trans hgj
  obtain ⟨bs, cs, ho⟩ := hg'.owes
  have hloops := ho.loops
  rw [hl] at hloops
  have hs' := (ran_updateLoop hloops).1 hupdate
  rw [hrecord] at hs'
  have hadd : s'.current.loops = addJumps (bs ++ bs') (cs ++ cs') s.current.loops := by
    rw [hs', ← addJumps_addJumps, hl]
    rfl
  subst hs'
  have hmem : ∀ j ∈ bs' ++ cs', j = t.size := by
    intro j hj
    rw [hone] at hj
    exact List.mem_singleton.1 hj
  refine ⟨τ', hat', ⟨hg'.size, hg'.level, hg'.depth, ?_, hg'.locals, hg'.enclosing⟩,
    bs ++ bs', cs ++ cs', ho.recast ?_ rfl rfl hadd ?_ ?_ ?_ nofun⟩
  · rw [hadd, loopShapes_addJumps]
  · have hcount : ∀ j, bs'.count j + cs'.count j = [t.size].count j := by
      intro j
      rw [← List.count_append, hone]
    refine List.perm_iff_count.2 fun j => ?_
    have := hcount j
    simp only [List.count_append, List.map_append, List.map_nil, List.map_cons, List.count_nil]
    omega
  · rintro (h | h)
    · cases h
    · rw [hl] at h
      cases h
  · intro l' ls' hl' hne
    obtain ⟨rfl, -⟩ := List.cons.inj (hl.symm.trans hl')
    rw [ho.targeted _ _ hl hne, htarget hne]
    rfl
  · intro j hj
    have hj' : j ∈ bs ++ cs ∨ j ∈ bs' ++ cs' := by
      simp only [List.mem_append] at hj ⊢
      tauto
    rcases hj' with hj' | hj'
    · exact ho.jump j hj'
    · rw [hmem j hj']
      exact ho.debt (t.size, X) List.mem_cons_self

/-- `break` builds code where its scope is not bound, or where heights do not count. -/
theorem builds_break (hscope : exact = true → scope ≠ .bound) :
    Builds exact scope ctx.tries false (emitBreak ctx pos) := by
  intro s s' τ L exit hin hr
  simp only [emitBreak, ran_bind, ran_get] at hr
  obtain ⟨_, s, ⟨rfl, rfl⟩, hr⟩ := hr
  cases hl : s.current.loops with
  | nil =>
    rw [hl] at hr
    exact absurd hr ran_fail
  | cons l ls =>
    rw [hl] at hr
    simp only [ran_bind] at hr
    obtain ⟨u₁, t₁, hexit, u₂, t₂, hdrop, hjump⟩ := hr
    obtain ⟨X, υ, M, rfl, hland, hat, hcov, hpos, hflow, hg⟩ :=
      flows_toLoop hin hl hscope (ran_bind.2 ⟨u₁, t₁, hexit, hdrop⟩)
    obtain ⟨τ', hat', hg'⟩ := typed_record hg hat hl hcov hpos hflow L [t₂.size] []
      (fun r rs => by simp [addJumps]) rfl (fun _ => rfl) (ran_bind.2 hjump)
    exact ⟨τ', [], hat', hg', fun _ hd => absurd hd List.not_mem_nil, fun _ => rfl⟩

/-- `continue` builds code where its scope is not bound, or where heights do not count. -/
theorem builds_continue (hscope : exact = true → scope ≠ .bound) :
    Builds exact scope ctx.tries false (emitContinue ctx pos) := by
  intro s s' τ L exit hin hr
  simp only [emitContinue, ran_bind, ran_get] at hr
  obtain ⟨_, s, ⟨rfl, rfl⟩, hr⟩ := hr
  cases hl : s.current.loops with
  | nil =>
    rw [hl] at hr
    exact absurd hr ran_fail
  | cons l ls =>
    rw [hl] at hr
    simp only [ran_bind] at hr
    obtain ⟨u₁, t₁, hexit, u₂, t₂, hdrop, hjump⟩ := hr
    obtain ⟨X, υ, M, rfl, hland, hat, hcov, hpos, hflow, hg⟩ :=
      flows_toLoop hin hl hscope (ran_bind.2 ⟨u₁, t₁, hexit, hdrop⟩)
    cases ht : l.continueTarget with
    | some start =>
      rw [ht] at hjump
      obtain ⟨hle, hlevel⟩ := hland.target start ht
      have hstart : M.Flows exact (υ.level start) := by
        rw [hg.level start hle, hlevel]
        exact hflow
      obtain ⟨τ', hat', hk⟩ := typed_loop hat hcov hpos (Nat.le_trans hle hg.size) hstart L hjump
      exact ⟨τ', [], hat', hg.trans hk.grows, nofun, fun _ => rfl⟩
    | none =>
      rw [ht] at hjump
      obtain ⟨τ', hat', hg'⟩ := typed_record hg hat hl hcov hpos hflow L [] [t₂.size]
        (fun r rs => by simp [addJumps]) rfl (fun h => absurd ht h) hjump
      exact ⟨τ', [], hat', hg', nofun, fun _ => rfl⟩

end Jumps

/-! ## Declarations -/

section Declarations

variable {exact : Bool} {scope : Scope} {tries : List TryBlock} {exit : Option Level}
variable {s s' t : CompilerState} {τ υ : Typing} {L : Level} {name : String} {pos : Position}
variable {u : Unit}

/-- A value on the stack becomes a local of the current scope. -/
theorem Grows.define {debts : List (Nat × Level)} {fresh : List (String × Option Nat)}
    (h : Grows exit debts fresh s τ t υ) (hd : DeclaredAt s.current.depth fresh)
    (hr : Ran (defineLocal name pos) t u s') :
    Grows exit debts ((name, some s.current.depth) :: fresh) s τ s' υ ∧ s'.chunk = t.chunk ∧
      DeclaredAt s.current.depth ((name, some s.current.depth) :: fresh) := by
  obtain rfl := ran_define hr
  have hg : Grows exit [] [(name, some t.current.depth)] t υ
      (t.withScope (⟨name, some t.current.depth, false⟩ :: t.current.locals) t.current.depth) υ :=
    grows_locals rfl
  have hall := h.trans hg
  rw [h.depth, List.append_nil] at hall
  refine ⟨by rwa [h.depth], rfl, ?_⟩
  intro x hx
  rcases List.mem_cons.1 hx with rfl | hx
  · rfl
  · exact hd x hx

/-- A value on the stack becomes a variable: a local, or a global at the top level. -/
theorem typed_defineVariable (exit : Option Level) (hat : At exact s.chunk τ (L.push 1))
    (hL : L.Ready) (hreach : reach s.current.locals ≤ L.height)
    (hr : Ran (defineVariable name pos) s u s') :
    ∃ τ' fresh, At exact s'.chunk τ' (L.push fresh.length) ∧ Grows exit [] fresh s τ s' τ' ∧
      DeclaredAt s.current.depth fresh ∧ (s.current.depth = 0 → fresh = []) := by
  simp only [defineVariable, ran_bind, ran_atTopLevel] at hr
  obtain ⟨_, s, ⟨rfl, rfl⟩, hr⟩ := hr
  split at hr
  · have hglobal : Turns exact 1 0 (do emit (.defineGlobal (← addName name pos)) pos.line) :=
      .bind (turns_addName name pos) fun _ => turns_emit pos.line rfl rfl
    obtain ⟨τ', hat', hk⟩ := hglobal hat hL hreach hr
    exact ⟨τ', [], hat', hk.grows, nofun, fun _ => rfl⟩
  · next hdepth =>
    obtain ⟨hg, hchunk, hdecl⟩ := (KeepsScopes.refl s τ).grows.define nofun hr
    exact ⟨τ, _, hchunk ▸ hat, hg, hdecl, fun h => absurd (beq_iff_eq.2 h) hdepth⟩

/-- Code of a value and its definition. -/
theorem builds_define {m : Gen Unit} (hm : Turns exact 0 1 m) :
    Builds exact scope tries true (m >>= fun _ => defineVariable name pos) := by
  intro s s' τ L exit hin hr
  obtain ⟨_, t, hrm, hrd⟩ := ran_bind.1 hr
  obtain ⟨υ, hat, hk⟩ := hm hin.typed hin.ready hin.reach hrm
  obtain ⟨τ', fresh, hat', hg, hdecl, hnil⟩ :=
    typed_defineVariable exit hat hin.ready (hk.reach ▸ hin.reach) hrd
  rw [hk.depth] at hdecl hnil
  exact ⟨τ', fresh, hat', hk.trans_grows hg, hdecl, fun h => hnil (h.resolve_left nofun)⟩

/-- Locals whose values are pending do not extend the reach of a scope. -/
theorem reach_pending (names : List String) (ls : List Local) :
    reach ((names.map fun name => ⟨name, none, false⟩) ++ ls) = reach ls := by
  induction names with
  | nil => rfl
  | cons name names ih =>
    rw [List.map_cons, List.cons_append, reach_cons]
    exact ih

/-- Names are declared, their values are made, and the names become usable. -/
theorem grows_declared {names : List String} {m : Gen Unit} {p : Nat} (exit : Option Level)
    (hm : Turns exact p names.length m) (hat : At exact s.chunk τ (L.push p)) (hL : L.Ready)
    (hreach : reach s.current.locals ≤ L.height) {t₁ t₂ : CompilerState} {u₁ u₂ : Unit}
    (hdecl : Ran (names.forM fun name => updateFunctionM (·.declare name pos)) s u₁ t₁)
    (hrm : Ran m t₁ u₂ t₂) (hmark : Ran (updateFunction (·.markInitialized names.length)) t₂ u s') :
    ∃ τ' fresh, At exact s'.chunk τ' (L.push fresh.length) ∧ Grows exit [] fresh s τ s' τ' ∧
      DeclaredAt s.current.depth fresh := by
  obtain rfl := ran_updateFunction.1 hmark
  have ht₁ := ran_declares hdecl
  have hat₁ : At exact t₁.chunk τ (L.push p) := by
    rw [ht₁]
    exact hat
  have hreach₁ : reach t₁.current.locals ≤ L.height := by
    rw [ht₁, withScope_locals, reach_pending]
    exact hreach
  obtain ⟨υ, hat₂, hk⟩ := hm hat₁ hL hreach₁ hrm
  subst ht₁
  have hdepth : t₂.current.depth = s.current.depth := hk.depth
  have hlen : (names.reverse.map fun name : String => (name, (none : Option Nat))).length =
      names.length := by simp
  have hpending : shapes t₂.current.locals =
      (names.reverse.map fun name => (name, (none : Option Nat))) ++ shapes s.current.locals := by
    rw [hk.locals, withScope_locals, shapes_append]
    simp [shapes, Local.shape]
  have hmarked : shapes (t₂.current.markInitialized names.length).locals =
      (names.reverse.map fun name => (name, some s.current.depth)) ++ shapes s.current.locals := by
    have h := shapes_markInitialized t₂.current hpending
    rw [hlen, hdepth, List.map_map] at h
    exact h
  have hg := (hk.grows : Grows exit [] [] _ τ t₂ υ).reframe hmarked s.current.depth
  rw [withScope_withScope, withScope_self] at hg
  refine ⟨υ, names.reverse.map fun name => (name, some s.current.depth), ?_, ?_, ?_⟩
  · rw [List.length_map, List.length_reverse]
    exact hat₂
  · have hstate : t₂.withCurrent (t₂.current.markInitialized names.length) =
        t₂.withScope (t₂.current.markInitialized names.length).locals s.current.depth := by
      rw [← hdepth]
      rfl
    rw [hstate]
    exact hg
  · intro x hx
    obtain ⟨name, -, rfl⟩ := List.mem_map.1 hx
    rfl

/-- The code that unpacks a value if there are several names for it. -/
def emitUnpack (pos : Position) (names : List String) : Gen Unit := do
  if names.length > 1 then
    if names.length > maxArguments then fail .tooManyNames pos
    emit (.unpack (UInt8.ofNat names.length)) pos.line

/-- What unpacking names before something else comes to. -/
theorem emitUnpack_bind (pos : Position) (names : List String) (f : Unit → Gen Unit) :
    emitUnpack pos names >>= f =
      if names.length > 1 then
        if names.length > maxArguments then do
          fail .tooManyNames pos
          emit (.unpack (UInt8.ofNat names.length)) pos.line
          f ()
        else do
          emit (.unpack (UInt8.ofNat names.length)) pos.line
          f ()
      else f () := by
  unfold emitUnpack
  split
  · split <;> simp only [bind_assoc]
  · rw [pure_bind]

/-- The code of the values of declared names: one value that is unpacked, or nulls. -/
def emitValues (pos : Position) (names : List String) (initial : Option (Gen Unit)) : Gen Unit :=
  match initial with
  | some value => do
    value
    emitUnpack pos names
  | none => names.forM fun _ => emit .null pos.line

/-- `var` at the top level pushes the values and makes globals of them; elsewhere it declares the
names, pushes the values and makes the names usable. -/
theorem emitDeclare_eq (pos : Position) (names : List String) (initial : Option (Gen Unit)) :
    emitDeclare pos names initial = (do
      if ← atTopLevel then
        emitValues pos names initial
        names.reverse.forM fun name => do emit (.defineGlobal (← addName name pos)) pos.line
      else
        names.forM fun name => updateFunctionM (·.declare name pos)
        emitValues pos names initial
        updateFunction (·.markInitialized names.length)) := by
  unfold emitDeclare emitValues
  congr 1
  funext global
  cases global <;> cases initial <;>
    simp only [Bool.not_false, Bool.not_true, if_true, Bool.false_eq_true, if_false, bind_assoc,
      emitUnpack_bind]

/-- Unpacking leaves a value for every name. -/
theorem turns_emitUnpack {names : List String} (hnames : names ≠ []) :
    Turns exact 1 names.length (emitUnpack pos names) := by
  unfold emitUnpack
  simp only
  split
  · refine .unless fun hmax => turns_emit pos.line rfl ?_
    rw [Op.effect, toNat_arguments hmax]
  · have hlen : names.length = 1 := by
      have := List.length_pos_iff.2 hnames
      omega
    rw [hlen]
    exact .pure ()

/-- There is a value for every name. -/
theorem turns_emitValues {names : List String} {initial : Option (Gen Unit)} (hnames : names ≠ [])
    (hi : ∀ m, initial = some m → Turns exact 0 1 m) :
    Turns exact 0 names.length (emitValues pos names initial) := by
  cases initial with
  | none => exact turns_pushAll (fun _ => turns_emit pos.line rfl rfl) names
  | some value => exact (hi value rfl).bind fun _ => turns_emitUnpack hnames

/-- `var` builds code for at least one name. -/
theorem builds_declare {names : List String} {initial : Option (Gen Unit)} (hnames : names ≠ [])
    (hi : ∀ m, initial = some m → Turns exact 0 1 m) :
    Builds exact scope tries true (emitDeclare pos names initial) := by
  intro s s' τ L exit hin hr
  rw [emitDeclare_eq, ran_bind] at hr
  simp only [ran_atTopLevel] at hr
  obtain ⟨_, s, ⟨rfl, rfl⟩, hr⟩ := hr
  have hvalues : Turns exact 0 names.length (emitValues pos names initial) :=
    turns_emitValues hnames hi
  split at hr
  · have hglobals : Turns exact names.reverse.length 0 (names.reverse.forM fun name => do
        emit (.defineGlobal (← addName name pos)) pos.line) :=
      turns_popAll (fun name => .bind (turns_addName name pos) fun _ =>
      turns_emit pos.line rfl rfl) _
    rw [List.length_reverse] at hglobals
    obtain ⟨τ', hat', hk⟩ := (hvalues.bind fun _ => hglobals) hin.typed hin.ready hin.reach hr
    exact ⟨τ', [], hat', hk.grows, nofun, fun _ => rfl⟩
  · next hdepth =>
    simp only [ran_bind] at hr
    obtain ⟨_, _, hrd, _, _, hrv, hrm⟩ := hr
    obtain ⟨τ', fresh, hat', hg, hdecl⟩ :=
      grows_declared exit hvalues hin.typed hin.ready hin.reach hrd hrv hrm
    refine ⟨τ', fresh, hat', hg, hdecl, fun h => ?_⟩
    exact absurd (beq_iff_eq.2 (h.resolve_left nofun)) hdepth

/-- Several declarations one after another. -/
theorem builds_forM {α : Type} {f : α → Gen Unit} (xs : List α)
    (hf : ∀ x scope, Builds exact scope tries true (f x)) :
    Builds exact scope tries (!xs.isEmpty) (xs.forM f) := by
  induction xs generalizing scope with
  | nil => exact .nothing
  | cons x xs ih => exact (hf x scope).seq ih

/-- An import builds code; it declares something where it binds a name. -/
theorem builds_import (d : Import) :
    Builds exact scope tries d.items.binds (emitImport pos d) := by
  obtain ⟨module, items⟩ := d
  refine (turns_addName module pos).thenBuilds fun i => ?_
  have hfrom : Turns exact 0 0 (do emit (.importFrom i) pos.line; emit .pop pos.line) :=
    .bind (turns_emit pos.line rfl rfl) fun _ => turns_emit pos.line rfl rfl
  cases items with
  | module rename =>
    have hvalue : Turns exact 0 1 (do emit (.importModule i) pos.line; emit .pop pos.line) :=
      .bind (turns_emit pos.line rfl rfl) fun _ =>
      (turns_emit pos.line rfl rfl : Turns exact 1 0 _).above 1
    simp only
    rw [← bind_assoc]
    exact builds_define hvalue
  | names names =>
    simp only
    rw [← bind_assoc]
    refine hfrom.thenBuilds fun _ => builds_forM names fun name scope => ?_
    refine (turns_addName name pos).thenBuilds fun j => ?_
    exact builds_define (turns_emit pos.line rfl rfl)
  | all =>
    simp only
    rw [← bind_assoc]
    exact (hfrom.bind fun _ => turns_emit pos.line rfl rfl).builds false

end Declarations

/-! ## Loops -/

section Loops

variable {exact : Bool} {scope : Scope} {ctx : Context} {exit : Option Level}
variable {debts : List (Nat × Level)} {fresh : List (String × Option Nat)}
variable {s s' t : CompilerState} {τ υ : Typing} {L : Level} {pos : Position} {u : Unit}

/-- The record of a loop that begins in a state. -/
def LoopRecord.start (s : CompilerState) (ctx : Context) (target : Option Nat) : LoopRecord :=
  ⟨target, [], [], s.current.locals.length, ctx.tries.length⟩

/-- The body of a loop is compiled in a free place whose jumps land at the level of the loop. -/
theorem inside_loop (hp : Placed exact s τ L) {target : Option Nat}
    (htarget : ∀ c, target = some c → c ≤ s.size ∧ τ.level c = L) :
    Inside exact .free ctx.tries (some L)
      (s.withLoops (.start s ctx target :: s.current.loops)) τ L where
  typed := hp.typed
  ready := hp.ready
  height := hp.height
  settled := hp.settled
  loop l ls hl := by
    obtain ⟨rfl, -⟩ := List.cons.inj hl
    refine ⟨L, rfl, ⟨hp.ready, hp.height.symm, htarget⟩, Nat.le_refl _,
      (leavesTo_short (Nat.le_refl _)).2 ⟨rfl, .refl _⟩, fun _ => ⟨?_, ?_⟩⟩
    · rw [LoopRecord.start, Nat.sub_self, List.take_zero]
    · exact Nat.le_of_eq hp.height

/-- Where the target of `continue` is known, none is recorded. -/
theorem Grows.noContinues {l : LoopRecord} {ls : List LoopRecord}
    (h : Grows exit debts fresh s τ t υ) (hl : s.current.loops = l :: ls)
    (ht : l.continueTarget ≠ none) (hnil : l.continuePatches = []) :
    ∀ l' ls', t.current.loops = l' :: ls' → l'.continuePatches = [] := by
  intro l' ls' hl'
  obtain ⟨bs, cs, ho⟩ := h.owes
  have hloops := ho.loops
  rw [hl, ho.targeted l ls hl ht, hl'] at hloops
  obtain ⟨rfl, -⟩ := List.cons.inj hloops
  simp [hnil]

/-- `while` builds code from its condition and its body. -/
theorem builds_while {condition body : Gen Unit} (hc : Turns exact 0 1 condition)
    (hb : Builds exact .free ctx.tries false body) :
    Builds exact scope ctx.tries false (emitWhile ctx pos condition body) := by
  intro s s' τ L exit hin hr
  simp only [emitWhile, ran_bind, ran_offset, ran_beginLoop, ran_emitJump] at hr
  obtain ⟨_, s, ⟨rfl, rfl⟩, _, _, rfl, _, t₁, hrc, _, _, ⟨rfl, rfl⟩, _, t₃, hrb, _, t₄, hrl, _, t₅,
    hrp, hre⟩ := hr
  have hin₀ : Inside exact .free ctx.tries (some L) (s.withLoops
      (.start s ctx (some s.size) :: s.current.loops)) τ L := by
    refine inside_loop hin.toPlaced ?_
    rintro _ ⟨⟩
    exact ⟨Nat.le_refl _, hin.typed.here⟩
  obtain ⟨υ₁, hat₁, hk₁⟩ := hc hin₀.typed hin.ready hin₀.reach hrc
  obtain ⟨υ₂, hat₂, hg₂⟩ := grows_jump (some L) hat₁ (.jumpIfFalse 0) L L
    (Op.safe_covered rfl nofun (Nat.succ_lt_succ hin.ready.pos) hin.ready.covered)
    (fun _ => .refl _ _) rfl (.refl _ _) pos.line
  have hg₂ := hk₁.trans_grows hg₂
  obtain ⟨υ₃, hat₃, hg₃⟩ := hb.run (hin₀.extends hg₂.toExtends hat₂) hrb
  have hg₃ := hg₂.trans hg₃
  have hstart : L.Flows exact (υ₃.level s.size) := by
    rw [hg₃.level s.size (Nat.le_refl _), hin.typed.here]
    exact .refl _ _
  obtain ⟨υ₄, hat₄, hk₄⟩ := typed_loop hat₃ hin.ready.covered (fun _ => hin.ready.pos) hg₃.size
    hstart L hrl
  obtain ⟨υ₅, hat₅, hg₅⟩ := (hg₃.trans_keepsScopes hk₄).patch [] hin₀.typed hat₄ (.refl _ _) hrp
  obtain ⟨τ', hat', hk⟩ := hg₅.endLoop rfl (hg₅.noContinues rfl nofun rfl) hin.typed hat₅ hre
  exact ⟨τ', [], hat', hk.grows, nofun, fun _ => rfl⟩

/-- The part of a counting loop from the body to the jump back. It is compiled in the loop, and
`continue` lands on the step. -/
theorem typed_forBody {body : Gen Unit} {step : Option (Gen Unit)}
    (hb : Builds exact .free ctx.tries false body)
    (hs : ∀ m, step = some m → Turns exact 0 1 m) {s₀ : CompilerState} {τ₀ : Typing}
    (hat₀ : At exact s₀.chunk τ₀ L) {l : LoopRecord} (hl : l.continuePatches = [])
    (hin : Inside exact .free ctx.tries (some L) s τ L)
    (hg : Grows (some L) debts [] (s₀.withLoops (l :: s₀.current.loops)) τ₀ s τ)
    (hr : Ran (do
      body
      patchContinues pos
      step.forM fun step => do
        step
        emit .pop pos.line
      emitLoop s₀.size pos) s u s') :
    ∃ τ', At exact s'.chunk τ' L ∧
      Grows (some L) debts [] (s₀.withLoops (l :: s₀.current.loops)) τ₀ s' τ' ∧
      ∀ l' ls, s'.current.loops = l' :: ls → l'.continuePatches = [] := by
  simp only [ran_bind] at hr
  obtain ⟨_, t₁, hrb, _, t₂, hrc, _, t₃, hrs, hrl⟩ := hr
  obtain ⟨υ₁, hat₁, hg₁⟩ := hb.run hin hrb
  have hg₁ := hg.trans hg₁
  rw [List.append_nil] at hg₁
  obtain ⟨υ₂, hat₂, hg₂, hnil⟩ := hg₁.patchContinues hl hat₀ hat₁ hrc
  have hreach : reach t₂.current.locals ≤ L.height := by
    have hlocals : shapes t₂.current.locals = shapes s₀.current.locals := hg₂.locals
    have hlocals' : shapes s.current.locals = shapes s₀.current.locals := hg.locals
    rw [reach_congr (hlocals.trans hlocals'.symm)]
    exact hin.reach
  have hstep : Turns exact 0 0 (step.forM fun step => do
      step
      emit .pop pos.line) := by
    cases step with
    | none => exact .pure ()
    | some m => exact (hs m rfl).bind fun _ => turns_emit pos.line rfl rfl
  obtain ⟨υ₃, hat₃, hk₃⟩ := hstep hat₂ hin.ready hreach hrs
  have hg₃ := hg₂.trans_keepsScopes hk₃
  have hstart : L.Flows exact (υ₃.level s₀.size) := by
    rw [hg₃.level s₀.size (Nat.le_refl _), hat₀.here]
    exact .refl _ _
  obtain ⟨υ₄, hat₄, hk₄⟩ := typed_loop hat₃ hin.ready.covered (fun _ => hin.ready.pos) hg₃.size
    hstart L hrl
  refine ⟨υ₄, hat₄, hg₃.trans_keepsScopes hk₄, ?_⟩
  rw [hk₄.loops, hk₃.loops]
  exact hnil

/-- A counting loop apart from its scope keeps everything. -/
theorem keepsScopes_forLoop {condition step : Option (Gen Unit)} {body : Gen Unit}
    (hc : ∀ m, condition = some m → Turns exact 0 1 m)
    (hs : ∀ m, step = some m → Turns exact 0 1 m)
    (hb : Builds exact .free ctx.tries false body) (hp : Placed exact s τ L)
    (hr : Ran (do
      let exit ← condition.mapM fun condition => do
        condition
        emitJump (.jumpIfFalse 0) pos.line
      beginLoop ctx none
      body
      patchContinues pos
      step.forM fun step => do
        step
        emit .pop pos.line
      emitLoop s.size pos
      exit.forM (patchJump · pos)
      endLoop pos) s u s') :
    ∃ τ', At exact s'.chunk τ' L ∧ KeepsScopes s τ s' τ' := by
  rw [ran_bind] at hr
  obtain ⟨out, t₁, hrc, hr⟩ := hr
  simp only [ran_bind, ran_beginLoop] at hr
  obtain ⟨_, _, rfl, u₂, t₂, hrb, u₃, t₃, hrp, u₄, t₄, hrs, u₅, t₅, hrl, _, t₆, hrx, hre⟩ := hr
  -- with a condition, the way out of the loop is owed until the jump back is there
  have hcond : ∃ υ₁ debts, At exact t₁.chunk υ₁ L ∧ Grows none debts [] s τ t₁ υ₁ ∧
      debts = out.toList.map (·, L) := by
    cases condition with
    | none =>
      obtain ⟨rfl, rfl⟩ := ran_pure.1 hrc
      exact ⟨τ, [], hp.typed, (KeepsScopes.refl _ _).grows, rfl⟩
    | some m =>
      obtain ⟨j, hrj, rfl⟩ := ran_map.1 hrc
      simp only [ran_bind, ran_emitJump] at hrj
      obtain ⟨_, t, hrm, rfl, rfl⟩ := hrj
      obtain ⟨υ, hat, hk⟩ := hc m rfl hp.typed hp.ready hp.reach hrm
      obtain ⟨υ₁, hat₁, hg₁⟩ := grows_jump none hat (.jumpIfFalse 0) L L
        (Op.safe_covered rfl nofun (Nat.succ_lt_succ hp.ready.pos) hp.ready.covered)
        (fun _ => .refl _ _) rfl (.refl _ _) pos.line
      exact ⟨υ₁, [_], hat₁, hk.trans_grows hg₁, rfl⟩
  obtain ⟨υ₁, debts, hat₁, hg₁, rfl⟩ := hcond
  have hp₁ := hp.extends hg₁.toExtends hat₁ hp.ready rfl nofun
  obtain ⟨υ₅, hat₅, hg₅, hnil⟩ := typed_forBody hb hs hp.typed (l := .start t₁ ctx none) rfl
    (inside_loop hp₁ (by nofun)) (hg₁.underLoop (some L) _)
    (ran_bind.2 ⟨u₂, t₂, hrb, ran_bind.2 ⟨u₃, t₃, hrp, ran_bind.2 ⟨u₄, t₄, hrs, hrl⟩⟩⟩)
  have hout : Ran (patchJumps out.toList pos) t₅ () t₆ := by
    cases out with
    | none => exact hrx
    | some j => exact ran_forM_cons.2 ⟨t₆, hrx, ran_forM_nil.2 rfl⟩
  have hloops := ran_patchJumps_loops hout
  obtain ⟨υ₆, hat₆, hg₆⟩ := Grows.patchAll [] hg₅ (L := L) hp.typed hat₅ hout
  exact hg₆.endLoop rfl (hloops ▸ hnil) hp.typed hat₆ hre

/-- A counting loop builds code from its parts. -/
theorem builds_for {initial condition step : Option (Gen Unit)} {body : Gen Unit} {d : Bool}
    (hi : ∀ m, initial = some m → Builds exact scope ctx.tries d m)
    (hc : ∀ m, condition = some m → Turns exact 0 1 m)
    (hs : ∀ m, step = some m → Turns exact 0 1 m)
    (hb : Builds exact .free ctx.tries false body) :
    Builds exact scope ctx.tries false (emitFor ctx pos initial condition step body) := by
  intro s s' τ L exit hin hr
  have hinitial : Builds exact scope ctx.tries d (initial.forM id) := by
    cases initial with
    | none => exact (Turns.pure ()).builds d
    | some m => exact hi m rfl
  simp only [emitFor, ran_bind, ran_beginScope, ran_offset] at hr
  obtain ⟨_, _, rfl, _, _, hri, _, t₀, ⟨rfl, rfl⟩, out, t₁, hr₁, u₂, t₂, hr₂, u₃, t₃, hr₃, u₄, t₄,
    hr₄, u₅, t₅, hr₅, u₆, t₆, hr₆, u₇, t₇, hr₇, u₈, t₈, hr₈, hend⟩ := hr
  obtain ⟨υ₀, fresh, hat₀, hg₀, hdecl, -⟩ := hinitial hin.deeper hri
  have hp₀ := hin.deeper.toPlaced.extends hg₀.toExtends hat₀ (hin.ready.push _) rfl hdecl
  obtain ⟨υ₈, hat₈, hk₈⟩ := keepsScopes_forLoop hc hs hb hp₀ (u := u₈) (by
    simp only [ran_bind]
    exact ⟨out, t₁, hr₁, u₂, t₂, hr₂, u₃, t₃, hr₃, u₄, t₄, hr₄, u₅, t₅, hr₅, u₆, t₆, hr₆, u₇, t₇,
      hr₇, hr₈⟩)
  obtain ⟨τ', hat', hg'⟩ :=
    (hg₀.trans_keepsScopes hk₈).endScope hdecl hin.settled hin.ready hat₈ hend
  exact ⟨τ', [], hat', hg', nofun, fun _ => rfl⟩

/-- The hidden locals of an iteration. -/
theorem grows_iteration {iterable : Gen Unit} (exit : Option Level) (hi : Turns exact 0 1 iterable)
    (hp : Placed exact s τ L)
    (hr : Ran (do
      iterable
      defineLocal ".expr" pos
      emit .null pos.line
      defineLocal ".iter" pos
      emit .forPrep pos.line
      defineLocal ".__iter__" pos
      defineLocal ".__next__" pos) s u s') :
    ∃ τ' fresh, fresh.length = 4 ∧ At exact s'.chunk τ' (L.push 4) ∧
      Grows exit [] fresh s τ s' τ' ∧ DeclaredAt s.current.depth fresh := by
  simp only [ran_bind, ran_emit] at hr
  obtain ⟨_, t₁, hr₁, _, t₂, hr₂, _, _, rfl, _, t₄, hr₄, _, _, rfl, _, t₆, hr₆, hr₇⟩ := hr
  obtain ⟨υ₁, hat₁, hk₁⟩ := hi hp.typed hp.ready hp.reach hr₁
  obtain ⟨hg₂, hc₂, hd₂⟩ := (hk₁.grows : Grows exit [] [] s τ t₁ υ₁).define nofun hr₂
  obtain ⟨υ₃, hat₃, hk₃⟩ := typed_plain (q := 1) (L := L.push 1) .null (hc₂ ▸ hat₁)
    (hp.ready.push 1) pos.line rfl rfl
  rw [Level.push_push] at hat₃
  obtain ⟨hg₄, hc₄, hd₄⟩ := (hg₂.trans_keepsScopes hk₃).define hd₂ hr₄
  obtain ⟨υ₅, hat₅, hk₅⟩ := typed_plain (p := 2) (q := 4) (L := L) .forPrep (hc₄ ▸ hat₃) hp.ready
    pos.line rfl rfl
  obtain ⟨hg₆, hc₆, hd₆⟩ := (hg₄.trans_keepsScopes hk₅).define hd₄ hr₆
  obtain ⟨hg₇, hc₇, hd₇⟩ := hg₆.define hd₆ hr₇
  refine ⟨υ₅, _, ?_, ?_, hg₇, hd₇⟩
  · rfl
  · rw [hc₇, hc₆]
    exact hat₅

/-- An iteration makes its hidden locals, and each time around it unpacks the element into a scope of
its own. -/
theorem emitForEach_eq (ctx : Context) (pos : Position) (names : List String)
    (iterable body : Gen Unit) :
    emitForEach ctx pos names iterable body = (do
      beginScope
      iterable
      defineLocal ".expr" pos
      emit .null pos.line
      defineLocal ".iter" pos
      emit .forPrep pos.line
      defineLocal ".__iter__" pos
      defineLocal ".__next__" pos
      let start ← offset
      beginLoop ctx (some start)
      emit .forIter pos.line
      let exit ← emitJump (.forNext 0) pos.line
      beginScope
      emitUnpack pos names
      names.forM fun name => updateFunctionM (·.declare name pos)
      updateFunction (·.markInitialized names.length)
      body
      endScope pos.line
      emitLoop start pos
      patchJump exit pos
      endLoop pos
      endScope pos.line) := by
  simp only [emitForEach, emitUnpack_bind]

/-- The part of an iteration that binds an element and runs the body. -/
theorem grows_element {names : List String} {body : Gen Unit} (hnames : names ≠ [])
    (hb : Builds exact .free ctx.tries false body)
    (hin : Inside exact .free ctx.tries exit s τ L) (he : Extends [] s τ t υ)
    (hat : At exact t.chunk υ (L.push 1))
    (hr : Ran (do
      beginScope
      emitUnpack pos names
      names.forM fun name => updateFunctionM (·.declare name pos)
      updateFunction (·.markInitialized names.length)
      body
      endScope pos.line) t u s') :
    ∃ υ', At exact s'.chunk υ' L ∧ Grows exit [] [] t υ s' υ' := by
  simp only [ran_bind, ran_beginScope] at hr
  obtain ⟨_, _, rfl, _, t₁, hru, u₂, t₂, hrd, u₃, t₃, hrm, _, t₄, hrb, hend⟩ := hr
  have hreach : reach t.current.locals ≤ L.height := reach_congr he.locals ▸ hin.reach
  have hat₀ : At exact (t.withScope t.current.locals (t.current.depth + 1)).chunk υ (L.push 1) :=
    hat
  obtain ⟨υ₁, hat₁, hk₁⟩ := turns_emitUnpack hnames hat₀ hin.ready hreach hru
  have hdepth₁ : t₁.current.depth = t.current.depth + 1 := hk₁.depth
  obtain ⟨υ₃, fresh, hat₃, hg₃, hdecl⟩ := grows_declared exit (Turns.pure ()) hat₁ hin.ready
    (hk₁.reach ▸ hreach) hrd (ran_pure.2 ⟨rfl, rfl⟩) hrm
  have hg₃ := hk₁.trans_grows hg₃
  rw [hdepth₁] at hdecl
  have hext := he.deeper.trans hg₃.toExtends
  rw [List.append_nil] at hext
  have hdepth : s.current.depth + 1 = t.current.depth + 1 := congrArg (· + 1) he.depth.symm
  have hin₃ := hin.deeper.after true hext hat₃ (hdepth ▸ hdecl) nofun
  obtain ⟨υ₄, hat₄, hg₄⟩ := hb.run hin₃ hrb
  have hsettled : Settled t.current.depth (shapes t.current.locals) := by
    rw [he.depth, he.locals]
    exact hin.settled
  exact (hg₃.trans hg₄).endScope hdecl hsettled hin.ready hat₄ hend

/-- An iteration builds code from the iterated value and its body. -/
theorem builds_forEach {names : List String} {iterable body : Gen Unit} (hnames : names ≠ [])
    (hi : Turns exact 0 1 iterable) (hb : Builds exact .free ctx.tries false body) :
    Builds exact scope ctx.tries false (emitForEach ctx pos names iterable body) := by
  intro s s' τ L exit hin hr
  simp only [emitForEach_eq, ran_bind, ran_beginScope, ran_offset, ran_beginLoop] at hr
  obtain ⟨_, _, rfl, u₁, t₁, hr₁, u₂, t₂, hr₂, u₃, t₃, hr₃, u₄, t₄, hr₄, u₅, t₅, hr₅, u₆, t₆, hr₆,
    u₇, _, hr₇, _, t, ⟨rfl, rfl⟩, _, _, rfl, hr⟩ := hr
  obtain ⟨υ, fresh, hlen, hat, hg, hdecl⟩ := grows_iteration exit hi hin.deeper.toPlaced
    (u := u₇) (by
      simp only [ran_bind]
      exact ⟨u₁, t₁, hr₁, u₂, t₂, hr₂, u₃, t₃, hr₃, u₄, t₄, hr₄, u₅, t₅, hr₅, u₆, t₆, hr₆, hr₇⟩)
  have hp := hin.deeper.toPlaced.extends hg.toExtends hat (hin.ready.push 4) (by rw [hlen]; rfl)
    hdecl
  have hin₀ : Inside exact .free ctx.tries (some (L.push 4)) (t.withLoops
      (.start t ctx (some t.size) :: t.current.loops)) υ (L.push 4) := by
    refine inside_loop hp ?_
    rintro _ ⟨⟩
    exact ⟨Nat.le_refl _, hat.here⟩
  simp only [ran_emit, ran_emitJump] at hr
  obtain ⟨_, _, rfl, _, _, ⟨rfl, rfl⟩, _, _, rfl, u₁, v₁, hv₁, u₂, v₂, hv₂, u₃, v₃, hv₃, u₄, v₄, hv₄,
    u₅, v₅, hv₅, _, v₆, hrl, _, v₇, hrp, _, v₈, hre, hend⟩ := hr
  obtain ⟨υ₁, hat₁, hk₁⟩ := typed_plain (p := 4) (q := 5) (L := L) .forIter hin₀.typed hin.ready
    pos.line rfl rfl
  obtain ⟨υ₂, hat₂, hg₂⟩ := grows_jump (some (L.push 4)) hat₁ (.forNext 0) (L.push 5) (L.push 4)
    (Op.safe_covered rfl nofun (Nat.lt_add_of_pos_left hin.ready.pos) hin.ready.covered)
    (fun _ => .refl _ _) rfl (.refl _ _) pos.line
  have hg₂ := hk₁.trans_grows hg₂
  obtain ⟨υ₃, hat₃, hg₃⟩ := grows_element hnames hb hin₀ hg₂.toExtends hat₂ (u := u₅) (by
    simp only [ran_bind, ran_beginScope]
    exact ⟨(), _, rfl, u₁, v₁, hv₁, u₂, v₂, hv₂, u₃, v₃, hv₃, u₄, v₄, hv₄, hv₅⟩)
  have hg₃ := hg₂.trans hg₃
  have hstart : (L.push 4).Flows exact (υ₃.level t.size) := by
    rw [hg₃.level t.size (Nat.le_refl _), hat.here]
    exact .refl _ _
  obtain ⟨υ₄, hat₄, hk₄⟩ := typed_loop hat₃ hin₀.ready.covered (fun _ => hin₀.ready.pos) hg₃.size
    hstart (L.push 4) hrl
  obtain ⟨υ₅, hat₅, hg₅⟩ := (hg₃.trans_keepsScopes hk₄).patch [] hin₀.typed hat₄ (.refl _ _) hrp
  obtain ⟨υ₆, hat₆, hk₆⟩ := hg₅.endLoop rfl (hg₅.noContinues rfl nofun rfl) hat hat₅ hre
  obtain ⟨τ', hat', hg'⟩ := (hg.trans_keepsScopes hk₆).endScope hdecl hin.settled hin.ready
    (hlen ▸ hat₆) hend
  exact ⟨τ', [], hat', hg', nofun, fun _ => rfl⟩

end Loops

end ScriptEngine.Compile
