import Mathlib.Control.Traversable.Instances
import ScriptEngine.Proofs.Statements

/-!
# Code of `try` statements

The handler of an `ensure` part lies below that of the except clauses. From the body, or from a
clause, the code removes the handlers and runs on into the `ensure` part; an exception or a return
gets there through the handler. The one window in which an `ensure` part is exposed, its handler gone
and its code not reached, holds two `null` and at most one `jump`.
-/

namespace ScriptEngine.Bytecode.Level

/-- The level behind the setup of an `ensure` handler. -/
def ensured (L : Level) (setup : Nat) : Level :=
  ⟨L.height, ⟨.ensure, setup⟩ :: L.guards, ⟨setup, false⟩ :: L.entries⟩

/-- The level at which an `ensure` part runs. -/
def started (L : Level) (setup : Nat) : Level := ⟨L.height, L.guards, ⟨setup, true⟩ :: L.entries⟩

/-- The level at which an `ensure` part is exposed. -/
def exposed (L : Level) (setup : Nat) : Level := ⟨L.height, L.guards, ⟨setup, false⟩ :: L.entries⟩

/-- The level behind the setup of a handler of except clauses. -/
def guarded (L : Level) (setup : Nat) : Level := ⟨L.height, ⟨.except, setup⟩ :: L.guards, L.entries⟩

end ScriptEngine.Bytecode.Level

namespace ScriptEngine.Compile

open Bytecode Source

section Levels

variable {exact : Bool} {L : Level}

/-- A level stays ready when an `ensure` handler is installed with its entry. -/
theorem ready_ensured (h : L.Ready) (j : Nat) : (L.ensured j).Ready :=
  ⟨h.pos, (covered_ensure (m := L.height)).2 h.covered⟩

/-- A level stays ready when an `ensure` part begins. -/
theorem ready_started (h : L.Ready) (j : Nat) : (L.started j).Ready :=
  ⟨h.pos, (covered_finished (m := L.height) ((Finished.refl _).cons j)).2 h.covered⟩

/-- The handler of the clauses stands alone. -/
theorem allExcept_one (j : Nat) : AllExcept [⟨.except, j⟩] := by
  intro g hg
  obtain rfl := List.mem_singleton.1 hg
  rfl

/-- A level stays ready when a handler for clauses is installed. -/
theorem ready_guarded (h : L.Ready) (j : Nat) : (L.guarded j).Ready := by
  have hone : AllExcept [⟨.except, j⟩] := allExcept_one j
  exact ⟨h.pos, (covered_except (m := L.height) hone).2 h.covered⟩

/-- What may stand in the window is safe there. -/
theorem safe_exposed {op : Op} (h : L.Ready) (j n : Nat) (hop : op = .null ∨ op = .jump 0) :
    op.Safe exact ((L.exposed j).push n) := by
  have hexposed : ((L.exposed j).push n).Exposed := by
    refine ⟨j, ?_⟩
    have hc : L.ensureGuards = L.pending := h.covered
    simp only [Level.ensureGuards, Level.pending, Level.push_guards, Level.push_entries,
      Level.exposed] at hc ⊢
    simp [hc]
  rcases hop with rfl | rfl <;>
    exact ⟨fun _ => Nat.lt_of_lt_of_le h.pos (Nat.le_add_right _ _), nofun, nofun,
      .inr ⟨hexposed, rfl⟩⟩

end Levels

/-! ## Entering a `try` statement -/

section Enter

variable {exact : Bool} {scope : Scope} {tries : List TryBlock} {exit : Option Level}
variable {s t : CompilerState} {τ υ : Typing} {L M : Level}

/-- Within a `try` statement, if it can be left. -/
theorem Inside.enter {fresh : List (String × Option Nat)} {b : TryBlock} {scope' : Scope}
    (h : Inside exact scope tries exit s τ L) (he : Extends fresh s τ t υ)
    (hat : At exact t.chunk υ M) (hM : M.Ready) (hheight : M.height = L.height + fresh.length)
    (hfresh : DeclaredAt s.current.depth fresh)
    (hleaves : ∀ d X, d ≤ tries.length → LeavesTo exact d X tries L.guards L.entries →
      LeavesTo exact d X (b :: tries) M.guards M.entries)
    (hfits : ∀ left count, Fits scope left count L.height →
      Fits scope' (b :: left) count M.height) :
    Inside exact scope' (b :: tries) exit t υ M := by
  refine h.move he hat hM hheight hfresh (Nat.le_succ _) hleaves ?_
  intro d count hd hf
  have hsucc : (b :: tries).length - d = tries.length - d + 1 := Nat.succ_sub hd
  rw [hsucc, List.take_succ_cons]
  exact hfits _ _ hf

/-- Behind a local declared in a `try` statement nothing is asked of the locals. -/
theorem fits_bound {left : List TryBlock} {count height : Nat} : Fits .bound left count height :=
  trivial

/-- The locals fit in the body of a `try` statement. -/
theorem fits_guarded {b : TryBlock} {left : List TryBlock} {count height : Nat}
    (hb : b.localCount = height) (h : Fits scope left count height) :
    Fits scope.guarded (b :: left) count height := by
  cases scope with
  | free =>
    obtain ⟨rfl, hcount⟩ := h
    refine ⟨?_, hcount⟩
    intro b' hb'
    obtain rfl := List.mem_singleton.1 hb'
    exact hb
  | bare =>
    refine ⟨?_, h.2⟩
    intro b' hb'
    rcases List.mem_cons.1 hb' with rfl | hb'
    · exact hb
    · exact h.1 b' hb'
  | bound => trivial

variable {d count : Nat} {X : Level} {gs : List Guard} {es es' : List Entry}

/-- A `try` statement whose `ensure` part has run, or that has none, can be left. -/
theorem leavesTo_plain (hs : List Guard) (hd : d ≤ tries.length) (hcount : 1 ≤ count) (hhs : AllExcept hs)
    (hes : Finished es' es) (h : LeavesTo exact d X tries gs es) :
    LeavesTo exact d X (⟨count, hs.length, none⟩ :: tries) (hs ++ gs) es' := by
  rw [LeavesTo, if_neg (Nat.not_lt.2 hd)]
  exact ⟨hcount, hs, gs, rfl, hhs, rfl, h.finished hes⟩

/-- A `try` statement whose `ensure` part has to run can be left if its code can be inlined. -/
theorem leavesTo_ensure {m : Gen Unit} (hs : List Guard) (hd : d ≤ tries.length)
    (hcount : 1 ≤ count) (hhs : AllExcept hs) (hm : Builds exact .bound tries false m)
    (h : LeavesTo exact d X tries gs es) (j : Nat) :
    LeavesTo exact d X (⟨count, hs.length + 1, some m⟩ :: tries) (hs ++ ⟨.ensure, j⟩ :: gs)
      (⟨j, false⟩ :: es) := by
  rw [LeavesTo, if_neg (Nat.not_lt.2 hd)]
  refine ⟨hcount, hs, j, gs, es, rfl, hhs, rfl, .refl _, h.finished ((Finished.refl es).cons j), ?_⟩
  intro s s' τ L l ls hp hl hland hdepth hleaves hr
  refine hm.run ⟨hp, fun l' ls' hl' => ⟨X, rfl, ?_⟩⟩ hr
  obtain ⟨rfl, -⟩ := List.cons.inj (hl.symm.trans hl')
  subst hdepth
  exact ⟨hland, hd, hleaves, fun _ => trivial⟩

end Enter

/-! ## The parts of a `try` statement -/

section Parts

variable {exact : Bool} {scope : Scope} {ctx : Context} {exit : Option Level}
variable {debts : List (Nat × Level)} {fresh : List (String × Option Nat)}
variable {s s' t : CompilerState} {τ υ : Typing} {L M : Level} {pos : Position} {line : Nat}
variable {u : Unit}

/-- The context within a `try` statement. -/
def Context.within (ctx : Context) (count handlers : Nat) (pending : Option (Gen Unit)) : Context :=
  { ctx with tries := ⟨count, handlers, pending⟩ :: ctx.tries }

/-- The exception and the cause of the fall-through path: no exception and no pending return. -/
def emitWindow (line : Nat) : Gen Unit := do
  emit .null line
  emit .null line

/-- The scope of the hidden locals that hold the exception and the cause, and the slot of the
first. -/
def emitHidden (pos : Position) : Gen Nat := do
  beginScope
  let slot ← localCount
  defineLocal ".exception" pos
  defineLocal ".cause" pos
  return slot

/-- The `ensure` part, reached from the handler set up at an offset, and the end of the statement. -/
def emitEnsurePart (ctx : Context) (pos : Position) (count setup : Nat)
    (ensure : Context → Gen Unit) : Gen Unit := do
  patchJump setup pos
  ensure (ctx.within count 0 none)
  emit .endHandler pos.line
  endScope pos.line

/-- An exception handler is set up; its code is owed. -/
theorem grows_setupExcept (exit : Option Level) (hat : At exact s.chunk τ L) (hL : L.Ready)
    (line : Nat) :
    ∃ τ', At exact (s.withCurrent (s.current.emit (.setupExcept 0) line)).chunk τ'
        (L.guarded s.size) ∧
      Grows exit [(s.size, L.push 2)] [] s τ
        (s.withCurrent (s.current.emit (.setupExcept 0) line)) τ' :=
  grows_jump exit hat (.setupExcept 0) _ _ (Op.safe_covered rfl nofun hL.pos hL.covered)
    (fun _ => .refl _ _) rfl (.refl _ _) line

/-- An `ensure` handler is set up; its code is owed. -/
theorem grows_setupEnsure (exit : Option Level) (hat : At exact s.chunk τ L) (hL : L.Ready)
    (line : Nat) :
    ∃ τ', At exact (s.withCurrent (s.current.emit (.setupEnsure 0) line)).chunk τ'
        (L.ensured s.size) ∧
      Grows exit [(s.size, (L.started s.size).push 2)] [] s τ
        (s.withCurrent (s.current.emit (.setupEnsure 0) line)) τ' :=
  grows_jump exit hat (.setupEnsure 0) _ _ (Op.safe_covered rfl nofun hL.pos hL.covered)
    (fun _ => .refl _ _) rfl (.refl _ _) line

/-- In the window the `ensure` part is exposed. It may count as started behind it. -/
theorem typed_window {j : Nat} (hat : At exact s.chunk τ (L.exposed j)) (hL : L.Ready)
    (hM : ((L.exposed j).push 2).Flows exact M) (hr : Ran (emitWindow line) s u s') :
    ∃ τ', At exact s'.chunk τ' M ∧ KeepsScopes s τ s' τ' := by
  simp only [emitWindow, ran_bind, ran_emit] at hr
  obtain ⟨_, _, rfl, rfl⟩ := hr
  obtain ⟨τ₁, hat₁, hk₁⟩ := typed_straight hat .null ((L.exposed j).push 1)
    (safe_exposed hL j 0 (.inl rfl)) (fun _ => .refl _ _) rfl line
  obtain ⟨τ₂, hat₂, hk₂⟩ := typed_straight hat₁ .null M (safe_exposed hL j 1 (.inl rfl))
    (fun _ => hM) rfl line
  exact ⟨τ₂, hat₂, hk₁.trans hk₂⟩

/-- The hidden locals of exception handling are declared in a scope of their own. -/
theorem grows_hidden {r : CompilerState} {n : Nat} (hg : Grows exit debts [] s τ r υ)
    (hr : Ran (emitHidden pos) r n t) :
    ∃ fresh, n = s.current.locals.length ∧ fresh.length = 2 ∧ t.chunk = r.chunk ∧
      Grows exit debts fresh (s.withScope s.current.locals (s.current.depth + 1)) τ t υ ∧
      DeclaredAt (s.current.depth + 1) fresh := by
  simp only [emitHidden, ran_bind, ran_beginScope, ran_localCount, ran_pure] at hr
  obtain ⟨_, _, rfl, _, _, ⟨rfl, rfl⟩, _, t₁, hr₁, _, t₂, hr₂, rfl, rfl⟩ := hr
  obtain ⟨hg₁, hc₁, hd₁⟩ := hg.deeper.define nofun hr₁
  obtain ⟨hg₂, hc₂, hd₂⟩ := hg₁.define hd₁ hr₂
  refine ⟨_, ?_, rfl, hc₂.trans hc₁, hg₂, hd₂⟩
  have h := congrArg List.length hg.locals
  simpa using h

/-- The `ensure` part and the end of a `try` statement. -/
theorem grows_ensurePart {ensure : Context → Gen Unit} {j count : Nat}
    (hensure : ∀ ctx', Builds exact .bound ctx'.tries false (ensure ctx'))
    (hin : Inside exact scope ctx.tries exit s τ L) (hcount : 1 ≤ count)
    (hg : Grows exit [(j, (L.started j).push 2)] fresh
      (s.withScope s.current.locals (s.current.depth + 1)) τ t υ)
    (hlen : fresh.length = 2) (hdecl : DeclaredAt (s.current.depth + 1) fresh)
    (hat : At exact t.chunk υ ((L.started j).push 2))
    (hr : Ran (emitEnsurePart ctx pos count j ensure) t u s') :
    ∃ τ', At exact s'.chunk τ' L ∧ Grows exit [] [] s τ s' τ' := by
  simp only [emitEnsurePart, ran_bind, ran_emit] at hr
  obtain ⟨_, t₁, hrp, _, t₂, hre, _, _, rfl, hend⟩ := hr
  obtain ⟨υ₁, hat₁, hg₁⟩ := hg.patch [] hin.typed hat (.refl _ _) hrp
  have hready := (ready_started hin.ready j).push 2
  have hin₁ : Inside exact .bound (ctx.within count 0 none).tries exit t₁ υ₁
      ((L.started j).push 2) := by
    refine hin.deeper.enter hg₁.toExtends hat₁ hready (by rw [hlen]; rfl) hdecl ?_
      fun _ _ _ => fits_bound
    intro d X hd hleaves
    exact leavesTo_plain [] hd hcount nofun ((Finished.refl _).cons j) hleaves
  obtain ⟨υ₂, hat₂, hg₂⟩ := (hensure _).run hin₁ hre
  have hsafe : Op.endHandler.Safe exact ((L.started j).push 2) :=
    Op.safe_covered rfl nofun (Nat.lt_add_of_pos_left hin.ready.pos) hready.covered
  -- behind the `ensure` part the statement has been left
  obtain ⟨υ₃, hat₃, hk₃⟩ := typed_straight hat₂ .endHandler (L.push 2) hsafe
    (fun _ => ⟨fun _ => rfl, rfl, .leave (.refl _)⟩) rfl pos.line
  exact ((hg₁.trans hg₂).trans_keepsScopes hk₃).endScope hdecl hin.settled hin.ready (hlen ▸ hat₃)
    hend

end Parts

/-! ## `try` statements -/

section Try

variable {exact : Bool} {scope : Scope} {ctx : Context} {pos : Position}
variable {body : Context → Gen Unit} {clauses : Context → UInt16 → UInt16 → Gen Unit}
variable {ensure : Context → Gen Unit}

/-- Except clauses grow typed code where the exception and the cause are in slots of the frame. -/
def Handles (exact : Bool) (tries : List TryBlock) (exceptionSlot causeSlot : UInt16)
    (m : Gen Unit) : Prop :=
  ∀ ⦃s s' : CompilerState⦄ ⦃τ : Typing⦄ ⦃L : Level⦄ ⦃exit : Option Level⦄,
    Inside exact .bound tries exit s τ L → exceptionSlot.toNat < L.height →
    causeSlot.toNat < L.height → Ran m s () s' →
      ∃ τ', At exact s'.chunk τ' L ∧ Grows exit [] [] s τ s' τ'

/-- The slot of a hidden local lies below the height. -/
theorem toNat_slot_lt {n h : Nat} (hlt : n < h) : (UInt16.ofNat n).toNat < h := by
  rw [UInt16.toNat_ofNat']
  exact Nat.lt_of_le_of_lt (Nat.mod_le _ _) hlt

/-- The code of a `try` statement without except clauses. -/
theorem emitTry_ensure (ctx : Context) (pos : Position) (body ensure : Context → Gen Unit) :
    emitTry ctx pos body none (some ensure) = (do
      let setup ← emitJump (.setupEnsure 0) pos.line
      let count ← localCount
      body (ctx.within count 1 (some (ensure ctx)))
      emit .popHandler pos.line
      emitWindow pos.line
      let _ ← emitHidden pos
      emitEnsurePart ctx pos count setup ensure) := by
  simp only [emitTry, emitWindow, emitHidden, Option.mapM, Option.isSome, if_true,
    Bool.false_eq_true, if_false, map_eq_pure_bind, bind_assoc, pure_bind]
  rfl

/-- The code of a `try` statement without an `ensure` part. -/
theorem emitTry_clauses (ctx : Context) (pos : Position) (body : Context → Gen Unit)
    (clauses : Context → UInt16 → UInt16 → Gen Unit) :
    emitTry ctx pos body (some clauses) none = (do
      let setup ← emitJump (.setupExcept 0) pos.line
      let count ← localCount
      body (ctx.within count 1 none)
      emit .popHandler pos.line
      let slot ← emitHidden pos
      let skip ← emitJump (.jump 0) pos.line
      patchJump setup pos
      clauses (ctx.within count 0 none) (UInt16.ofNat slot) (UInt16.ofNat (slot + 1))
      emit .endHandler pos.line
      endScope pos.line
      patchJump skip pos) := by
  simp only [emitTry, emitHidden, Option.mapM, Option.isSome, if_true, Bool.false_eq_true,
    if_false, map_eq_pure_bind, bind_assoc, pure_bind, bind_pure_unit]
  rfl

/-- The code of a `try` statement with both. -/
theorem emitTry_both (ctx : Context) (pos : Position) (body ensure : Context → Gen Unit)
    (clauses : Context → UInt16 → UInt16 → Gen Unit) :
    emitTry ctx pos body (some clauses) (some ensure) = (do
      let ensureSetup ← emitJump (.setupEnsure 0) pos.line
      let exceptSetup ← emitJump (.setupExcept 0) pos.line
      let count ← localCount
      body (ctx.within count 2 (some (ensure ctx)))
      emit .popHandler pos.line
      emit .popHandler pos.line
      emitWindow pos.line
      let slot ← emitHidden pos
      let skip ← emitJump (.jump 0) pos.line
      patchJump exceptSetup pos
      clauses (ctx.within count 1 (some (ensure ctx))) (UInt16.ofNat slot) (UInt16.ofNat (slot + 1))
      emit .popHandler pos.line
      patchJump skip pos
      emitEnsurePart ctx pos count ensureSetup ensure) := by
  simp only [emitTry, emitWindow, emitHidden, Option.mapM, Option.isSome, if_true,
    map_eq_pure_bind, bind_assoc, pure_bind]
  rfl

/-- `try` with an `ensure` part alone. -/
theorem builds_tryEnsure
    (hbody : ∀ ctx', Builds exact scope.guarded ctx'.tries false (body ctx'))
    (hensure : ∀ ctx', Builds exact .bound ctx'.tries false (ensure ctx')) :
    Builds exact scope ctx.tries false (emitTry ctx pos body none (some ensure)) := by
  intro s s' τ L exit hin hr
  simp only [emitTry_ensure, ran_bind, ran_emitJump, ran_localCount, ran_emit] at hr
  obtain ⟨_, _, ⟨rfl, rfl⟩, _, _, ⟨rfl, rfl⟩, _, t₁, hrb, _, _, rfl, _, t₃, hwindow, _, t₄, hhidden,
    htail⟩ := hr
  have hpos : 1 ≤ s.current.locals.length := hin.height ▸ hin.ready.pos
  obtain ⟨υ₀, hat₀, hg₀⟩ := grows_setupEnsure exit hin.typed hin.ready pos.line
  have hin₀ := hin.enter (b := ⟨s.current.locals.length, 1, some (ensure ctx)⟩) hg₀.toExtends hat₀
    (ready_ensured hin.ready _) rfl nofun
    (fun _ _ hd hl => leavesTo_ensure [] hd hpos nofun (hensure ctx) hl s.size)
    (fun _ _ hf => fits_guarded hin.height hf)
  obtain ⟨υ₁, hat₁, hg₁⟩ := (hbody _).run hin₀ hrb
  obtain ⟨υ₂, hat₂, hk₂⟩ := typed_popHandler hat₁ hin₀.ready (.refl _) pos.line
  have hstarted : ((L.exposed s.size).push 2).Flows exact ((L.started s.size).push 2) :=
    ⟨fun _ => rfl, rfl, .start (.refl _)⟩
  obtain ⟨υ₃, hat₃, hk₃⟩ := typed_window hat₂ hin.ready hstarted hwindow
  have hg₃ := ((hg₀.trans hg₁).trans_keepsScopes hk₂).trans_keepsScopes hk₃
  obtain ⟨fresh, -, hlen, hchunk, hg₄, hdecl⟩ := grows_hidden hg₃ hhidden
  obtain ⟨τ', hat', hg'⟩ := grows_ensurePart hensure hin hpos hg₄ hlen hdecl (hchunk ▸ hat₃) htail
  exact ⟨τ', [], hat', hg', nofun, fun _ => rfl⟩

/-- `try` with except clauses alone. -/
theorem builds_tryClauses
    (hbody : ∀ ctx', Builds exact scope.guarded ctx'.tries false (body ctx'))
    (hclauses : ∀ ctx' x y, Handles exact ctx'.tries x y (clauses ctx' x y)) :
    Builds exact scope ctx.tries false (emitTry ctx pos body (some clauses) none) := by
  intro s s' τ L exit hin hr
  simp only [emitTry_clauses, ran_bind, ran_emitJump, ran_localCount, ran_emit] at hr
  obtain ⟨_, _, ⟨rfl, rfl⟩, _, _, ⟨rfl, rfl⟩, _, t₁, hrb, _, _, rfl, slot, t₃, hhidden, hr⟩ := hr
  have hpos : 1 ≤ s.current.locals.length := hin.height ▸ hin.ready.pos
  obtain ⟨υ₀, hat₀, hg₀⟩ := grows_setupExcept exit hin.typed hin.ready pos.line
  have hin₀ := hin.enter (b := ⟨s.current.locals.length, 1, none⟩) hg₀.toExtends hat₀
    (ready_guarded hin.ready _) rfl nofun
    (fun _ _ hd hl => leavesTo_plain [⟨.except, s.size⟩] hd hpos (allExcept_one _) (.refl _) hl)
    (fun _ _ hf => fits_guarded hin.height hf)
  obtain ⟨υ₁, hat₁, hg₁⟩ := (hbody _).run hin₀ hrb
  obtain ⟨υ₂, hat₂, hk₂⟩ := typed_popHandler hat₁ hin₀.ready (.refl _) pos.line
  have hg₂ := (hg₀.trans hg₁).trans_keepsScopes hk₂
  obtain ⟨fresh, hslot, hlen, hchunk, hg₈, hdecl⟩ := grows_hidden hg₂ hhidden
  obtain ⟨_, _, ⟨rfl, rfl⟩, _, t₉, hrp, _, t₁₀, hrc, _, _, rfl, _, t₁₁, hend, hskip⟩ := hr
  -- the jump over the clauses leaves the scope as well: its target lies behind the dropped locals
  obtain ⟨υ₉, hat₉, hg₉⟩ := grows_jump exit (hchunk ▸ hat₂) (.jump 0) (L.push 2) L
    (Op.safe_covered rfl nofun hin.ready.pos hin.ready.covered) nofun rfl (.refl _ _) pos.line
  have hready := hin.ready.push 2
  obtain ⟨υ₁₀, hat₁₀, hg₁₀⟩ := (hg₈.trans hg₉).patch [] hin.typed hat₉ (.refl _ _) hrp
  have hheight : slot = L.height := hslot.trans hin.height
  have hin₁₀ := hin.deeper.enter (b := ⟨s.current.locals.length, 0, none⟩) hg₁₀.toExtends hat₁₀
    hready (by rw [List.nil_append, hlen]; rfl) hdecl
    (fun _ _ hd hl => leavesTo_plain [] hd hpos nofun (.refl _) hl) (fun _ _ _ => fits_bound)
  obtain ⟨υ₁₁, hat₁₁, hg₁₁⟩ := hclauses _ _ _ hin₁₀ (toNat_slot_lt (by rw [hheight]; simp))
    (toNat_slot_lt (by rw [hheight]; simp)) hrc
  obtain ⟨υ₁₂, hat₁₂, hk₁₂⟩ := typed_plain (p := 2) (q := 2) (L := L) .endHandler hat₁₁ hin.ready
    pos.line rfl rfl
  obtain ⟨υ₁₃, hat₁₃, hg₁₃⟩ :=
    ((hg₁₀.trans hg₁₁).trans_keepsScopes hk₁₂).endScope hdecl hin.settled hin.ready
    (by rw [List.nil_append, List.nil_append, hlen]; exact hat₁₂) hend
  obtain ⟨τ', hat', hg'⟩ := hg₁₃.patch [] hin.typed hat₁₃ (.refl _ _) hskip
  exact ⟨τ', [], hat', hg', nofun, fun _ => rfl⟩

/-- `try` with except clauses and an `ensure` part. -/
theorem builds_tryBoth
    (hbody : ∀ ctx', Builds exact scope.guarded ctx'.tries false (body ctx'))
    (hclauses : ∀ ctx' x y, Handles exact ctx'.tries x y (clauses ctx' x y))
    (hensure : ∀ ctx', Builds exact .bound ctx'.tries false (ensure ctx')) :
    Builds exact scope ctx.tries false (emitTry ctx pos body (some clauses) (some ensure)) := by
  intro s s' τ L exit hin hr
  simp only [emitTry_both, ran_bind, ran_emitJump, ran_localCount, ran_emit] at hr
  obtain ⟨_, _, ⟨rfl, rfl⟩, _, _, ⟨rfl, rfl⟩, _, _, ⟨rfl, rfl⟩, _, t₁, hrb, _, _, rfl, _, _, rfl, _, t₄,
    hwindow, slot, t₈, hhidden, hr⟩ := hr
  have hpos : 1 ≤ s.current.locals.length := hin.height ▸ hin.ready.pos
  have hensured := ready_ensured hin.ready s.size
  obtain ⟨υ, hat, hg⟩ := grows_setupEnsure exit hin.typed hin.ready pos.line
  obtain ⟨υ₀, hat₀, hg₀⟩ := grows_setupExcept exit hat hensured pos.line
  have hg₀ := hg.trans hg₀
  have hin₀ := hin.enter (b := ⟨s.current.locals.length, 2, some (ensure ctx)⟩) hg₀.toExtends hat₀
    (ready_guarded hensured _) rfl nofun
    (fun _ _ hd hl => leavesTo_ensure [⟨.except, _⟩] hd hpos (allExcept_one _) (hensure ctx) hl
      s.size)
    (fun _ _ hf => fits_guarded hin.height hf)
  obtain ⟨υ₁, hat₁, hg₁⟩ := (hbody _).run hin₀ hrb
  obtain ⟨υ₂, hat₂, hk₂⟩ := typed_popHandler hat₁ hin₀.ready (.refl _) pos.line
  obtain ⟨υ₃, hat₃, hk₃⟩ := typed_popHandler hat₂ hensured (.refl _) pos.line
  obtain ⟨υ₄, hat₄, hk₄⟩ := typed_window hat₃ hin.ready (.refl exact _) hwindow
  have hg₄ := (((hg₀.trans hg₁).trans_keepsScopes hk₂).trans_keepsScopes hk₃).trans_keepsScopes hk₄
  obtain ⟨fresh, hslot, hlen, hchunk, hg₈, hdecl⟩ := grows_hidden hg₄ hhidden
  obtain ⟨_, _, ⟨rfl, rfl⟩, _, t₉, hrp, _, t₁₀, hrc, _, _, rfl, _, t₁₁, hskip, htail⟩ := hr
  -- the jump over the clauses is the last instruction of the window
  obtain ⟨υ₉, hat₉, hg₉⟩ := grows_jump exit (hchunk ▸ hat₄) (.jump 0) ((L.ensured s.size).push 2)
    ((L.started s.size).push 2) (safe_exposed hin.ready s.size 2 (.inr rfl)) nofun rfl
    ⟨fun _ => rfl, rfl, .start (.refl _)⟩ pos.line
  obtain ⟨υ₁₀, hat₁₀, hg₁₀⟩ := (hg₈.trans hg₉).patch [_] hin.typed hat₉ (.refl _ _) hrp
  have hheight : slot = L.height := hslot.trans hin.height
  have hin₁₀ := hin.deeper.enter (b := ⟨s.current.locals.length, 1, some (ensure ctx)⟩)
    hg₁₀.toExtends hat₁₀ (hensured.push 2) (by rw [List.nil_append, hlen]; rfl) hdecl
    (fun _ _ hd hl => leavesTo_ensure [] hd hpos nofun (hensure ctx) hl s.size)
    (fun _ _ _ => fits_bound)
  obtain ⟨υ₁₁, hat₁₁, hg₁₁⟩ := hclauses _ _ _ hin₁₀ (toNat_slot_lt (by
    rw [hheight]
    exact Nat.lt_add_of_pos_right Nat.two_pos)) (toNat_slot_lt (by
    rw [hheight]
    exact Nat.lt_succ_self _)) hrc
  obtain ⟨υ₁₂, hat₁₂, hk₁₂⟩ := typed_popHandler hat₁₁ hin₁₀.ready (.start (.refl _)) pos.line
  obtain ⟨υ₁₃, hat₁₃, hg₁₃⟩ :=
    ((hg₁₀.trans hg₁₁).trans_keepsScopes hk₁₂).patch [_] hin.typed hat₁₂ (.refl _ _)
    hskip
  obtain ⟨τ', hat', hg'⟩ := grows_ensurePart hensure hin hpos hg₁₃
    (by rw [List.nil_append, List.nil_append, hlen]) hdecl hat₁₃ htail
  exact ⟨τ', [], hat', hg', nofun, fun _ => rfl⟩

end Try

/-! ## Except clauses -/

section Clauses

variable {exact : Bool} {tries : List TryBlock} {exit : Option Level}
variable {s s' : CompilerState} {τ : Typing} {L : Level} {pos : Position}
variable {exceptionSlot causeSlot : UInt16} {binder : String} {exceptionClass body : Gen Unit}
variable {u : Unit}

/-- The test whether the exception is one of the class. -/
def emitTest (pos : Position) (exceptionSlot : UInt16) (exceptionClass : Gen Unit) : Gen Unit := do
  emit (.getLocal exceptionSlot) pos.line
  exceptionClass
  emit .is pos.line

/-- The code of a clause that applies: a scope that binds the exception and clears the cause at its
end. -/
def emitApplied (pos : Position) (exceptionSlot causeSlot : UInt16) (binder : String)
    (body : Gen Unit) : Gen Unit :=
  inScope pos.line do
    emit (.getLocal exceptionSlot) pos.line
    defineLocal binder pos
    body
    emit .null pos.line
    emit (.setLocal causeSlot) pos.line
    emit .pop pos.line

/-- What generating code for a clause does, step by step. -/
theorem emitClause_eq (hasNext : Bool) :
    emitClause pos exceptionSlot causeSlot binder exceptionClass body hasNext = (do
      emitTest pos exceptionSlot exceptionClass
      let next ← emitJump (.jumpIfFalse 0) pos.line
      emitApplied pos exceptionSlot causeSlot binder body
      let exit ← if hasNext then some <$> emitJump (.jump 0) pos.line else pure none
      patchJump next pos
      return exit) := by
  simp only [emitClause, emitTest, emitApplied, inScope, bind_assoc]

/-- The test pushes its outcome. -/
theorem typed_test (hclass : Turns exact 0 1 exceptionClass) (hp : Placed exact s τ L)
    (hx : exceptionSlot.toNat < L.height)
    (hr : Ran (emitTest pos exceptionSlot exceptionClass) s u s') :
    ∃ τ', At exact s'.chunk τ' (L.push 1) ∧ KeepsScopes s τ s' τ' := by
  simp only [emitTest, ran_bind, ran_emit] at hr
  obtain ⟨_, _, rfl, _, t, hrc, rfl⟩ := hr
  obtain ⟨υ₁, hat₁, hk₁⟩ := typed_getLocal hp.typed hp.ready hx pos.line
  obtain ⟨υ₂, hat₂, hk₂⟩ := hclass hat₁ (hp.ready.push 1)
    (hk₁.reach ▸ Nat.le_add_right_of_le hp.reach) hrc
  obtain ⟨υ₃, hat₃, hk₃⟩ := typed_plain (p := 2) (q := 1) (L := L) .is hat₂ hp.ready pos.line
    rfl rfl
  exact ⟨υ₃, hat₃, (hk₁.trans hk₂).trans hk₃⟩

/-- The code of a clause that applies leaves the stack as it was. -/
theorem grows_applied (hbody : Builds exact .bound tries false body)
    (hin : Inside exact .bound tries exit s τ L) (hx : exceptionSlot.toNat < L.height)
    (hy : causeSlot.toNat < L.height)
    (hr : Ran (emitApplied pos exceptionSlot causeSlot binder body) s u s') :
    ∃ τ', At exact s'.chunk τ' L ∧ Grows exit [] [] s τ s' τ' := by
  simp only [emitApplied, ran_inScope, ran_bind, ran_emit] at hr
  obtain ⟨_, ⟨_, _, rfl, _, t₂, hrd, _, t₃, hrb, _, _, rfl, _, _, rfl, rfl⟩, hend⟩ := hr
  obtain ⟨υ₁, hat₁, hk₁⟩ := typed_getLocal hin.deeper.typed hin.ready hx pos.line
  obtain ⟨hg₂, hchunk, hdecl⟩ := (hk₁.grows : Grows exit [] [] _ _ _ _).define nofun hrd
  have hin₂ : Inside exact .bound tries exit t₂ υ₁ (L.push 1) :=
    hin.deeper.after true hg₂.toExtends (hchunk ▸ hat₁) hdecl nofun
  obtain ⟨υ₃, hat₃, hg₃⟩ := hbody.run hin₂ hrb
  have hready := hin.ready.push 1
  obtain ⟨υ₄, hat₄, hk₄⟩ := typed_plain (p := 0) (q := 1) (L := L.push 1) .null hat₃ hready
    pos.line rfl rfl
  obtain ⟨υ₅, hat₅, hk₅⟩ := typed_setLocal hat₄ hready (Nat.lt_succ_of_lt hy) pos.line
  obtain ⟨υ₆, hat₆, hk₆⟩ := typed_plain (p := 1) (q := 0) (L := L.push 1) .pop hat₅ hready
    pos.line rfl rfl
  have hg₆ := (((hg₂.trans hg₃).trans_keepsScopes hk₄).trans_keepsScopes hk₅).trans_keepsScopes hk₆
  exact hg₆.endScope hdecl hin.settled hin.ready hat₆ hend

/-- A clause leaves the stack as it was, and owes the jump to the end of the clauses if there is
one. -/
theorem grows_clause {hasNext : Bool} {jump : Option Nat} (hclass : Turns exact 0 1 exceptionClass)
    (hbody : Builds exact .bound tries false body) (hin : Inside exact .bound tries exit s τ L)
    (hx : exceptionSlot.toNat < L.height) (hy : causeSlot.toNat < L.height)
    (hr : Ran (emitClause pos exceptionSlot causeSlot binder exceptionClass body hasNext) s
      jump s') :
    ∃ τ', At exact s'.chunk τ' L ∧ Grows exit (jump.toList.map (·, L)) [] s τ s' τ' := by
  simp only [emitClause_eq, ran_bind, ran_emitJump] at hr
  obtain ⟨_, t₁, hrt, _, _, ⟨rfl, rfl⟩, _, t₃, hra, hr⟩ := hr
  obtain ⟨υ₁, hat₁, hk₁⟩ := typed_test hclass hin.toPlaced hx hrt
  obtain ⟨υ₂, hat₂, hg₂⟩ := grows_jump exit hat₁ (.jumpIfFalse 0) L L
    (Op.safe_covered rfl nofun (Nat.succ_lt_succ hin.ready.pos) hin.ready.covered)
    (fun _ => .refl _ _) rfl (.refl _ _) pos.line
  have hg₂ := hk₁.trans_grows hg₂
  obtain ⟨υ₃, hat₃, hg₃⟩ := grows_applied hbody (hin.extends hg₂.toExtends hat₂) hx hy hra
  have hg₃ := hg₂.trans hg₃
  cases hasNext with
  | false =>
    simp only [Bool.false_eq_true, if_false, ran_bind, ran_pure] at hr
    obtain ⟨_, _, ⟨rfl, rfl⟩, _, t₄, hrp, rfl, rfl⟩ := hr
    exact hg₃.patch [] hin.typed hat₃ (.refl _ _) hrp
  | true =>
    simp only [if_true, ran_bind, ran_map, ran_emitJump, ran_pure] at hr
    obtain ⟨_, _, ⟨_, ⟨rfl, rfl⟩, rfl⟩, _, t₅, hrp, rfl, rfl⟩ := hr
    obtain ⟨υ₄, hat₄, hg₄⟩ := grows_jump exit hat₃ (.jump 0) L L
      (Op.safe_covered rfl nofun hin.ready.pos hin.ready.covered) nofun rfl (.refl _ _) pos.line
    exact (hg₃.trans hg₄).patch [] hin.typed hat₄ (.refl _ _) hrp

/-- Clauses grow typed code where the exception and the cause are in slots of the frame, and owe the
jumps to their end. -/
def OwesExits (exact : Bool) (tries : List TryBlock) (exceptionSlot causeSlot : UInt16)
    (m : Gen (List Nat)) : Prop :=
  ∀ ⦃s s' : CompilerState⦄ ⦃τ : Typing⦄ ⦃L : Level⦄ ⦃exit : Option Level⦄ ⦃exits : List Nat⦄,
    Inside exact .bound tries exit s τ L → exceptionSlot.toNat < L.height →
    causeSlot.toNat < L.height → Ran m s exits s' →
      ∃ τ', At exact s'.chunk τ' L ∧ Grows exit (exits.map (·, L)) [] s τ s' τ'

/-- Without clauses there is nothing to leave. -/
theorem OwesExits.nil : OwesExits exact tries exceptionSlot causeSlot (pure []) := by
  intro s s' τ L exit exits hin _ _ hr
  obtain ⟨rfl, rfl⟩ := ran_pure.1 hr
  exact ⟨τ, hin.typed, (KeepsScopes.refl _ _).grows⟩

/-- One clause before others. -/
theorem OwesExits.cons {hasNext : Bool} {rest : Gen (List Nat)}
    (hclass : Turns exact 0 1 exceptionClass) (hbody : Builds exact .bound tries false body)
    (hrest : OwesExits exact tries exceptionSlot causeSlot rest) :
    OwesExits exact tries exceptionSlot causeSlot (do
      let exit ← emitClause pos exceptionSlot causeSlot binder exceptionClass body hasNext
      let exits ← rest
      return exit.toList ++ exits) := by
  intro s s' τ L exit exits hin hx hy hr
  simp only [ran_bind, ran_pure] at hr
  obtain ⟨jump, t, hrc, exits, _, hrr, rfl, rfl⟩ := hr
  obtain ⟨υ, hat, hg⟩ := grows_clause hclass hbody hin hx hy hrc
  obtain ⟨τ', hat', hg'⟩ := hrest (hin.extends hg.toExtends hat) hx hy hrr
  rw [List.map_append]
  exact ⟨τ', hat', hg.trans hg'⟩

/-- The jumps out of the clauses land behind them. -/
theorem OwesExits.handles {m : Gen (List Nat)}
    (h : OwesExits exact tries exceptionSlot causeSlot m) (pos : Position) :
    Handles exact tries exceptionSlot causeSlot (m >>= fun exits => patchJumps exits pos) := by
  intro s s' τ L exit hin hx hy hr
  obtain ⟨exits, t, hrm, hrp⟩ := ran_bind.1 hr
  obtain ⟨υ, hat, hg⟩ := h hin hx hy hrm
  exact hg.patchAll [] hin.typed hat hrp

end Clauses

/-! ## Resources -/

section Resources

variable {exact : Bool} {scope : Scope} {ctx : Context} {pos : Position} {name : String}
variable {value body : Context → Gen Unit}

/-- Behind a local, the scope of the body of a `try` is that of the body of a `with`. -/
theorem Scope.guarded_after (scope : Scope) : (scope.after true).guarded = scope.resource := by
  cases scope <;> rfl

/-- `with` builds code from its value and its body. -/
theorem builds_with (hvalue : ∀ ctx', Turns exact 0 1 (value ctx'))
    (hbody : ∀ ctx', Builds exact scope.resource ctx'.tries false (body ctx')) :
    Builds exact scope ctx.tries false (emitWith ctx pos name value body) := by
  have hassign : ∀ ctx', Turns exact 0 0 (do
      value ctx'
      setVariable name pos
      emit .pop pos.line) := fun ctx' =>
    .bind (hvalue ctx') fun _ => .bind (turns_setVariable name pos) fun _ =>
    turns_emit pos.line rfl rfl
  have hguarded : ∀ ctx', Builds exact (scope.after true).guarded ctx'.tries false
      (inScope pos.line do
        value ctx'
        setVariable name pos
        emit .pop pos.line
        body ctx') := by
    intro ctx'
    rw [Scope.guarded_after]
    have h := (hassign ctx').thenBuilds fun _ => hbody ctx'
    simp only [bind_assoc] at h
    exact h.inScope pos.line
  have hdeclare : Builds exact scope ctx.tries true (emitDeclare pos [name] none) :=
    builds_declare nofun nofun
  exact (hdeclare.seq (builds_tryEnsure hguarded fun _ =>
    (turns_emitClose pos name).builds false)).inScope pos.line

end Resources

end ScriptEngine.Compile
