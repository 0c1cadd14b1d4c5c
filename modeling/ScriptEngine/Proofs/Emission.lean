import Mathlib.Tactic.Common
import ScriptEngine.Proofs.Levels

/-!
# Growing typed code

Code stays typed while it grows: an instruction may be appended where its level allows it, a forward
jump may be appended with a promise, and a promise is kept by patching the jump where the level is
the promised one. The level of the next offset may also make progress, since nothing stands there
yet.
-/

namespace ScriptEngine.Bytecode

variable {exact : Bool} {c : Chunk} {τ : Typing} {L L' : Level}

@[simp] theorem Chunk.emit_code (c : Chunk) (op : Op) (line : Nat) :
    (c.emit op line).code = c.code.push op := by
  cases c
  rfl

@[simp] theorem Chunk.emit_constants (c : Chunk) (op : Op) (line : Nat) :
    (c.emit op line).constants = c.constants := by
  cases c
  rfl

/-- Emitting an instruction makes the code longer by one. -/
theorem Chunk.emit_size (c : Chunk) (op : Op) (line : Nat) :
    (c.emit op line).code.size = c.code.size + 1 := by simp

/-- A level at which expressions can be compiled: slot zero is there and no `ensure` part is
exposed. -/
structure Level.Ready (L : Level) : Prop where
  /-- Slot zero is there. -/
  pos : 1 ≤ L.height
  /-- Nothing is exposed. -/
  covered : L.Covered

/-- Pushing slots keeps a level ready. -/
theorem Level.Ready.push (h : L.Ready) (n : Nat) : (L.push n).Ready :=
  ⟨Nat.le_add_right_of_le h.pos, h.covered⟩

/-- The typing after an instruction was appended at offset `n`: the next level, and what the
instruction owes. -/
def Typing.append (τ : Typing) (n : Nat) (L : Level) (owed : Option Level) : Typing :=
  ⟨fun pc => if pc = n + 1 then L else τ.level pc, fun pc => if pc = n then owed else τ.owed pc⟩

/-- Appending a level keeps those before it. -/
theorem Typing.append_level {n pc : Nat} {owed : Option Level} (h : pc ≤ n) :
    (τ.append n L owed).level pc = τ.level pc := by
  have hne : pc ≠ n + 1 := by omega
  simp only [Typing.append, if_neg hne]

/-- Code grows by an instruction that is safe at the current level. -/
theorem At.append (h : At exact c τ L) {op : Op} (hs : op.Safe exact L)
    (hf : op.fallsThrough = true → (op.next c.code.size L).Flows exact L') (owed : Option Level)
    (ho : ∀ X, owed = some X →
      op.forwardDistance?.isSome = true ∧ (op.landing c.code.size L).Flows exact X)
    (hl : ∀ t, owed = none → op.jumpTarget? c.code.size = some t →
      t ≤ c.code.size ∧ (op.landing c.code.size L).Flows exact (τ.level t)) (line : Nat) :
    At exact (c.emit op line) (τ.append c.code.size L' owed) L' where
  sound pc o hop := by
    have hsize := c.emit_size op line
    rw [Chunk.emit_code, Array.getElem?_push] at hop
    split at hop
    · next heq =>
      subst heq
      cases hop
      refine ⟨?_, ?_, ?_, ?_⟩
      · rw [Typing.append_level (Nat.le_refl _), h.here]
        exact hs
      · rw [Typing.append_level (Nat.le_refl _), h.here]
        simpa only [Typing.append, if_true] using hf
      · intro t hn ht
        rw [Typing.append_level (Nat.le_refl _), h.here]
        simp only [Typing.append, if_true] at hn
        obtain ⟨hle, hflow⟩ := hl t hn ht
        rw [Typing.append_level hle]
        exact ⟨by omega, hflow⟩
      · intro X hX
        rw [Typing.append_level (Nat.le_refl _), h.here]
        simp only [Typing.append, if_true] at hX
        exact ho X hX
    · have hlt : pc < c.code.size := (Array.getElem?_eq_some_iff.1 hop).1
      have hne : pc ≠ c.code.size := by omega
      obtain ⟨hsafe, hfalls, hlands, howes⟩ := h.sound pc o hop
      refine ⟨?_, ?_, ?_, ?_⟩
      · rwa [Typing.append_level (Nat.le_of_lt hlt)]
      · rwa [Typing.append_level (Nat.le_of_lt hlt), Typing.append_level hlt]
      · intro t hn ht
        simp only [Typing.append, if_neg hne] at hn
        obtain ⟨hle, hflow⟩ := hlands t hn ht
        rw [Typing.append_level (Nat.le_of_lt hlt), Typing.append_level hle]
        exact ⟨by omega, hflow⟩
      · intro X hX
        simp only [Typing.append, if_neg hne] at hX
        rw [Typing.append_level (Nat.le_of_lt hlt)]
        exact howes X hX
  bound pc hpc := by
    have hsize := c.emit_size op line
    have hne : pc ≠ c.code.size := by omega
    simp only [Typing.append, if_neg hne]
    exact h.bound pc (by omega)
  here := by
    rw [c.emit_size op line]
    simp only [Typing.append, if_true]
  pool := by
    rw [Chunk.emit_constants]
    exact h.pool

/-- Code grows by an instruction without a jump. -/
theorem At.appendStraight (h : At exact c τ L) {op : Op} (hs : op.Safe exact L)
    (hf : op.fallsThrough = true → (op.next c.code.size L).Flows exact L')
    (ht : op.jumpTarget? c.code.size = none) (line : Nat) :
    At exact (c.emit op line) (τ.append c.code.size L' none) L' := by
  refine h.append hs hf none ?_ ?_ line
  · intro X hX
    cases hX
  · intro t _ ht'
    rw [ht] at ht'
    cases ht'

/-- Code grows by a forward jump that promises a level to its target. -/
theorem At.appendForward (h : At exact c τ L) {op : Op} (hs : op.Safe exact L)
    (hf : op.fallsThrough = true → (op.next c.code.size L).Flows exact L') {X : Level}
    (hd : op.forwardDistance?.isSome = true) (hX : (op.landing c.code.size L).Flows exact X)
    (line : Nat) : At exact (c.emit op line) (τ.append c.code.size L' (some X)) L' := by
  refine h.append hs hf (some X) ?_ ?_ line
  · intro Y hY
    cases hY
    exact ⟨hd, hX⟩
  · intro t hn
    cases hn

/-- What is owed after an instruction without a promise. -/
theorem At.append_owed_none (h : At exact c τ L) :
    (τ.append c.code.size L' none).owed = τ.owed := by
  funext pc
  simp only [Typing.append]
  split
  · next heq => exact (h.bound pc (Nat.le_of_eq heq.symm)).symm
  · rfl

/-- What counts less than there are words of sixteen bits is kept by one. -/
theorem toNat_word {n : Nat} (h : n < 65536) : (UInt16.ofNat n).toNat = n := by
  rw [UInt16.toNat_ofNat']
  exact Nat.mod_eq_of_lt h

/-- What patching does to the code: the jump lands on the next offset. -/
theorem Chunk.patchJump?_code {c c' : Chunk} {j : Nat} (h : c.patchJump? j = some c') :
    c.code.size - j - 1 ≤ maxJump ∧ c'.constants = c.constants ∧ c'.lines = c.lines ∧
      c'.code = c.code.modify j fun op =>
        (op.retarget? (UInt16.ofNat (c.code.size - j - 1))).getD op := by
  obtain ⟨code, constants, lines⟩ := c
  simp only [Chunk.patchJump?] at h
  split at h
  · next hd =>
    cases h
    exact ⟨hd, rfl, rfl, rfl⟩
  · cases h

/-- Patching a jump keeps the size of the code. -/
theorem Chunk.patchJump?_size {c c' : Chunk} {j : Nat} (h : c.patchJump? j = some c') :
    c'.code.size = c.code.size := by
  rw [(Chunk.patchJump?_code h).2.2.2, Array.size_modify]

/-- A promise is kept by patching the jump where the level is the promised one. -/
theorem At.patch (h : At exact c τ L) {j : Nat} {X : Level} {c' : Chunk}
    (hj : τ.owed j = some X) (hX : X.Flows exact L) (hp : c.patchJump? j = some c') :
    At exact c' ⟨τ.level, fun pc => if pc = j then none else τ.owed pc⟩ L := by
  obtain ⟨hd, hconst, -, hcode⟩ := Chunk.patchJump?_code hp
  have hsize := Chunk.patchJump?_size hp
  have hjlt : j < c.code.size := by
    by_contra hge
    rw [h.bound j (by omega)] at hj
    cases hj
  refine ⟨?_, ?_, ?_, ?_⟩
  · intro pc op hop
    rw [hsize]
    rw [hcode, Array.getElem?_modify] at hop
    split at hop
    · next heq =>
      subst heq
      obtain ⟨old, hold, rfl⟩ := Option.map_eq_some_iff.1 hop
      obtain ⟨hsafe, hfalls, -, howes⟩ := h.sound _ _ hold
      obtain ⟨hfwd, hland⟩ := howes X hj
      obtain ⟨new, hnew, hft, hsafe', hnext, hlanding, htarget, -⟩ :=
        Op.retarget?_spec hfwd (UInt16.ofNat (c.code.size - j - 1))
      rw [hnew]
      refine ⟨hsafe' _ _ hsafe, ?_, ?_, ?_⟩
      · intro hf
        rw [Option.getD_some] at hf ⊢
        rw [hnext]
        exact hfalls (hft ▸ hf)
      · intro t _ ht
        rw [Option.getD_some, htarget] at ht
        rw [toNat_word (Nat.lt_succ_of_le hd)] at ht
        have hts : t = c.code.size := by
          have := Option.some.inj ht
          omega
        subst hts
        rw [Option.getD_some, hlanding, h.here]
        exact ⟨Nat.le_refl _, hland.trans hX⟩
      · intro Y hY
        simp at hY
    · next hne =>
      obtain ⟨hsafe, hfalls, hlands, howes⟩ := h.sound _ _ hop
      have hne' : ¬ pc = j := fun heq => hne heq.symm
      refine ⟨hsafe, hfalls, ?_, ?_⟩
      · intro t hn ht
        simp only [if_neg hne'] at hn
        exact hlands t hn ht
      · intro Y hY
        simp only [if_neg hne'] at hY
        exact howes Y hY
  · intro pc hpc
    rw [hsize] at hpc
    simp only
    split
    · rfl
    · exact h.bound pc hpc
  · rw [hsize]
    exact h.here
  · rw [hconst]
    exact h.pool

/-- What entering a constant does to the pool. -/
theorem Chunk.addConstant?_spec {c c' : Chunk} {k : Constant} {i : UInt16}
    (h : c.addConstant? k = some (i, c')) :
    c'.code = c.code ∧ c'.lines = c.lines ∧ (c' = c ∨ c'.constants = c.constants.push k) := by
  obtain ⟨code, constants, lines⟩ := c
  simp only [Chunk.addConstant?] at h
  split at h
  · cases h
    exact ⟨rfl, rfl, .inl rfl⟩
  · split at h
    · cases h
      exact ⟨rfl, rfl, .inr rfl⟩
    · cases h

/-- A constant may be entered if it is no function or one that is typed. -/
theorem At.addConstant (h : At exact c τ L) {k : Constant} {i : UInt16} {c' : Chunk}
    (hc : c.addConstant? k = some (i, c')) (hk : ∀ q, k = .function q → q.AllTyped exact) :
    At exact c' τ L := by
  obtain ⟨hcode, -, hpool⟩ := Chunk.addConstant?_spec hc
  refine ⟨?_, ?_, ?_, ?_⟩
  · rw [hcode]
    exact h.sound
  · rw [hcode]
    exact h.bound
  · rw [hcode]
    exact h.here
  · intro q hq
    rcases hpool with rfl | hpush
    · exact h.pool q hq
    · rw [hpush] at hq
      rcases Array.mem_push.1 hq with hq | hq
      · exact h.pool q hq
      · exact hk q hq.symm

/-- Finished code is typed when nothing is owed and every path ends inside it. -/
theorem At.typed (h : At exact c τ L) (howed : ∀ pc, τ.owed pc = none) {p : Proto}
    (hp : p.chunk = c) (h0 : τ.level 0 = .ofHeight p.entryDepth.height)
    (hfall : ∀ (pc : Nat) (op : Op), c.code[pc]? = some op → op.fallsThrough = true →
      pc + 1 < c.code.size)
    (hland : ∀ (pc : Nat) (op : Op) (t : Nat), c.code[pc]? = some op →
      op.jumpTarget? pc = some t → t < c.code.size) :
    p.AllTyped exact := by
  subst hp
  refine Proto.AllTyped.of_pool ⟨τ.level, h0, ?_⟩ h.pool
  intro pc op hop
  obtain ⟨hsafe, hfalls, hlands, -⟩ := h.sound pc op hop
  refine ⟨hsafe, ?_, ?_⟩
  · intro hf
    exact ⟨hfall pc op hop hf, hfalls hf⟩
  · intro t ht
    exact ⟨hland pc op t hop ht, (hlands t (howed pc) ht).2⟩

/-- Code that ends with a `return` and owes nothing is finished. -/
theorem At.finished {c : Chunk} {line : Nat} (h : At exact c τ (L.push 1)) (hL : L.Ready)
    (howed : ∀ pc, τ.owed pc = none) {p : Proto} (hp : p.chunk = c.emit .return line)
    (h0 : τ.level 0 = .ofHeight p.entryDepth.height) : p.AllTyped exact := by
  have hsafe : Op.return.Safe exact (L.push 1) :=
    Op.safe_covered rfl nofun (Nat.succ_lt_succ hL.pos) hL.covered
  have hat : At exact (c.emit .return line) (τ.append c.code.size L none) L :=
    h.appendStraight hsafe nofun rfl line
  have hsize := c.emit_size .return line
  -- the last instruction is the `return`, all others were there before
  have hlast : ∀ (pc : Nat) (op : Op), (c.emit .return line).code[pc]? = some op →
      op = .return ∨ c.code[pc]? = some op ∧ pc < c.code.size := by
    intro pc op hop
    rw [Chunk.emit_code, Array.getElem?_push] at hop
    split at hop
    · exact .inl (Option.some.inj hop).symm
    · exact .inr ⟨hop, (Array.getElem?_eq_some_iff.1 hop).1⟩
  refine hat.typed ?_ hp ?_ ?_ ?_
  · intro pc
    rw [h.append_owed_none]
    exact howed pc
  · rw [Typing.append_level (Nat.zero_le _)]
    exact h0
  · intro pc op hop hf
    rcases hlast pc op hop with rfl | ⟨-, hlt⟩
    · cases hf
    · omega
  · intro pc op t hop ht
    rcases hlast pc op hop with rfl | ⟨hold, -⟩
    · cases ht
    · have := ((h.sound pc op hold).lands t (howed pc) ht).1
      omega

end ScriptEngine.Bytecode
