import Mathlib.Data.List.Forall2
import ScriptEngine.Proofs.Emission
import ScriptEngine.Proofs.Generation

/-!
# Scopes while code is generated

Compiling a nested function or resolving a name marks locals of enclosing functions as captured and
adds captures, but changes neither names, nor depths, nor code. `Alike` says so for one function,
and `KeepsScopes` for a whole run that leaves scopes and loops as they were. A name is resolved to a
slot of a local whose value is already on the stack, so the slot lies below the `reach` of the scope.
-/

namespace ScriptEngine.Compile

open Bytecode Source

/-- A local apart from whether it is captured. -/
def Local.shape (l : Local) : String × Option Nat := (l.name, l.depth)

/-- The locals of a scope apart from captures. -/
def shapes (ls : List Local) : List (String × Option Nat) := ls.map Local.shape

@[simp] theorem shapes_nil : shapes [] = [] := rfl

@[simp] theorem shapes_cons (l : Local) (ls : List Local) :
    shapes (l :: ls) = l.shape :: shapes ls := rfl

@[simp] theorem shapes_append (ls ms : List Local) : shapes (ls ++ ms) = shapes ls ++ shapes ms :=
  List.map_append

@[simp] theorem length_shapes (ls : List Local) : (shapes ls).length = ls.length :=
  List.length_map _

/-- Locals of the same names and depths are equally many. -/
theorem length_eq_of_shapes {ls ms : List Local} (h : shapes ls = shapes ms) :
    ls.length = ms.length := by
  rw [← length_shapes ls, h, length_shapes]

/-- Two states of a function differ at most in captures. -/
structure Alike (f g : FunctionState) : Prop where
  /-- The code is the same. -/
  chunk : g.chunk = f.chunk
  /-- The scope depth is the same. -/
  depth : g.depth = f.depth
  /-- The loops are the same. -/
  loops : g.loops = f.loops
  /-- The locals are the same. -/
  locals : shapes g.locals = shapes f.locals
  /-- Lines are counted as before. -/
  overflowed : g.overflowed = f.overflowed

theorem Alike.refl (f : FunctionState) : Alike f f := ⟨rfl, rfl, rfl, rfl, rfl⟩

theorem Alike.trans {f g h : FunctionState} (a : Alike f g) (b : Alike g h) : Alike f h :=
  ⟨b.chunk.trans a.chunk, b.depth.trans a.depth, b.loops.trans a.loops, b.locals.trans a.locals,
    b.overflowed.trans a.overflowed⟩

theorem forall₂_alike_refl (fs : List FunctionState) : List.Forall₂ Alike fs fs :=
  List.forall₂_same.2 fun f _ => .refl f

/-- Functions that stay alike, and stay alike again, are alike altogether. -/
theorem forall₂_alike_trans {fs gs hs : List FunctionState} (a : List.Forall₂ Alike fs gs)
    (b : List.Forall₂ Alike gs hs) : List.Forall₂ Alike fs hs := by
  induction a generalizing hs with
  | nil =>
    cases b
    exact .nil
  | cons h _ ih =>
    cases b with
    | cons h' t => exact .cons (h.trans h') (ih t)

/-! ## Resolution -/

/-- How many slots the usable locals of a scope span. The innermost locals may have values that are
still being computed. -/
def reach (ls : List Local) : Nat := (ls.dropWhile (·.depth.isNone)).length

/-- A local whose name is still being declared does not count as reached; every other does. -/
theorem reach_cons (l : Local) (ls : List Local) :
    reach (l :: ls) = if l.depth.isNone then reach ls else ls.length + 1 := by
  unfold reach
  rw [List.dropWhile_cons]
  split <;> simp_all

/-- How far locals reach depends on their names and depths alone. -/
theorem reach_congr {ls ms : List Local} (h : shapes ls = shapes ms) : reach ls = reach ms := by
  induction ls generalizing ms with
  | nil =>
    cases ms with
    | nil => rfl
    | cons m ms => cases h
  | cons l ls ih =>
    cases ms with
    | nil => cases h
    | cons m ms =>
      obtain ⟨hs, ht⟩ := List.cons.inj h
      rw [reach_cons, reach_cons, ih ht, length_eq_of_shapes ht, show l.depth = m.depth from
        (Prod.mk.inj hs).2]

/-- Locals reach no further than there are any. -/
theorem reach_le_length (ls : List Local) : reach ls ≤ ls.length :=
  (List.dropWhile_sublist _).length_le

/-- A name is found in a slot of the scope. -/
theorem findLocal_lt_length {name : String} {ls : List Local} {slot : Nat} {l : Local}
    (h : findLocal name ls = some (slot, l)) : slot < ls.length := by
  induction ls with
  | nil => cases h
  | cons m ls ih =>
    rw [findLocal] at h
    split at h
    · cases h
      simp
    · exact Nat.lt_succ_of_lt (ih h)

/-- A usable local lies within the reach of its scope. -/
theorem findLocal_lt_reach {name : String} {ls : List Local} {slot : Nat} {l : Local}
    (h : findLocal name ls = some (slot, l)) (hd : l.depth.isNone = false) : slot < reach ls := by
  induction ls with
  | nil => cases h
  | cons m ls ih =>
    rw [findLocal] at h
    rw [reach_cons]
    split at h
    · cases h
      simp [hd]
    · split
      · exact ih h
      · exact Nat.lt_succ_of_lt (findLocal_lt_length h)

/-- Marking locals as captured keeps names and depths. -/
theorem shapes_captureSlots (captures : Array Capture) (ls : List Local) :
    shapes (captureSlots captures ls) = shapes ls := by
  refine List.ext_getElem? fun i => ?_
  simp only [shapes, captureSlots, List.getElem?_map, List.getElem?_mapIdx, Option.map_map]
  rfl

/-- Marking what an inner function captures keeps names, depths and code. -/
theorem alike_capture (f : FunctionState) (captures : Array Capture) :
    Alike f (f.capture captures) :=
  ⟨rfl, rfl, rfl, shapes_captureSlots _ _, rfl⟩

/-- Adding a capture keeps names, depths and code. -/
theorem alike_addUpvalue {f g : FunctionState} {c : Capture} {pos : Position} {i : UInt16}
    (h : f.addUpvalue c pos = .ok (i, g)) : Alike f g := by
  rw [FunctionState.addUpvalue_eq] at h
  split at h
  · cases h
    exact .refl f
  · split at h
    · cases h
      exact ⟨rfl, rfl, rfl, rfl, rfl⟩
    · cases h

/-- From a computation that succeeds, both parts succeed. -/
theorem except_bind_ok {ε α β : Type} {x : Except ε α} {f : α → Except ε β} {b : β}
    (h : x >>= f = .ok b) : ∃ a, x = .ok a ∧ f a = .ok b := by
  cases x with
  | error e => cases h
  | ok a => exact ⟨a, rfl, h⟩

/-- Resolving a captured variable changes nothing but captures, here and in the functions around. -/
theorem alike_resolveUpvalue {name : String} {pos : Position} {f g : FunctionState}
    {fs gs : List FunctionState} {found : Option UInt16}
    (h : resolveUpvalue name pos f fs = .ok (found, g, gs)) :
    Alike f g ∧ List.Forall₂ Alike fs gs := by
  induction fs generalizing f g gs found with
  | nil =>
    cases h
    exact ⟨.refl f, .nil⟩
  | cons outer rest ih =>
    rw [resolveUpvalue] at h
    obtain ⟨slot?, -, h⟩ := except_bind_ok h
    cases slot? with
    | some slot =>
      obtain ⟨⟨i, f'⟩, hadd, h⟩ := except_bind_ok h
      cases h
      exact ⟨alike_addUpvalue hadd, forall₂_alike_refl _⟩
    | none =>
      obtain ⟨⟨found', outer', rest'⟩, hrec, h⟩ := except_bind_ok h
      obtain ⟨houter, hrest⟩ := ih hrec
      dsimp only at h
      split at h
      · obtain ⟨⟨j, f'⟩, hadd, h⟩ := except_bind_ok h
        cases h
        exact ⟨alike_addUpvalue hadd, .cons houter hrest⟩
      · cases h
        exact ⟨.refl f, .cons houter hrest⟩

/-- Resolving a name changes nothing but captures, and a slot it gives is that of a usable local. -/
theorem ran_resolve {s s' : CompilerState} {name : String} {pos : Position} {a : Access}
    (h : Ran (resolve name pos) s a s') :
    Alike s.current s'.current ∧ List.Forall₂ Alike s.enclosing s'.enclosing ∧
      ∀ i, a = .slot i → i.toNat < reach s.current.locals := by
  simp only [resolve, ran_bind, ran_get, ran_lift] at h
  obtain ⟨_, _, ⟨rfl, rfl⟩, slot?, _, ⟨hlocal, rfl⟩, h⟩ := h
  cases slot? with
  | some slot =>
    obtain ⟨rfl, rfl⟩ := ran_pure.1 h
    refine ⟨.refl _, forall₂_alike_refl _, ?_⟩
    intro i hi
    cases hi
    unfold FunctionState.resolveLocal at hlocal
    split at hlocal
    · cases hlocal
    · next n l hfind =>
      split at hlocal
      · cases hlocal
      · next hd =>
        cases hlocal
        have hlt := findLocal_lt_reach hfind (Bool.eq_false_iff.2 hd)
        rw [UInt16.toNat_ofNat']
        exact Nat.lt_of_le_of_lt (Nat.mod_le _ _) hlt
  | none =>
    simp only [ran_bind, ran_lift, ran_set] at h
    obtain ⟨⟨found, current, enclosing⟩, _, ⟨hup, rfl⟩, _, _, rfl, h⟩ := h
    obtain ⟨hcur, henc⟩ := alike_resolveUpvalue hup
    cases found with
    | some i =>
      obtain ⟨rfl, rfl⟩ := ran_pure.1 h
      exact ⟨hcur, henc, fun _ hi => by cases hi⟩
    | none =>
      obtain ⟨rfl, rfl⟩ := ran_pure.1 h
      exact ⟨hcur, henc, fun _ hi => by cases hi⟩

/-! ## Runs that keep scopes and loops -/

/-- A run from one typed state to another adds code and leaves scopes, loops and promises as they
were. -/
structure KeepsScopes (s : CompilerState) (τ : Typing) (s' : CompilerState) (τ' : Typing) :
    Prop where
  /-- Code is only added. -/
  size : s.size ≤ s'.size
  /-- Levels of code that was there stay. -/
  level : ∀ pc ≤ s.size, τ'.level pc = τ.level pc
  /-- What is owed stays. -/
  owed : τ'.owed = τ.owed
  /-- The scope depth stays. -/
  depth : s'.current.depth = s.current.depth
  /-- The loops stay. -/
  loops : s'.current.loops = s.current.loops
  /-- The locals stay. -/
  locals : shapes s'.current.locals = shapes s.current.locals
  /-- The functions around change in captures only. -/
  enclosing : List.Forall₂ Alike s.enclosing s'.enclosing

variable {s s' t : CompilerState} {τ τ' υ : Typing}

theorem KeepsScopes.refl (s : CompilerState) (τ : Typing) : KeepsScopes s τ s τ :=
  ⟨Nat.le_refl _, fun _ _ => rfl, rfl, rfl, rfl, rfl, forall₂_alike_refl _⟩

theorem KeepsScopes.trans (a : KeepsScopes s τ t υ) (b : KeepsScopes t υ s' τ') :
    KeepsScopes s τ s' τ' where
  size := Nat.le_trans a.size b.size
  level pc h := (b.level pc (Nat.le_trans h a.size)).trans (a.level pc h)
  owed := b.owed.trans a.owed
  depth := b.depth.trans a.depth
  loops := b.loops.trans a.loops
  locals := b.locals.trans a.locals
  enclosing := forall₂_alike_trans a.enclosing b.enclosing

/-- A run without code that changes captures only. -/
theorem KeepsScopes.of_alike (hc : Alike s.current s'.current)
    (he : List.Forall₂ Alike s.enclosing s'.enclosing) (τ : Typing) : KeepsScopes s τ s' τ :=
  ⟨Nat.le_of_eq (by rw [CompilerState.size, CompilerState.size, hc.chunk]), fun _ _ => rfl, rfl, hc.depth,
    hc.loops, hc.locals, he⟩

/-- A run that keeps scopes keeps how far the locals reach. -/
theorem KeepsScopes.reach (h : KeepsScopes s τ s' τ') :
    reach s'.current.locals = reach s.current.locals :=
  reach_congr h.locals

@[simp] theorem FunctionState.emit_chunk (f : FunctionState) (op : Op) (line : Nat) :
    (f.emit op line).chunk = f.chunk.emit op line := rfl

@[simp] theorem FunctionState.emit_locals (f : FunctionState) (op : Op) (line : Nat) :
    (f.emit op line).locals = f.locals := rfl

@[simp] theorem FunctionState.emit_depth (f : FunctionState) (op : Op) (line : Nat) :
    (f.emit op line).depth = f.depth := rfl

@[simp] theorem FunctionState.emit_loops (f : FunctionState) (op : Op) (line : Nat) :
    (f.emit op line).loops = f.loops := rfl

/-- The state after an instruction. -/
theorem size_emit (s : CompilerState) (op : Op) (line : Nat) :
    (s.withCurrent (s.current.emit op line)).size = s.size + 1 := by
  simp [CompilerState.size]

/-- An instruction without a promise keeps scopes, loops and promises. -/
theorem keepsScopes_append {exact : Bool} {L L' : Level} (h : At exact s.chunk τ L) (op : Op)
    (line : Nat) :
    KeepsScopes s τ (s.withCurrent (s.current.emit op line)) (τ.append s.size L' none) where
  size := by
    rw [size_emit]
    omega
  level _ hpc := Typing.append_level hpc
  owed := h.append_owed_none
  depth := rfl
  loops := rfl
  locals := rfl
  enclosing := forall₂_alike_refl _

/-- An instruction without a jump grows typed code and keeps the rest. -/
theorem typed_straight {exact : Bool} {L : Level} (hat : At exact s.chunk τ L) (op : Op)
    (L' : Level) (hs : op.Safe exact L)
    (hf : op.fallsThrough = true → (op.next s.size L).Flows exact L')
    (ht : op.jumpTarget? s.size = none) (line : Nat) :
    ∃ τ', At exact (s.withCurrent (s.current.emit op line)).chunk τ' L' ∧
      KeepsScopes s τ (s.withCurrent (s.current.emit op line)) τ' :=
  ⟨_, hat.appendStraight hs hf ht line, keepsScopes_append hat op line⟩

end ScriptEngine.Compile
