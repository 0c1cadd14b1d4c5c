import ScriptEngine.Proofs.CoreLedger

/-!
# Chains of superclasses end

A class that inherits when it is made cannot be on the chain of its superclass. But a class is bound
to its name before its superclass is computed, so that a script may have it inherit from itself or
from a class that inherits from it. As long as no class does, every chain of superclasses ends, after
no more classes than the heap has slots, so that the question whether a value is an instance of a
class is always answered, namely by whether the class is on the chain of its own.
-/

namespace ScriptEngine

open Bytecode

namespace State

/-- The class that a class inherits from. -/
def superclass? (s : State) (c : Handle) : Option Handle := (s.class? c).bind (·.superclass)

/-- The class so many steps up the chain. -/
def ancestor? (s : State) : Nat → Handle → Option Handle
  | 0, c => some c
  | n + 1, c => (s.superclass? c).bind (s.ancestor? n)

/-- A class inherits from another one, directly or not, or is the same. -/
def Below (s : State) (c a : Handle) : Prop := ∃ n, s.ancestor? n c = some a

/-- Every chain of superclasses ends. -/
def Grounded (s : State) : Prop := ∀ c, Acc (fun p c => s.superclass? c = some p) c

variable {s : State} {c a : Handle}

/-- Ancestors of an ancestor are ancestors further up. -/
theorem ancestor?_add (s : State) (n k : Nat) (c : Handle) :
    s.ancestor? (n + k) c = (s.ancestor? n c).bind (s.ancestor? k) := by
  induction n generalizing c with
  | zero => rw [Nat.zero_add, ancestor?, Option.bind_some]
  | succ n ih =>
    rw [Nat.succ_add, ancestor?, ancestor?]
    cases s.superclass? c with
    | none => rfl
    | some p => exact ih p

/-- A chain reaches a class within some steps if and only if it is an ancestor that few steps up. -/
theorem chainReaches_iff {n : Nat} :
    s.chainReaches a n c = some true ↔ ∃ k ≤ n, s.ancestor? k c = some a := by
  induction n generalizing c with
  | zero =>
    rw [chainReaches]
    constructor
    · intro h
      split at h
      · next heq => exact ⟨0, Nat.le_refl 0, congrArg some heq⟩
      · cases h
    · rintro ⟨k, hk, ha⟩
      obtain rfl := Nat.le_zero.1 hk
      exact if_pos (Option.some.inj ha)
  | succ n ih =>
    have hstep : s.chainReaches a (n + 1) c = some true ↔
        c = a ∨ ∃ p, s.superclass? c = some p ∧ s.chainReaches a n p = some true := by
      rw [chainReaches]
      unfold superclass?
      split
      · next heq => simp [heq]
      · next hne => cases (s.class? c).bind (·.superclass) <;> simp [hne]
    rw [hstep]
    constructor
    · rintro (rfl | ⟨p, hp, hreach⟩)
      · exact ⟨0, Nat.zero_le _, rfl⟩
      · obtain ⟨k, hk, ha⟩ := ih.1 hreach
        exact ⟨k + 1, Nat.succ_le_succ hk, by rw [ancestor?, hp, Option.bind_some, ha]⟩
    · rintro ⟨k, hk, ha⟩
      cases k with
      | zero => exact .inl (Option.some.inj ha)
      | succ k =>
        obtain ⟨p, hp, ha⟩ := Option.bind_eq_some_iff.1 ha
        exact .inr ⟨p, hp, ih.2 ⟨k, Nat.le_of_succ_le_succ hk, ha⟩⟩

/-- Within as many steps as it takes to come to the end of a chain there is an answer. -/
theorem isSome_chainReaches {n : Nat} (h : s.ancestor? n c = none) (a : Handle) :
    (s.chainReaches a n c).isSome := by
  induction n generalizing c with
  | zero => cases h
  | succ n ih =>
    rw [ancestor?] at h
    unfold superclass? at h
    rw [chainReaches]
    split
    · rfl
    · cases hp : (s.class? c).bind (·.superclass) with
      | none => rfl
      | some p =>
        rw [hp, Option.bind_some] at h
        exact ih h

/-- No class is above itself. -/
theorem Grounded.ne (h : s.Grounded) (n : Nat) (c : Handle) : s.ancestor? (n + 1) c ≠ some c := by
  induction h c generalizing n with
  | intro c _ ih =>
    intro hloop
    obtain ⟨p, hp, hn⟩ := Option.bind_eq_some_iff.1 hloop
    refine ih p hp n ?_
    rw [ancestor?_add, hn, Option.bind_some, ancestor?, hp]
    rfl

/-- Classes on a chain are different ones, and each has a slot of the heap. -/
theorem Grounded.le_size (h : s.Grounded) {n : Nat} (hn : s.ancestor? n c = some a) :
    n ≤ s.heap.cells.size := by
  have hstep : ∀ i : Fin n, ∃ x, s.ancestor? i c = some x ∧ x.index < s.heap.cells.size := by
    intro i
    have hsplit : s.ancestor? (i + (n - i)) c = some a := by
      rwa [Nat.add_sub_cancel' (Nat.le_of_lt i.isLt)]
    rw [ancestor?_add] at hsplit
    obtain ⟨x, hx, hrest⟩ := Option.bind_eq_some_iff.1 hsplit
    refine ⟨x, hx, ?_⟩
    obtain ⟨k, hk⟩ : ∃ k, n - i = k + 1 := ⟨n - i - 1, by omega⟩
    rw [hk] at hrest
    obtain ⟨p, hp, -⟩ := Option.bind_eq_some_iff.1 hrest
    obtain ⟨o, ho, -⟩ := Option.bind_eq_some_iff.1 hp
    obtain ⟨cell, hcell⟩ := Heap.isLive_iff.1 (Heap.isLive_of_get? (Heap.class?_eq_some.1 ho))
    exact (Array.getElem?_eq_some_iff.1 hcell).1
  choose x hx hlt using hstep
  have hlater : ∀ i j : Fin n, i < j → x i ≠ x j := by
    intro i j hij heq
    obtain ⟨k, hk⟩ : ∃ k, (j : Nat) = i + (k + 1) := ⟨j - i - 1, by omega⟩
    have hj := hx j
    rw [hk, ancestor?_add, hx i, Option.bind_some] at hj
    exact h.ne k (x i) (heq ▸ hj)
  have hinj : Function.Injective fun i : Fin n =>
      (⟨(x i).index, hlt i⟩ : Fin s.heap.cells.size) := by
    intro i j hij
    have heq : x i = x j := by
      have := congrArg Fin.val hij
      cases hi : x i
      cases hj : x j
      simp_all
    obtain hlt | heq' | hgt := lt_trichotomy i j
    · exact absurd heq (hlater i j hlt)
    · exact heq'
    · exact absurd heq.symm (hlater j i hgt)
  simpa using Fintype.card_le_of_injective _ hinj

/-- A bound on the way up that is no less than the heap's size makes no difference. -/
theorem Grounded.chainReaches_iff (h : s.Grounded) {n : Nat} (hn : s.heap.cells.size ≤ n) :
    s.chainReaches a n c = some true ↔ s.Below c a := by
  rw [State.chainReaches_iff]
  constructor
  · rintro ⟨k, -, ha⟩
    exact ⟨k, ha⟩
  · rintro ⟨k, ha⟩
    exact ⟨k, (h.le_size ha).trans hn, ha⟩

/-- Whether a class inherits from another one is always found out. -/
theorem Grounded.isSome_isSubclass (h : s.Grounded) (c a : Handle) : (s.isSubclass c a).isSome := by
  refine isSome_chainReaches ?_ a
  rw [Option.eq_none_iff_forall_ne_some]
  intro x hx
  exact Nat.not_succ_le_self _ (h.le_size hx)

/-- The way up from a class ends at a class without a superclass. -/
theorem Grounded.exists_root (h : s.Grounded) {l : Ledger} (hl : s.heap.Linked l)
    {o : ClassObject} (hc : s.class? c = some o) :
    ∃ n root r, s.ancestor? n c = some root ∧ s.class? root = some r ∧ r.superclass = none := by
  induction h c generalizing o with
  | intro c _ ih =>
    cases hp : o.superclass with
    | none => exact ⟨0, c, o, rfl, hc, hp⟩
    | some p =>
      obtain ⟨q, hq⟩ := hl.live hc hp
      have hstep : s.superclass? c = some p := by
        unfold superclass?
        rw [hc, Option.bind_some, hp]
      obtain ⟨n, root, r, hn, hroot⟩ := ih p hstep hq
      exact ⟨n + 1, root, r, by rw [ancestor?, hstep, Option.bind_some, hn], hroot⟩

/-- Chains in a heap are those of its ledger. -/
theorem grounded_of_ledger {l : Ledger} (hl : s.heap.Linked l) (h : l.Grounded) : s.Grounded :=
  fun c => Subrelation.accessible (fun {p c} hp => by
    obtain ⟨o, ho, hs⟩ := Option.bind_eq_some_iff.1 hp
    exact (hl.superclass ho).trans hs) (h c)

end State

/-- Superclasses are those that have been declared. -/
theorem kept_linked (l : Ledger) : Kept fun log s => s.heap.Linked (l.after log) where
  neutral hi h hc := h.mono (hc.lasts hi.toTidy).preserves
  turn hi h ht := by
    rw [Ledger.after_append]
    exact ht.linked hi.toTidy h
  alike _ h ha := h.mono ha.retains.preserves

/-- While classes are made and changed, the chains follow the ledger. -/
theorem State.Becomes.linked {l : Ledger} {log : List ClassEvent} {first s : State}
    (h : first.Becomes log s) (hi : first.heap.Interned) (hl : first.heap.Linked l) :
    s.heap.Linked (l.after log) := (kept_linked l).throughout h hi hl

/-- If no class has been made to inherit from itself or from a class below it, then in all states of
all runs, every class is below a class without a superclass, reached in no more steps than the heap
has slots; whether a class or a value inherits from a class is found out within so many steps and
always answered. -/
theorem Hosted.hierarchy_ends {settings : Settings} {log log' : List ClassEvent} {s : State}
    (h : Hosted (.create settings) log s) {name : String} {module : Bytecode.Module} {m : Machine}
    (hd : (Act.evalModule name module s).During log' m)
    (hr : (Core.ledger settings).Obeys Ledger.Rooted (log ++ log')) :
    (∀ c o, m.state.class? c = some o → ∃ n root r, n ≤ m.state.heap.cells.size ∧
      m.state.ancestor? n c = some root ∧ m.state.class? root = some r ∧ r.superclass = none) ∧
    (∀ c a n, m.state.heap.cells.size ≤ n →
      (m.state.chainReaches a n c = some true ↔ m.state.Below c a)) ∧
    (∀ c a, (m.state.isSubclass c a).isSome ∧
      (m.state.isSubclass c a = some true ↔ m.state.Below c a)) ∧
    ∀ v a, (m.state.isInstance v a).isSome ∧ (m.state.isInstance v a = some true ↔
      ∃ c, m.state.classOf? v = some c ∧ m.state.Below c a) := by
  obtain ⟨hfollows, hgrounded⟩ := State.follows_create settings
  have hlinked := (h.during hd).2.linked (State.fresh_create settings).1.interned
    hfollows.toLinked
  have hends := State.grounded_of_ledger hlinked (hgrounded.after hr)
  have hsubclass : ∀ c a, (m.state.isSubclass c a).isSome ∧
      (m.state.isSubclass c a = some true ↔ m.state.Below c a) :=
    fun c a => ⟨hends.isSome_isSubclass c a, hends.chainReaches_iff (Nat.le_succ _)⟩
  refine ⟨fun c o hc => ?_, fun c a n => hends.chainReaches_iff, hsubclass, fun v a => ?_⟩
  · obtain ⟨n, root, r, hn, hroot⟩ := hends.exists_root hlinked hc
    exact ⟨n, root, r, hends.le_size hn, hn, hroot⟩
  · unfold State.isInstance
    cases m.state.classOf? v with
    | none => simp
    | some c => simpa using hsubclass c a

/-! ## A class with a subclass -/

/-- Top-level code that declares a class with a method, and a class that inherits from it. -/
def familyModule : Bytecode.Module where
  file := ""
  main :=
    { name := ""
      arity := 0
      defaults := #[]
      vararg := false
      upvalueCount := 0
      chunk :=
        { code := #[.getGlobal 0, .newClass 1, .subclass, .true, .defMethod 2, .newClass 3, .subclass,
            .pop, .pop, .pop, .null, .return]
          constants := #[.string "Object", .string "Parent", .string "greet", .string "Child"]
          lines := ⟨#[⟨1, 12⟩]⟩ } }

/-- What it does to classes: the first one inherits from the class of all objects. -/
def familyLog : List ClassEvent :=
  [.made ⟨150⟩, .inherits ⟨150⟩ ⟨45⟩, .defines ⟨150⟩ ⟨⟨146⟩, 4213039946⟩ (.bool true), .made ⟨151⟩,
    .inherits ⟨151⟩ ⟨150⟩]

/-- Eight steps on, all that is done. -/
theorem exists_machine_familyModule : ∃ m,
    (Act.evalModule Act.mainModule familyModule (.create .default)).During familyLog m ∧
      (∃ o, m.state.class? ⟨151⟩ = some o) ∧ m.state.ancestor? 2 ⟨151⟩ = some ⟨45⟩ ∧
      m.state.heap.lookupKey "greet" = some ⟨⟨146⟩, 4213039946⟩ ∧
      ∃ o, m.state.class? ⟨45⟩ = some o ∧ o.superclass.isNone = true := by
  have hrun :
      ((Act.evalModule Act.mainModule familyModule (.create .default)).trace 8).map
        (fun r => (r.1, ((r.2.state.class? ⟨151⟩).isSome,
          (r.2.state.class? ⟨45⟩).any (·.superclass.isNone)), r.2.state.ancestor? 2 ⟨151⟩,
          r.2.state.heap.lookupKey "greet")) =
        some (familyLog, (true, true), some ⟨45⟩, some ⟨⟨146⟩, 4213039946⟩) := by
    decide +kernel
  obtain ⟨⟨log, m⟩, hm, hshown⟩ := Option.map_eq_some_iff.1 hrun
  simp only [Prod.mk.injEq] at hshown
  obtain ⟨rfl, ⟨hclass, hobject⟩, hancestor, hkey⟩ := hshown
  exact ⟨m, Proc.during_of_trace hm, Option.isSome_iff_exists.1 hclass, hancestor, hkey,
    (Option.any_eq_true _ _).1 hobject⟩

/-- Neither class inherits from one below it, if the class of all objects has no superclass. -/
theorem rooted_familyLog {l : Ledger} (hobject : (l.after familyLog ⟨45⟩).superclass = none) :
    l.Obeys Ledger.Rooted familyLog := by
  refine ⟨trivial, ?_, trivial, trivial, ?_, trivial⟩
  · exact Ledger.not_below_root hobject (by decide)
  · refine Ledger.not_below_step (q := ⟨45⟩) ?_ (by decide) (Ledger.not_below_root hobject ?_)
    · simp [Ledger.record, Ledger.set]
    · decide

theorem Hosted.hierarchy_ends_familyModule : ∃ m,
    (Act.evalModule Act.mainModule familyModule (.create .default)).During familyLog m ∧
      (Core.ledger .default).Obeys Ledger.Rooted familyLog ∧
      (∃ o, m.state.class? ⟨151⟩ = some o) ∧ m.state.isSubclass ⟨151⟩ ⟨45⟩ = some true ∧
      ∃ n root r, n ≤ m.state.heap.cells.size ∧ m.state.ancestor? n ⟨151⟩ = some root ∧
        m.state.class? root = some r ∧ r.superclass = none := by
  obtain ⟨m, hd, ⟨o, ho⟩, hancestor, -, object, hobject, hroot⟩ := exists_machine_familyModule
  have hlinked : m.state.heap.Linked ((Core.ledger .default).after familyLog) :=
    (Hosted.start.during hd).2.linked (State.fresh_create .default).1.interned
      (State.follows_create .default).1.toLinked
  have hrooted : (Core.ledger .default).Obeys Ledger.Rooted familyLog := by
    refine rooted_familyLog ?_
    rw [hlinked.superclass hobject, Option.isNone_iff_eq_none.1 hroot]
  obtain ⟨hends, -, hsubclass, -⟩ := Hosted.hierarchy_ends .start hd hrooted
  exact ⟨m, hd, hrooted, ⟨o, ho⟩, (hsubclass _ _).2.2 ⟨2, hancestor⟩, hends _ o ho⟩

end ScriptEngine
