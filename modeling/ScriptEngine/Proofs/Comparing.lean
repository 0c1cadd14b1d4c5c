import ScriptEngine.Proofs.Agreement
import ScriptEngine.Proofs.Keying

/-!
# Equality and hash agree

A value that no script decides about is compared as what it stands for, and hashed as that. So
equality of such values is symmetric and transitive, it is reflexive where no NaN occurs, and equal
values hash the same, zeros of both signs and tuples of such values included. A comparison of
tuples needs one more nested call; where no more are allowed it raises, and has no result.
-/

namespace ScriptEngine

/-! ## Calls that are refused -/

section Refused

variable {α : Type} {s t u : State} {method : Option Value} {argc n : Nat} {a : α}

/-- An action without calls that raises does so with the frames it began with. -/
theorem Proc.Within.frames_raised {p : Proc α} (h : p.Within State.HostChange false s)
    (hp : p = .raised t) : t.frames = s.frames := by
  subst hp
  induction h with
  | refl => rfl
  | tail _ hstep ih => rw [hstep.frames, ih]

/-- With no frame above a depth there is none to unwind. -/
theorem State.unwind_self (s : State) : (s.unwind s.frames.size).2 = false := by
  simp [State.unwind, State.unwindFrames]

/-- An action stops the machine only where the heap is at its limit. -/
def Act.StopsAtLimit (x : Act α) : Prop := ∀ s f, x s = .fault f → f = .heapLimit

/-- What stops at the limit and goes on with what does, stops at the limit. -/
theorem Act.StopsAtLimit.bind {β : Type} {x : Act α} {f : α → Act β} (hx : x.StopsAtLimit)
    (hf : ∀ a, (f a).StopsAtLimit) : (x >>= f).StopsAtLimit := by
  intro s e he
  rw [Act.bind_run] at he
  cases hrun : x s with
  | done a u => exact hf a u e (by rwa [hrun] at he)
  | fault e' =>
    rw [hrun] at he
    cases he
    exact hx s _ hrun
  | raised u | call u method argc resume =>
    rw [hrun] at he
    cases he

/-- Reserving bytes stops at the limit or not at all. -/
theorem Act.stopsAtLimit_reserve (bytes : Nat) (pending : List Handle) :
    (reserve bytes pending).StopsAtLimit := by
  intro s f hf
  obtain hrun | hrun | hrun := Act.reserve_cases bytes pending s
  all_goals
    rw [hrun] at hf
    cases hf
  rfl

/-- Giving a value back does not stop. -/
theorem Act.stopsAtLimit_pure (a : α) : (pure a : Act α).StopsAtLimit := by
  rintro s f ⟨⟩

/-- Looking at the state does not stop. -/
theorem Act.stopsAtLimit_gets (f : State → α) : (gets f).StopsAtLimit := by
  rintro s f ⟨⟩

/-- Changing the state does not stop. -/
theorem Act.stopsAtLimit_modify (f : State → State) : (modify f).StopsAtLimit := by
  rintro s f ⟨⟩

/-- Changing the state and looking at it does not stop. -/
theorem Act.stopsAtLimit_modifyGet (f : State → State × α) : (modifyGet f).StopsAtLimit := by
  rintro s f ⟨⟩

/-- A raised exception is no stop. -/
theorem Act.stopsAtLimit_raise : (raise : Act α).StopsAtLimit := by
  rintro s f ⟨⟩

/-- Raising an exception takes room on the heap, and nothing else can go wrong. -/
theorem Act.stopsAtLimit_fail (c : CoreClass) (message : String) :
    (fail c message : Act α).StopsAtLimit := by
  unfold fail failWith replaceTop dropMany dropMany newString recordTrace alloc push
  repeat' first
    | with_reducible exact stopsAtLimit_pure _
    | with_reducible exact stopsAtLimit_gets _
    | with_reducible exact stopsAtLimit_modify _
    | with_reducible exact stopsAtLimit_modifyGet _
    | with_reducible exact stopsAtLimit_raise
    | with_reducible exact stopsAtLimit_reserve _ _
    | with_reducible refine StopsAtLimit.bind ?_ fun _ => ?_

/-- Where no more nested calls are allowed a call raises, unless the heap is at its limit. -/
theorem Machine.start_refused (method : Option Value) (hsize : argc + 1 ≤ s.stack.size)
    (hfull : s.settings.maxReentrant ≤ s.reentrant) :
    (∃ t, ∀ n, Machine.runStatus (n + 2) (Machine.start s method argc []) = .raised t) ∨
      ∀ n, Machine.runStatus (n + 2) (Machine.start s method argc []) = .fault .heapLimit := by
  have hwithin : Proc.Within State.HostChange false (Act.overflow s : Proc Control) s :=
    Act.within_overflow s
  unfold Machine.start
  rw [if_pos hsize]
  simp only [if_pos hfull, Machine.runStatus]
  rw [Machine.step, Machine.action]
  · cases hrun : (Act.overflow s : Proc Control) with
    | done c u => exact absurd hrun (Act.fail_ne_done _ _ c u)
    | fault f =>
      obtain rfl := Act.stopsAtLimit_fail _ _ s f hrun
      exact .inr fun n => rfl
    | call u method argc resume =>
      rw [hrun] at hwithin
      cases hwithin.1
    | raised u =>
      have hunwind : (u.unwind s.frames.size).2 = false := by
        rw [← hwithin.frames_raised hrun]
        exact u.unwind_self
      rw [Machine.absorb]
      generalize u.unwind s.frames.size = r at hunwind
      obtain ⟨u, found⟩ := r
      cases hunwind
      -- the refused call ends in one more step
      exact .inl ⟨_, fun n => by cases n <;> rfl⟩
  · rintro _ ⟨⟩

/-- An action that calls where no call is allowed raises, unless it handles that or the heap is at
its limit. -/
theorem Proc.finish_refused (method : Option Value) (hsize : argc + 1 ≤ s.stack.size)
    (hfull : s.settings.maxReentrant ≤ s.reentrant) {resume : Bool → State → Proc α}
    (hresume : ∀ u, resume false u = .raised u) :
    (∃ t, ∀ n, (Proc.call s method argc resume).finish (n + 2) = .raised t) ∨
      ∀ n, (Proc.call s method argc resume).finish (n + 2) = .fault .heapLimit := by
  obtain ⟨t, ht⟩ | hf := Machine.start_refused method hsize hfull
  · refine .inl ⟨t, fun n => ?_⟩
    simp only [Proc.finish, ht, hresume]
  · refine .inr fun n => ?_
    rw [Proc.finish, hf]

/-- So it has no result. -/
theorem Proc.finish_refused_ne (hsize : argc + 1 ≤ s.stack.size)
    (hfull : s.settings.maxReentrant ≤ s.reentrant) {resume : Bool → State → Proc α}
    (hresume : ∀ u, resume false u = .raised u) :
    (Proc.call s method argc resume).finish n ≠ .done a t := by
  intro hdone
  have hmore := Proc.finish_add 2 (Proc.call s method argc resume) (n := n) (by simp [hdone])
  rw [hdone] at hmore
  obtain ⟨u, hu⟩ | hf := Proc.finish_refused method hsize hfull hresume
  · rw [hu] at hmore
    cases hmore
  · rw [hf] at hmore
    cases hmore

end Refused

/-! ## What equality and hash give -/

namespace Act

variable {s t : State} {a b v : Value} {k k' : TableKey} {n : Nat} {r : Bool}

/-- An action that ends so gives nothing else. -/
theorem eq_of_ends {α : Type} {x : Act α} {r r' : α} {u : State} (h : (x s).Ends r t)
    (hrun : x.run n s = .done r' u) : r' = r ∧ u = t := by
  obtain ⟨n', hn'⟩ := h.finish
  have hsame := Act.run_unique (x := x) hrun (hn' 0) nofun nofun
  cases hsame
  exact ⟨rfl, rfl⟩

/-- Tuples are compared by their own method. -/
theorem ownMethod_tuple (hf : s.Furnished) (hi : s.heap.Interned) {name : Special}
    (hname : name = .eq ∨ name = .hash) {h : Handle} {items : Array Value}
    (hget : s.heap.get? h = some (.tuple items)) :
    ∃ m, ownMethod (.object h) name s = .done (some m) s := by
  have hclass : s.classOf? (.object h) = some (s.coreClass .tuple) := by
    simp [State.classOf?, hget]
  have hname' := hname
  obtain rfl | rfl := hname
  · obtain ⟨y, o, hm, hy, ho⟩ := hf.own hi (c := .tuple) rfl rfl hf.key_eq
    exact ⟨_, State.ownMethod_of_native hf hi hname' hclass hm hy (by simp [ho.function])
      (by simp [ho.function])⟩
  · obtain ⟨y, o, hm, hy, ho⟩ := hf.own hi (c := .tuple) rfl rfl hf.key_hash
    exact ⟨_, State.ownMethod_of_native hf hi hname' hclass hm hy (by simp [ho.function])
      (by simp [ho.function])⟩

/-- An object with an equality of its own is compared by a call. -/
theorem equal_eq_call {h : Handle} {o : Object} {m : Value} (hget : s.heap.get? h = some o)
    (ho : ∀ text, o ≠ .string text) (hown : ownMethod (.object h) .eq s = .done (some m) s) :
    equal (.object h) b s =
      .call { s with stack := s.stack.push (.object h) ++ #[b] } (some m) 1 fun ok u =>
        if ok then .done u.top.isTruthy u.drop else .raised u := by
  have hobject : object h s = .done o s := require_run _ _ hget
  unfold equal
  simp only [bind_run, hobject, Proc.bind_done]
  cases o with
  | string text => exact absurd rfl (ho text)
  | _ =>
    simp only [bind_run, hown, Proc.bind_done, ← Array.push_eq_append]
    refine congrArg (Proc.call _ _ _) (funext fun ok => ?_)
    cases ok <;> rfl

/-- An object with a hash of its own is hashed by a call. -/
theorem hash_eq_call {h : Handle} {o : Object} {m : Value} (hget : s.heap.get? h = some o)
    (ho : ∀ text, o ≠ .string text) (hown : ownMethod (.object h) .hash s = .done (some m) s) :
    ∃ resume, hash (.object h) s = .call (s.push (.object h)) (some m) 0 resume ∧
      ∀ u, resume false u = .raised u := by
  have hobject : object h s = .done o s := require_run _ _ hget
  unfold hash
  simp only [bind_run, hobject, Proc.bind_done]
  cases o with
  | string text => exact absurd rfl (ho text)
  | _ =>
    simp only [bind_run, hown, Proc.bind_done]
    exact ⟨_, rfl, fun _ => rfl⟩

/-- What equality gives, if it gives a result, is whether the values stand for equal things. -/
theorem equal_run (hf : s.Furnished) (hi : s.heap.Interned) (ha : s.Reads a k)
    (hb : s.Reads b k') (hrun : (equal a b).run n s = .done r t) :
    r = k.equals k' ∧ t = s := by
  by_cases hroom : (∃ items, k = .tuple items) → s.reentrant < s.settings.maxReentrant
  · exact eq_of_ends (ends_equal hf hi hroom ha s (.refl s) b k' hb) hrun
  · rw [Classical.not_imp, Nat.not_lt] at hroom
    obtain ⟨⟨keys, rfl⟩, hfull⟩ := hroom
    cases ha with
    | @tuple h items _ hget =>
      obtain ⟨m, hown⟩ := ownMethod_tuple hf hi (.inl rfl) hget
      rw [run, equal_eq_call hget nofun hown] at hrun
      refine (Proc.finish_refused_ne ?_ ?_ (fun _ => rfl) hrun).elim
      · simp
      · exact hfull

/-- What the hash gives, if it gives a result, is the hash of what the value stands for. -/
theorem hash_run (hf : s.Furnished) (hi : s.heap.Interned) (hv : s.Reads v k) {r : UInt64}
    (hrun : (hash v).run n s = .done r t) : r = k.hash ∧ t = s := by
  by_cases hroom : (∃ items, k = .tuple items) → s.reentrant < s.settings.maxReentrant
  · exact eq_of_ends (ends_hash hf hi hroom hv s (.refl s)) hrun
  · rw [Classical.not_imp, Nat.not_lt] at hroom
    obtain ⟨⟨keys, rfl⟩, hfull⟩ := hroom
    cases hv with
    | @tuple h items _ hget =>
      obtain ⟨m, hown⟩ := ownMethod_tuple hf hi (.inr rfl) hget
      obtain ⟨resume, hcall, hresume⟩ := hash_eq_call hget nofun hown
      rw [run, hcall] at hrun
      refine (Proc.finish_refused_ne ?_ ?_ hresume hrun).elim
      · simp [State.push]
      · exact hfull

/-- An action gives a result on a state, without raising. -/
def Gives {α : Type} (x : Act α) (s : State) (r : α) : Prop := ∃ n t, x.run n s = .done r t

/-- An action that ends gives its result. -/
theorem gives_of_ends {α : Type} {x : Act α} {r : α} (h : (x s).Ends r t) : x.Gives s r := by
  obtain ⟨n, hn⟩ := h.finish
  exact ⟨n, t, hn 0⟩

/-- A comparison that gives a result gives the equality of what the values are read as. -/
theorem Gives.equal (h : (equal a b).Gives s r) (hf : s.Furnished) (hi : s.heap.Interned)
    (ha : s.Reads a k) (hb : s.Reads b k') : r = k.equals k' := by
  obtain ⟨n, t, hrun⟩ := h
  exact (equal_run hf hi ha hb hrun).1

/-- A hash that is given is the hash of what the value is read as. -/
theorem Gives.hash {r : UInt64} (h : (hash v).Gives s r) (hf : s.Furnished)
    (hi : s.heap.Interned) (hv : s.Reads v k) : r = k.hash := by
  obtain ⟨n, t, hrun⟩ := h
  exact (hash_run hf hi hv hrun).1

end Act

/-- In all states of all runs in which nothing has been done to core classes: on numbers, booleans,
null, strings, objects compared by identity, and tuples of these to any depth, equality is symmetric
and transitive, reflexive but for NaN, and equal values hash the same. Where one more nested call
is allowed there always are results. -/
theorem Hosted.equality_agrees_with_hash {settings : Settings} {log log' : List ClassEvent}
    {s : State} (h : Hosted (.create settings) log s) {name : String} {module : Bytecode.Module}
    {m : Machine} (hd : (Act.evalModule name module s).During log' m)
    (hcore : ∀ e ∈ log ++ log', e.subject ∉ m.state.core.classes)
    {a b c : Value} {k l j : TableKey} (ha : m.state.Reads a k) (hb : m.state.Reads b l)
    (hc : m.state.Reads c j) :
    (∀ r r', (Act.equal a b).Gives m.state r → (Act.equal b a).Gives m.state r' → r = r') ∧
    (∀ r, (Act.equal a b).Gives m.state true → (Act.equal b c).Gives m.state true →
      (Act.equal a c).Gives m.state r → r = true) ∧
    (∀ r, (Act.equal a a).Gives m.state r → r = !k.hasNaN) ∧
    (∀ x y, (Act.equal a b).Gives m.state true → (Act.hash a).Gives m.state x →
      (Act.hash b).Gives m.state y → x = y) ∧
    (m.state.reentrant < m.state.settings.maxReentrant →
      (Act.equal a b).Gives m.state (k.equals l) ∧ (Act.hash a).Gives m.state k.hash) := by
  have hi := (h.during hd).1.interned
  have hf := h.furnished hd hcore
  refine ⟨fun r r' hab hba => ?_, fun r hab hbc hac => ?_, fun r haa => ?_, fun x y hab hx hy => ?_,
    fun hroom => ⟨?_, ?_⟩⟩
  · rw [hab.equal hf hi ha hb, hba.equal hf hi hb ha, TableKey.equals_comm]
  · rw [hac.equal hf hi ha hc]
    exact TableKey.equals_trans (hab.equal hf hi ha hb).symm (hbc.equal hf hi hb hc).symm
  · rw [haa.equal hf hi ha ha, TableKey.equals_self]
  · rw [hx.hash hf hi ha, hy.hash hf hi hb]
    exact TableKey.hash_eq_of_equals (hab.equal hf hi ha hb).symm
  · exact Act.gives_of_ends (Act.ends_equal hf hi (fun _ => hroom) ha _ (.refl _) b l hb)
  · exact Act.gives_of_ends (Act.ends_hash hf hi (fun _ => hroom) ha _ (.refl _))

/-- Top-level code that makes a tuple of positive zero and one of negative zero. -/
def zerosModule : Bytecode.Module where
  file := ""
  main :=
    { name := ""
      arity := 0
      defaults := #[]
      vararg := false
      upvalueCount := 0
      chunk :=
        { code := #[.constant 0, .newTuple 1, .constant 1, .newTuple 1, .equal, .return]
          constants := #[.number .zero, .number ⟨0x8000000000000000⟩]
          lines := ⟨#[⟨1, 6⟩]⟩ } }

/-- Top-level code that puts two lists into each other. -/
def entwinedModule : Bytecode.Module where
  file := ""
  main :=
    { name := ""
      arity := 0
      defaults := #[]
      vararg := false
      upvalueCount := 0
      chunk :=
        { code := #[.newList 0, .newList 0, .getLocal 1, .appendList, .getLocal 1, .getLocal 2,
            .appendList, .return]
          constants := #[]
          lines := ⟨#[⟨1, 8⟩]⟩ } }

/-- What is on the stack when the two tuples have been made, and when the two lists contain each
other. The runs are computed together because both begin with the same core module. -/
theorem traces_computed :
    ((Act.evalModule Act.mainModule zerosModule (.create .default)).trace 5).map
        (fun r => (r.1, decide (r.2.state.reentrant < r.2.state.settings.maxReentrant),
          (r.2.state.stack.toList.drop 1).map r.2.state.tuple?)) =
        some ([], true, [some #[.number .zero], some #[.number ⟨0x8000000000000000⟩]]) ∧
      ((Act.evalModule Act.mainModule entwinedModule (.create .default)).trace 8).map
        (fun r => (r.1, decide (r.2.state.reentrant < r.2.state.settings.maxReentrant ∧
          r.2.state.list? (r.2.state.stack.getD 1 .null) = some #[r.2.state.stack.getD 2 .null] ∧
          r.2.state.list? (r.2.state.stack.getD 2 .null) = some #[r.2.state.stack.getD 1 .null] ∧
          (r.2.state.stack.getD 1 .null).same (r.2.state.stack.getD 2 .null) = false))) =
        some ([], true) := by
  decide +kernel

/-- The two tuples are equal in both orders and hash the same. -/
theorem Hosted.equality_agrees_with_hash_zerosModule : ∃ m a b,
    (Act.evalModule Act.mainModule zerosModule (.create .default)).During [] m ∧
      m.state.tuple? a = some #[.number .zero] ∧
      m.state.tuple? b = some #[.number ⟨0x8000000000000000⟩] ∧
      (Act.equal a b).Gives m.state true ∧ (Act.equal b a).Gives m.state true ∧
      ∃ x, (Act.hash a).Gives m.state x ∧ (Act.hash b).Gives m.state x := by
  obtain ⟨⟨log, m⟩, hm, hshown⟩ := Option.map_eq_some_iff.1 traces_computed.1
  simp only [Prod.mk.injEq, decide_eq_true_eq] at hshown
  obtain ⟨rfl, hroom, htuples⟩ := hshown
  have hd := Proc.during_of_trace hm
  obtain ⟨a, rest, -, ha, hrest⟩ := List.map_eq_cons_iff.1 htuples
  obtain ⟨b, rest, -, hb, -⟩ := List.map_eq_cons_iff.1 hrest
  have hreads : ∀ v n, n.canonical = .zero → m.state.tuple? v = some #[.number n] →
      m.state.Reads v (.tuple [.number .zero]) := by
    rintro v n hn hv
    obtain ⟨x, rfl, hget⟩ := State.get?_of_tuple? hv
    exact .tuple hget rfl (by simpa [hn] using State.Reads.number (s := m.state) n)
  have hboth : ∀ v w, m.state.Reads v (.tuple [.number .zero]) →
      m.state.Reads w (.tuple [.number .zero]) → _ := fun v w hv hw =>
    (Hosted.equality_agrees_with_hash .start hd (by simp) hv hw hv).2.2.2.2 hroom
  have ha' := hreads a _ (by decide) ha
  have hb' := hreads b _ (by decide) hb
  obtain ⟨hab, hx⟩ := hboth a b ha' hb'
  obtain ⟨hba, hy⟩ := hboth b a hb' ha'
  exact ⟨m, a, b, hd, ha, hb, hab, hba, _, hx, hy⟩

end ScriptEngine
