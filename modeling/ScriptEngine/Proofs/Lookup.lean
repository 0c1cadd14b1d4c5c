import ScriptEngine.Proofs.Hierarchy

/-!
# Finding a method without walking up

A class holds copies of the methods of its superclass, so that one look in its own table finds a
method. If classes are declared in order, that look finds what one would find on the way up: the
first class on the chain that has been given a method of that name itself, and the last one it was
given. What is found in a class never changes unless that class itself is given methods.
-/

namespace ScriptEngine

open Bytecode

/-- The class that an event is about. -/
def ClassEvent.subject : ClassEvent → Handle
  | .made c | .inherits c _ | .defines c _ _ => c

namespace State

variable {s t : State} {l : Ledger} {c : Handle} {log : List ClassEvent}

/-- Nothing is found if no class on the chain has been given a method of the name. -/
theorem not_finds_iff (hl : s.heap.Linked l) {o : ClassObject} (hc : s.class? c = some o)
    (name : Handle) :
    (∀ v, ¬ l.Finds name c v) ↔ ∀ a, s.Below c a → (l a).own.lookup name = none := by
  have hlink : ∀ {x o p}, s.class? x = some o → (l x).superclass = some p →
      s.superclass? x = some p := by
    intro x o p hx hp
    unfold superclass?
    rw [hx, Option.bind_some, ← hl.superclass hx, hp]
  constructor
  · rintro hnot a ⟨n, ha⟩
    induction n generalizing c o with
    | zero =>
      obtain rfl := Option.some.inj ha
      cases hown : (l c).own.lookup name with
      | none => rfl
      | some v => exact absurd (.own hown) (hnot v)
    | succ n ih =>
      obtain ⟨p, hp, ha⟩ := Option.bind_eq_some_iff.1 ha
      obtain ⟨k, hk, hkp⟩ := Option.bind_eq_some_iff.1 hp
      obtain ⟨q, hq⟩ := hl.live hk hkp
      refine ih hq (fun v hv => ?_) ha
      cases hown : (l c).own.lookup name with
      | none => exact hnot v (.inherited hown ((hl.superclass hk).trans hkp) hv)
      | some w => exact hnot w (.own hown)
  · intro hnone v hf
    induction hf generalizing o with
    | own h =>
      rw [hnone _ ⟨0, rfl⟩] at h
      cases h
    | inherited _ hp _ ih =>
      have hstep := hlink hc hp
      obtain ⟨q, hq⟩ := hl.live hc ((hl.superclass hc).symm.trans hp)
      refine ih hq fun a ⟨n, ha⟩ => hnone a ⟨n + 1, ?_⟩
      rw [ancestor?, hstep, Option.bind_some, ha]

/-- One look in a class finds what the way up finds. -/
theorem method?_iff (hl : s.heap.Follows l) {o : ClassObject} (hc : s.class? c = some o)
    {key : Key} (hk : Act.Names s key) (v : Value) :
    s.method? c key = some v ↔ l.Finds key.handle c v := by
  obtain ⟨m, hr, -, hm⟩ := hl.methods hc
  unfold method?
  rw [hc, ← hm, ← hr.get?, ← hk.key_eq]

end State

/-- Methods that are declared in order are found. -/
theorem kept_follows (l : Ledger) :
    Kept fun log s => l.Obeys Ledger.Orderly log → s.heap.Follows (l.after log) where
  neutral hi h hc ho := (h ho).mono (hc.lasts hi.toTidy).preserves
  turn hi h ht ho := by
    rw [Ledger.obeys_append] at ho
    rw [Ledger.after_append]
    exact ht.follows hi.toTidy (h ho.1) ho.2
  alike _ h ha ho := (h ho).mono ha.retains.preserves

/-- While classes are declared in order, their methods follow the ledger. -/
theorem State.Becomes.follows {l : Ledger} {log : List ClassEvent} {first s : State}
    (h : first.Becomes log s) (hi : first.heap.Interned) (hl : first.heap.Follows l)
    (ho : l.Obeys Ledger.Orderly log) : s.heap.Follows (l.after log) :=
  (kept_follows l).throughout h hi (fun _ => hl) ho

/-- A class that nothing is done to stays the same as long as it is there. -/
theorem kept_class (c : Handle) (o : ClassObject) :
    Kept fun log s => (∀ e ∈ log, e.subject ≠ c) → ∀ o', s.heap.class? c = some o' → o' = o where
  neutral hi h hc hne o' ho' := h hne o' ((hc.lasts hi.toTidy).preserves.old ho')
  turn {log s t event} hi h ht hne o' ho' := by
    have hbefore : ∀ e ∈ log, e.subject ≠ c := fun e he => hne e (List.mem_append_left _ he)
    refine h hbefore o' ?_
    cases event with
    | none => rwa [(ht.retains hi.toTidy).class?] at ho'
    | some e =>
      have hother : e.subject ≠ c := hne e (by simp)
      cases ht with
      | made text =>
        exact ((Heap.class?_made c hi.toTidy _).trans (if_neg (Ne.symm hother))).symm.trans ho'
      | inherits hc hp hb =>
        exact ((Heap.class?_mapClass _ c _ _ hc).trans (if_neg (Ne.symm hother))).symm.trans ho'
      | defines method hc hn =>
        exact ((Heap.class?_mapClass _ c _ _ hc).trans (if_neg (Ne.symm hother))).symm.trans ho'
  alike _ h ha hne o' ho' := h hne o' (ha.retains.preserves.old ho')

/-- If classes have been declared in order, then in all states of all runs, looking for a name in a
class finds the method that one finds on the way up from class to superclass, where each class is
looked at only for the methods it was given itself; and it finds none just in case no class on the
way has been given one. What is found in a class stays the same, whatever happens later, until
something is done to that class. -/
theorem Hosted.methods_found {settings : Settings} {log log' : List ClassEvent} {s : State}
    (h : Hosted (.create settings) log s) {name : String} {module : Bytecode.Module} {m : Machine}
    (hd : (Act.evalModule name module s).During log' m)
    (ho : (Core.ledger settings).Obeys Ledger.Orderly (log ++ log')) :
    let l := (Core.ledger settings).after (log ++ log')
    (∀ c o, m.state.class? c = some o → (l c).superclass = m.state.superclass? c ∧
      ∀ key, Act.Names m.state key →
        (∀ v, m.state.method? c key = some v ↔ l.Finds key.handle c v) ∧
        (m.state.method? c key = none ↔
          ∀ a, m.state.Below c a → (l a).own.lookup key.handle = none)) ∧
    ∀ log'' t, m.state.Becomes log'' t → ∀ c, (∀ e ∈ log'', e.subject ≠ c) →
      ∀ o o', m.state.class? c = some o → t.class? c = some o' →
        ∀ key, t.method? c key = m.state.method? c key := by
  intro l
  obtain ⟨hsteady, hbecomes⟩ := h.during hd
  have hfollows := hbecomes.follows (State.fresh_create settings).1.interned
    (State.follows_create settings).1 ho
  refine ⟨fun c o hc => ⟨?_, fun key hk => ?_⟩, fun log'' t ht c hne o o' hc hc' key => ?_⟩
  · unfold State.superclass?
    rw [hc, Option.bind_some]
    exact hfollows.superclass hc
  · have hfound := State.method?_iff hfollows hc hk
    refine ⟨hfound, ?_⟩
    rw [← State.not_finds_iff hfollows.toLinked hc, Option.eq_none_iff_forall_ne_some]
    exact forall_congr' fun v => not_congr (hfound v)
  · have hsame : o' = o := (kept_class c o).throughout ht hsteady.interned
      (fun _ k hk => Option.some.inj (hk.symm.trans hc)) hne o' hc'
    unfold State.method?
    rw [hc, hc', hsame]

/-- Both classes are declared in order. -/
theorem orderly_familyLog : (Core.ledger .default).Obeys Ledger.Orderly familyLog := by
  generalize Core.ledger .default = l
  simp [familyLog, Ledger.Obeys, Ledger.Orderly, Ledger.record, Ledger.set]

/-- The subclass has the method that its superclass was given. -/
theorem Hosted.methods_found_familyModule : ∃ m,
    (Act.evalModule Act.mainModule familyModule (.create .default)).During familyLog m ∧
      (Core.ledger .default).Obeys Ledger.Orderly familyLog ∧
      Act.Names m.state ⟨⟨146⟩, 4213039946⟩ ∧
      m.state.method? ⟨151⟩ ⟨⟨146⟩, 4213039946⟩ = some (.bool true) := by
  obtain ⟨m, hd, ⟨o, ho⟩, -, hkey, -⟩ := exists_machine_familyModule
  have hinterned := (Hosted.start.during hd).1.interned
  have hnames : Act.Names m.state ⟨⟨146⟩, 4213039946⟩ :=
    ⟨_, (hinterned.lookupKey.1 hkey).2, (hinterned.hash_lookupKey hkey).2.symm⟩
  obtain ⟨hfound, -⟩ := Hosted.methods_found .start hd orderly_familyLog
  refine ⟨m, hd, orderly_familyLog, hnames, (((hfound _ o ho).2 _ hnames).1 _).2 ?_⟩
  refine .inherited ?_ ?_ (.own (c := ⟨150⟩) ?_)
  all_goals
    generalize Core.ledger .default = l
    simp [familyLog, Ledger.after, Ledger.record, Ledger.set]

end ScriptEngine
