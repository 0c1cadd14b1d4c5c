import ScriptEngine.Proofs.Comparing

/-!
# Comparisons that end

Two lists, and two tuples, are compared element by element, and those elements in the same way, so a
comparison descends from one pair of values to others. Lists may hold each other, and no limit stands
against that: methods of the core module have no frames of their own, and calls of them count
towards no nesting. A comparison ends just in case its descent does. It never ends, for example, for
two lists each of which holds only the other.
-/

namespace ScriptEngine

/-! ## Running on and on -/

namespace Machine

/-- A machine that always gets on to another status of the same kind never ends. -/
theorem unfinished_of_progress {P : Status → Prop}
    (hzero : ∀ st, P st → runStatus 0 st = .unfinished)
    (hnext : ∀ st, P st → ∃ st' n, P st' ∧ ∀ k, runStatus (n + 1 + k) st = runStatus k st')
    {st : Status} (h : P st) (n : Nat) : runStatus n st = .unfinished := by
  induction n using Nat.strongRecOn generalizing st with
  | ind n ih =>
    obtain ⟨st', cost, hst', hcost⟩ := hnext st h
    by_cases hle : cost + 1 ≤ n
    · rw [← Nat.add_sub_of_le hle, hcost]
      exact ih _ (by omega) hst'
    · -- had it ended earlier, it would have ended the same way at the next status
      by_contra hended
      have hmore := runStatus_add (cost + 1 - n) hended
      rw [Nat.add_sub_of_le (by omega), ← Nat.add_zero (cost + 1), hcost, hzero st' hst'] at hmore
      exact hended hmore.symm

end Machine

/-! ## What a comparison descends to -/

namespace State

variable {s u : State} {a b v : Value}

/-- A state beside another has the same lists. -/
theorem Beside.list? (h : s.Beside u) (v : Value) : u.list? v = s.list? v := by
  unfold State.list?
  rw [h.heap]

/-- A state beside another has the same tuples. -/
theorem Beside.tuple? (h : s.Beside u) (v : Value) : u.tuple? v = s.tuple? v := by
  unfold State.tuple?
  rw [h.heap]

/-- The elements to be compared in turn: those of two different lists, or of two tuples. -/
def elements? (s : State) (a b : Value) : Option (Array Value × Array Value) :=
  match s.list? a, s.list? b with
  | some x, some y => if a.same b then none else some (x, y)
  | _, _ =>
    match s.tuple? a, s.tuple? b with
    | some x, some y => some (x, y)
    | _, _ => none

/-- A state beside another compares the same elements for two values. -/
theorem Beside.elements? (h : s.Beside u) (a b : Value) :
    u.elements? a b = s.elements? a b := by
  unfold State.elements?
  rw [h.list?, h.list?, h.tuple?, h.tuple?]

/-- Equality finds a result, whatever else is on the stack. -/
def Finds (s : State) (a b : Value) (r : Bool) : Prop :=
  ∀ u, s.Beside u → (Act.equal a b u).Ends r u

/-- Comparing a pair of values comes to comparing another pair: they stand at the same position of
two sequences of the same length, and all elements before them are equal. -/
inductive Descends (s : State) : Value × Value → Value × Value → Prop
  | element {a b a' b' : Value} {x y : Array Value} {i : Nat} (hxy : s.elements? a b = some (x, y))
    (hsize : x.size = y.size) (ha : x[i]? = some a') (hb : y[i]? = some b')
    (hbefore : ∀ (j : Nat) c d, j < i → x[j]? = some c → y[j]? = some d → s.Finds c d true) :
    Descends s (a, b) (a', b')

/-- A value is an element of a list or of a tuple. -/
def Element (s : State) (v w : Value) : Prop :=
  ∃ items, (s.list? v = some items ∨ s.tuple? v = some items) ∧ w ∈ items

/-- A value is a scalar, a string, a list or a tuple. -/
def Simple (s : State) (v : Value) : Prop :=
  ∀ h, v = .object h → ∃ o, s.heap.get? h = some o ∧
    ((∃ text, o = .string text) ∨ (∃ items, o = .list items) ∨ ∃ items, o = .tuple items)

/-- A value is composed of scalars, strings, lists and tuples. -/
def Composed (s : State) (v : Value) : Prop :=
  ∀ w, Relation.ReflTransGen s.Element v w → s.Simple w

/-- An element of a composed value is composed. -/
theorem Composed.element (h : s.Composed v) {w : Value} (hw : s.Element v w) : s.Composed w :=
  fun _ hmore => h _ (.head hw hmore)

/-- Elements are compared either of two different lists or of two tuples. -/
theorem elements?_cases {x y : Array Value} (h : s.elements? a b = some (x, y)) :
    (s.list? a = some x ∧ s.list? b = some y ∧ a.same b = false) ∨
      (s.tuple? a = some x ∧ s.tuple? b = some y) := by
  unfold elements? at h
  split at h
  · next x' y' hx hy =>
    split at h
    · cases h
    · next hne =>
      cases h
      exact .inl ⟨hx, hy, by simpa using hne⟩
  · split at h
    · next x' y' hx hy =>
      cases h
      exact .inr ⟨hx, hy⟩
    · cases h

/-- A comparison descends to elements of its two values, one of each. -/
theorem Descends.elements {p q : Value × Value} (h : s.Descends p q) :
    s.Element p.1 q.1 ∧ s.Element p.2 q.2 := by
  cases h with
  | element hxy hsize ha hb hbefore =>
    obtain ⟨hx, hy, -⟩ | ⟨hx, hy⟩ := elements?_cases hxy
    · exact ⟨⟨_, .inl hx, Array.mem_of_getElem? ha⟩, ⟨_, .inl hy, Array.mem_of_getElem? hb⟩⟩
    · exact ⟨⟨_, .inr hx, Array.mem_of_getElem? ha⟩, ⟨_, .inr hy, Array.mem_of_getElem? hb⟩⟩

/-- The descent ends if the nesting of the left value does. -/
theorem acc_descends (h : Acc (fun w v => s.Element v w) a) (b : Value) :
    Acc (fun q p => s.Descends p q) (a, b) := by
  induction h generalizing b with
  | intro a _ ih => exact .intro _ fun q hq => ih q.1 hq.elements.1 q.2

/-- Two lists each of which holds only the other are compared forever. -/
theorem not_acc_descends (ha : s.list? a = some #[b]) (hb : s.list? b = some #[a])
    (hne : a.same b = false) : ¬ Acc (fun q p => s.Descends p q) (a, b) := by
  have hne' : b.same a = false := by
    rw [← hne]
    cases a <;> cases b <;> simp [Value.same, Bool.beq_comm, Number.equals_comm]
  intro hacc
  generalize hp : (a, b) = p at hacc
  induction hacc generalizing a b with
  | intro p _ ih =>
    subst hp
    have helements : s.elements? a b = some (#[b], #[a]) := by simp [elements?, ha, hb, hne]
    have hbefore : ∀ j c d, j < 0 → #[b][j]? = some c → #[a][j]? = some d → s.Finds c d true :=
      fun _ _ _ hj => absurd hj (Nat.not_lt_zero _)
    exact ih (b, a) (.element (i := 0) helements rfl rfl rfl hbefore) hb ha hne' hne rfl

/-- A list is a simple value: no method of a script says what it equals. -/
theorem simple_of_list? {items : Array Value} (h : s.list? a = some items) : s.Simple a := by
  obtain ⟨x, rfl, hget⟩ := get?_of_list? h
  rintro _ ⟨⟩
  exact ⟨_, hget, .inr (.inl ⟨items, rfl⟩)⟩

/-- They are composed of lists all the same. -/
theorem composed_of_entwined (ha : s.list? a = some #[b]) (hb : s.list? b = some #[a]) :
    s.Composed a := by
  have helement : ∀ v w x, s.list? v = some #[x] → s.Element v w → w = x := by
    rintro v w x hv ⟨items, hitems | hitems, hw⟩
    · rw [hv] at hitems
      cases hitems
      simpa using hw
    · obtain ⟨y, rfl, hget⟩ := get?_of_tuple? hitems
      simp [State.list?, hget] at hv
  intro w hw
  obtain rfl | rfl : w = a ∨ w = b := by
    induction hw with
    | refl => exact .inl rfl
    | tail _ hw ih =>
      obtain rfl | rfl := ih
      · exact .inr (helement _ _ _ ha hw)
      · exact .inl (helement _ _ _ hb hw)
  · exact simple_of_list? ha
  · exact simple_of_list? hb

/-- The state in which a method compares two values. -/
def comparing (u : State) (a b : Value) : State :=
  { u with stack := u.stack.push a ++ #[b], apiBase := u.stack.size }

/-- A state that is about to call a comparison is beside the state it was in before. -/
theorem beside_comparing (u : State) (a b : Value) : u.Beside (u.comparing a b) :=
  ⟨rfl, rfl, rfl, rfl⟩

end State

/-! ## The methods of lists and tuples -/

namespace Act

variable {s : State} {a b : Value}

/-- What the methods of lists and tuples do to compare two values. -/
def compareElements (s : State) (a b : Value) : Act Bool :=
  match s.elements? a b with
  | some (x, y) => itemsEqual x y
  | none => pure ((s.list? a).isSome && a.same b)

section Methods

variable {u : State}

/-- The method called for a comparison finds the two values in its first slots. -/
theorem getSlot_comparing :
    getSlot 0 (u.comparing a b) = .done a (u.comparing a b) ∧
      getSlot 1 (u.comparing a b) = .done b (u.comparing a b) :=
  ⟨getSlot_receiver u u.stack a #[b], getSlot_argument u u.stack a b⟩

/-- What comparing two sequences comes to, once both arguments are in place: with two of the kind, a
comparison of their elements, and otherwise `false`. -/
theorem pushItemsEqual_comparing (items : State → Value → Option (Array Value)) :
    pushItemsEqual items (u.comparing a b) =
      ((match items (u.comparing a b) a, items (u.comparing a b) b with
        | some x, some y => itemsEqual x y
        | _, _ => pure false) >>= pushBool) (u.comparing a b) := by
  obtain ⟨hreceiver, hargument⟩ := getSlot_comparing (u := u) (a := a) (b := b)
  unfold pushItemsEqual
  simp only [bind_run, hreceiver, hargument, Proc.bind_done, gets_run]
  cases items (u.comparing a b) a <;> cases items (u.comparing a b) b <;> rfl

/-- The method of lists compares the elements if the other value is a list as well. -/
theorem runCore_listEq {x : Array Value} (ha : u.list? a = some x) :
    runCore .listEq (u.comparing a b) = (compareElements u a b >>= pushBool) (u.comparing a b) := by
  obtain ⟨hreceiver, hargument⟩ := getSlot_comparing (u := u) (a := a) (b := b)
  have htuple : u.tuple? a = none := by
    unfold State.list? at ha
    unfold State.tuple?
    split at ha
    · split at ha <;> simp_all
    · cases ha
  unfold runCore compareElements State.elements?
  simp only [bind_run, hreceiver, hargument, Proc.bind_done, ha, htuple, Option.isSome_some,
    Bool.true_and]
  cases hsame : a.same b with
  | true => cases u.list? b <;> rfl
  | false =>
    have hbeside := u.beside_comparing a b
    rw [if_neg Bool.false_ne_true, pushItemsEqual_comparing, hbeside.list?, hbeside.list?, ha]
    cases u.list? b <;> rfl

/-- The method of tuples compares the elements if the other value is a tuple as well. -/
theorem runCore_tupleEq {x : Array Value} (ha : u.tuple? a = some x) :
    runCore .tupleEq (u.comparing a b) = (compareElements u a b >>= pushBool) (u.comparing a b) := by
  have hlist : u.list? a = none := by
    unfold State.tuple? at ha
    unfold State.list?
    split at ha
    · split at ha <;> simp_all
    · cases ha
  have hbeside := u.beside_comparing a b
  unfold compareElements State.elements?
  rw [show runCore .tupleEq = pushItemsEqual State.tuple? from rfl, pushItemsEqual_comparing,
    hbeside.tuple?, hbeside.tuple?, hlist, ha]
  cases u.tuple? b <;> rfl

end Methods

/-- Comparing elements takes the same course in every state beside the first. -/
theorem compareElements_beside {u : State} (h : s.Beside u) (a b : Value) :
    compareElements u a b = compareElements s a b := by
  unfold compareElements
  rw [h.elements?, h.list?]

/-- The method that compares a list or a tuple with other values. -/
structure Compares (s : State) (h m : Handle) (o : NativeObject) (g : CoreSignature) : Prop where
  sequence : ∃ o, s.heap.get? h = some o ∧ ∀ text, o ≠ .string text
  own : ownMethod (.object h) .eq s = .done (some (.object m)) s
  native : s.heap.get? m = some (.native o)
  implements : o.Implements g
  defaults : g.defaults = []
  vararg : g.vararg = false
  arity : g.arity.toNat = 1
  run : ∀ b, runCore g.function (s.comparing (.object h) b) =
    (compareElements s (.object h) b >>= pushBool) (s.comparing (.object h) b)

/-- Lists and tuples have a method for that. -/
theorem exists_compares (hf : s.Furnished) (hi : s.heap.Interned) {h : Handle}
    (hs : (∃ x, s.list? (.object h) = some x) ∨ ∃ x, s.tuple? (.object h) = some x) :
    ∃ m o g, Compares s h m o g := by
  obtain ⟨x, hx⟩ | ⟨x, hx⟩ := hs
  · obtain ⟨_, ⟨⟩, hget⟩ := State.get?_of_list? hx
    obtain ⟨m, o, hm, hget', ho⟩ := hf.own hi (c := .list) rfl rfl hf.key_eq
    have hown := State.ownMethod_of_native hf hi (.inl rfl) (v := .object h)
      (by simp [State.classOf?, hget]) hm hget' (by simp [ho.function]) (by simp [ho.function])
    exact ⟨m, o, _, ⟨⟨_, hget, fun _ heq => by cases heq⟩, hown, hget', ho, rfl, rfl, rfl,
      fun b => runCore_listEq hx⟩⟩
  · obtain ⟨_, ⟨⟩, hget⟩ := State.get?_of_tuple? hx
    obtain ⟨m, o, hm, hget', ho⟩ := hf.own hi (c := .tuple) rfl rfl hf.key_eq
    have hown := State.ownMethod_of_native hf hi (.inl rfl) (v := .object h)
      (by simp [State.classOf?, hget]) hm hget' (by simp [ho.function]) (by simp [ho.function])
    exact ⟨m, o, _, ⟨⟨_, hget, fun _ heq => by cases heq⟩, hown, hget', ho, rfl, rfl, rfl,
      fun b => runCore_tupleEq hx⟩⟩

section Compares

variable {h m : Handle} {o : NativeObject} {g : CoreSignature} {r : Bool}

/-- If the elements are compared with a result, so are the values. -/
theorem Compares.ends (hc : Compares s h m o g) (hroom : s.reentrant < s.settings.maxReentrant)
    (hr : (compareElements s (.object h) b (s.comparing (.object h) b)).Ends r
      (s.comparing (.object h) b)) : (equal (.object h) b s).Ends r s := by
  obtain ⟨⟨_, hget, ho⟩, hown, hnative, himplements, hd, hv, harity, hrun⟩ := hc
  have hbody : (runCore g.function (s.comparing (.object h) b)).Ends ()
      { s with
        stack := (s.stack.push (.object h) ++ #[b]).push (.bool r)
        apiBase := s.stack.size } := by
    rw [hrun]
    exact ends_bind hr (.done _ _)
  have hargs : #[b].size = g.arity.toNat := harity.symm
  have hentered := ends_enterMethod (s := s) (v := .object h) (r := .bool r) hnative himplements hd hv
    hargs hbody
  rw [equal_eq_call hget ho hown]
  refine .call (by simp) hroom hentered rfl (ends_of_run ?_)
  simp [State.top, State.drop]

open Machine Proc.Ends

/-- The call that compares the values comes to comparing their elements. -/
theorem Compares.leadsTo (hc : Compares s h m o g) (hroom : s.reentrant < s.settings.maxReentrant)
    (b : Value) (waiting : List Waiting) :
    ∃ call, ∃ use : Proc Bool → Proc Control, Proc.Forwards use ∧ ∀ k,
      runStatus (k + 1) (Machine.start { s with stack := s.stack.push (.object h) ++ #[b] }
        (some (.object m)) 1 waiting) =
      runStatus k (absorb call waiting
        (use (compareElements s (.object h) b (s.comparing (.object h) b)))) := by
  obtain ⟨-, -, hnative, himplements, hd, hv, harity, hrun⟩ := hc
  obtain ⟨use, huse, henter⟩ : ∃ use : Proc Bool → Proc Control, Proc.Forwards use ∧
      enterMethod (.object m) 1 { s with stack := s.stack.push (.object h) ++ #[b] } =
        use (compareElements s (.object h) b (s.comparing (.object h) b)) := by
    have hargs : #[b].size = g.arity.toNat := harity.symm
    have henter := enterMethod_eq (s := s) (v := .object h) hnative himplements hd hv hargs
    have hbody := hrun b
    unfold State.comparing at hbody
    rw [attempt, hbody] at henter
    exact ⟨_, (Proc.forwards_bind _).comp (Proc.forwards_attempt.comp
      (Proc.forwards_bind (α := Bool) fun r => pushBool r)), henter⟩
  refine ⟨⟨s.frames.size, s.stack.size, false⟩, use, huse, fun k => ?_⟩
  rw [Machine.start, if_pos (by simp)]
  dsimp only
  rw [if_neg (Nat.not_le.2 hroom), runStatus, step, action, henter]
  · simp
  · rintro _ ⟨⟩

end Compares

/-! ## The elements one after the other -/

section Elements

variable {u : State} {as bs : List Value}

/-- If each pair of elements comes to an end once all pairs before it are found equal, then so does
the comparison of the sequences, with one result for all states beside the first. -/
theorem finds_allEqual (h : ∀ (i : Nat) a b, as[i]? = some a → bs[i]? = some b →
    (∀ (j : Nat) c d, j < i → as[j]? = some c → bs[j]? = some d → s.Finds c d true) →
      ∃ r, s.Finds a b r) :
    ∃ r, ∀ u, s.Beside u → (allEqual as bs u).Ends r u := by
  induction as generalizing bs with
  | nil => cases bs <;> exact ⟨_, fun u _ => .done _ u⟩
  | cons a as ih =>
    cases bs with
    | nil => exact ⟨_, fun u _ => .done _ u⟩
    | cons b bs =>
      obtain ⟨r, hr⟩ := h 0 a b rfl rfl nofun
      cases r with
      | false => exact ⟨false, fun u hu => ends_bind (hr u hu) (.done _ u)⟩
      | true =>
        obtain ⟨r, hrest⟩ := @ih bs fun i a' b' ha hb hbefore =>
          h (i + 1) a' b' ha hb fun j c d hj hc hd => by
            cases j with
            | zero =>
              cases hc
              cases hd
              exact hr
            | succ j => exact hbefore j c d (by omega) hc hd
        exact ⟨r, fun u hu => ends_bind (hr u hu) (hrest u hu)⟩

open Machine Proc.Ends

/-- Inside a machine, comparing elements comes to each of them in turn, as long as those before it
are equal. -/
theorem leadsTo_allEqual {i : Nat} (ha : as[i]? = some a) (hb : bs[i]? = some b)
    (hbefore : ∀ (j : Nat) c d, j < i → as[j]? = some c → bs[j]? = some d → s.Finds c d true)
    (hu : s.Beside u) {use : Proc Bool → Proc Control} (huse : Proc.Forwards use) (call : Call)
    (waiting : List Waiting) :
    ∃ use' : Proc Bool → Proc Control, Proc.Forwards use' ∧
      LeadsTo (absorb call waiting (use (allEqual as bs u)))
        (absorb call waiting (use' (equal a b u))) := by
  induction i generalizing as bs with
  | zero =>
    cases as <;> cases bs <;> simp at ha hb
    subst ha hb
    exact ⟨_, huse.comp (Proc.forwards_bind _), 0, fun k => by rw [Nat.zero_add]; rfl⟩
  | succ i ih =>
    cases as <;> cases bs <;> simp at ha hb
    next c as d bs =>
    obtain ⟨use', huse', n, hn⟩ := ih ha hb fun j c' d' hj hc hd =>
      hbefore (j + 1) c' d' (by omega) hc hd
    obtain ⟨n', hn'⟩ := (hbefore 0 c d (Nat.succ_pos i) rfl rfl u hu).leadsTo
      (huse.comp (Proc.forwards_bind fun r => (if r then allEqual as bs else pure false : Act Bool)))
      call waiting
    refine ⟨use', huse', n' + n, fun k => ?_⟩
    rw [Nat.add_assoc]
    exact (hn' (n + k)).trans (hn k)

end Elements

/-! ## Comparisons -/

section Comparisons

variable {u : State} (hf : s.Furnished) (hi : s.heap.Interned)
  (hroom : s.reentrant < s.settings.maxReentrant)

include hf hi hroom

/-- A list or a tuple is compared with a result if its elements are. -/
theorem exists_finds_sequence {h : Handle}
    (hs : (∃ x, s.list? (.object h) = some x) ∨ ∃ x, s.tuple? (.object h) = some x)
    (helements : ∀ x y, s.elements? (.object h) b = some (x, y) →
      ∃ r, ∀ u, s.Beside u → (itemsEqual x y u).Ends r u) :
    ∃ r, s.Finds (.object h) b r := by
  obtain ⟨r, hr⟩ : ∃ r, ∀ u, s.Beside u → (compareElements s (.object h) b u).Ends r u := by
    unfold compareElements
    cases hxy : s.elements? (.object h) b with
    | none => exact ⟨_, fun u _ => .done _ u⟩
    | some xy => exact helements xy.1 xy.2 hxy
  refine ⟨r, fun u hu => ?_⟩
  have hs' : (∃ x, u.list? (.object h) = some x) ∨ ∃ x, u.tuple? (.object h) = some x := by
    rwa [hu.list?, hu.tuple?]
  obtain ⟨m, o, g, hc⟩ := exists_compares (hf.beside hu) (hu.heap ▸ hi) hs'
  refine hc.ends (hu.settings ▸ hu.reentrant ▸ hroom) ?_
  rw [compareElements_beside hu]
  exact hr _ (hu.trans (u.beside_comparing _ _))

/-- A comparison whose descent ends has a result. -/
theorem exists_finds {p : Value × Value} (hacc : Acc (fun q p => s.Descends p q) p)
    (hp : s.Composed p.1) : ∃ r, s.Finds p.1 p.2 r := by
  induction hacc with
  | intro p _ ih =>
    obtain ⟨a, b⟩ := p
    dsimp only at hp ih ⊢
    cases a with
    | number n => exact ⟨_, fun u _ => .done _ u⟩
    | bool x => exact ⟨_, fun u _ => .done _ u⟩
    | null => exact ⟨_, fun u _ => .done _ u⟩
    | object h =>
      have hitems : ∀ x y, s.elements? (.object h) b = some (x, y) →
          ∃ r, ∀ u, s.Beside u → (itemsEqual x y u).Ends r u := by
        intro x y hxy
        unfold itemsEqual
        split
        · next hsize =>
          refine finds_allEqual fun i a' b' ha hb hbefore => ?_
          have hdescends : s.Descends (.object h, b) (a', b') :=
            .element hxy hsize (by simpa using ha) (by simpa using hb) fun j c d hj hc hd =>
              hbefore j c d hj (by simpa using hc) (by simpa using hd)
          exact ih (a', b') hdescends (hp.element hdescends.elements.1)
        · exact ⟨_, fun u _ => .done _ u⟩
      obtain ⟨o, hget, ⟨text, rfl⟩ | ⟨items, rfl⟩ | ⟨items, rfl⟩⟩ := hp _ .refl h rfl
      · refine ⟨((s.string? b).map fun y => text.data == y.data).getD false, fun u hu => ?_⟩
        have hobject : object h u = .done (.string text) u := require_run _ _ (hu.heap ▸ hget)
        have hstring : u.string? b = s.string? b := by
          unfold State.string?
          rw [hu.heap]
        refine ends_bind (ends_of_run hobject) (ends_of_run ?_)
        simp only [bind_run, gets_run, Proc.bind_done, hstring]
        cases s.string? b <;> rfl
      · exact exists_finds_sequence hf hi hroom (.inl ⟨items, by simp [State.list?, hget]⟩) hitems
      · exact exists_finds_sequence hf hi hroom (.inr ⟨items, by simp [State.tuple?, hget]⟩) hitems

open Machine Proc.Ends

omit hroom in
/-- Values that descend further are a list or a tuple and another value. -/
theorem exists_call (hu : s.Beside u) {q : Value × Value} (hq : s.Descends (a, b) q) :
    ∃ h m o g, a = .object h ∧ Compares u h m o g ∧
      ∃ resume, equal a b u = .call { u with stack := u.stack.push (.object h) ++ #[b] }
        (some (.object m)) 1 resume := by
  have hsequence : ∃ h, a = .object h ∧
      ((∃ x, u.list? (.object h) = some x) ∨ ∃ x, u.tuple? (.object h) = some x) := by
    obtain ⟨items, hitems | hitems, -⟩ := hq.elements.1
    · obtain ⟨h, rfl, -⟩ := State.get?_of_list? hitems
      exact ⟨h, rfl, .inl ⟨items, by rw [hu.list?, hitems]⟩⟩
    · obtain ⟨h, rfl, -⟩ := State.get?_of_tuple? hitems
      exact ⟨h, rfl, .inr ⟨items, by rw [hu.tuple?, hitems]⟩⟩
  obtain ⟨h, rfl, hs⟩ := hsequence
  obtain ⟨m, o, g, hc⟩ := exists_compares (hf.beside hu) (hu.heap ▸ hi) hs
  obtain ⟨⟨_, hget, ho⟩, hown, -⟩ := id hc
  exact ⟨h, m, o, g, rfl, hc, _, equal_eq_call hget ho hown⟩

/-- A call that compares two values whose descent does not end. -/
inductive EndlessCall (s : State) : Status → Prop
  | start {u : State} {h m : Handle} {o : NativeObject} {g : CoreSignature} {b : Value}
    (hu : s.Beside u) (hc : Compares u h m o g)
    (hacc : ¬ Acc (fun q p => s.Descends p q) (.object h, b)) (waiting : List Waiting) :
    EndlessCall s (Machine.start { u with stack := u.stack.push (.object h) ++ #[b] }
      (some (.object m)) 1 waiting)

open Machine Proc.Ends

omit hf hi hroom in
/-- A comparison that descends without end descends to one that does. -/
theorem exists_descends (hacc : ¬ Acc (fun q p => s.Descends p q) (a, b)) :
    ∃ q, s.Descends (a, b) q ∧ ¬ Acc (fun q p => s.Descends p q) q := by
  by_contra hnone
  exact hacc (.intro _ fun q hq => by_contra fun h => hnone ⟨q, hq, h⟩)

/-- Such a call comes to another one. -/
theorem EndlessCall.next {st : Status} (h : EndlessCall s st) :
    ∃ st' n, EndlessCall s st' ∧ ∀ k, runStatus (n + 1 + k) st = runStatus k st' := by
  obtain ⟨hu, hc, hacc, waiting⟩ := h
  next u h m o g b =>
  obtain ⟨⟨a', b'⟩, hdescends, hacc'⟩ := exists_descends hacc
  have hu' : s.Beside (u.comparing (.object h) b) := hu.trans (u.beside_comparing _ _)
  obtain ⟨call, use, huse, hfirst⟩ := hc.leadsTo (hu.settings ▸ hu.reentrant ▸ hroom) b waiting
  obtain ⟨use', huse', n, hn⟩ : ∃ use' : Proc Bool → Proc Control, Proc.Forwards use' ∧
      LeadsTo (absorb call waiting
        (use (compareElements u (.object h) b (u.comparing (.object h) b))))
        (absorb call waiting (use' (equal a' b' (u.comparing (.object h) b)))) := by
    cases hdescends with
    | element hxy hsize ha hb hbefore =>
      rw [compareElements_beside hu, compareElements, hxy]
      dsimp only
      rw [itemsEqual, if_pos hsize]
      exact leadsTo_allEqual (by simpa using ha) (by simpa using hb)
        (fun j c d hj hc hd => hbefore j c d hj (by simpa using hc) (by simpa using hd)) hu' huse call
        waiting
  obtain ⟨q, hq, -⟩ := exists_descends hacc'
  obtain ⟨h', m', o', g', rfl, hc', resume, hcall⟩ := exists_call hf hi hu' hq
  refine ⟨_, n, .start hu' hc' hacc' (⟨call, fun ok t => use' (resume ok t)⟩ :: waiting),
    fun k => ?_⟩
  rw [Nat.add_right_comm, hfirst, hn, hcall, huse']
  rfl

/-- A comparison whose descent does not end never ends. -/
theorem unfinished_of_not_acc (hacc : ¬ Acc (fun q p => s.Descends p q) (a, b)) (n : Nat) :
    (equal a b).run n s = .unfinished := by
  obtain ⟨q, hq, -⟩ := exists_descends hacc
  obtain ⟨h, m, o, g, rfl, hc, resume, hcall⟩ := exists_call hf hi (.refl s) hq
  have hendless := Machine.unfinished_of_progress (P := EndlessCall s)
    (fun st hst => by
      cases hst
      rw [Machine.start, if_pos (by simp)]
      rfl)
    (fun st hst => hst.next hf hi hroom) (.start (.refl s) hc hacc []) n
  rw [run, hcall, Proc.finish, hendless]

end Comparisons

end Act

/-- Where no nested call is allowed, comparing a list or a tuple raises, unless the heap is at its
limit. -/
theorem Act.equal_refused {s : State} {a b : Value} (hf : s.Furnished) (hi : s.heap.Interned)
    (hfull : s.settings.maxReentrant ≤ s.reentrant)
    (hs : (∃ x, s.list? a = some x) ∨ ∃ x, s.tuple? a = some x) :
    (∃ t, ∀ n, (equal a b).run (n + 2) s = .raised t) ∨
      ∀ n, (equal a b).run (n + 2) s = .fault .heapLimit := by
  obtain ⟨h, rfl⟩ : ∃ h, a = .object h := by
    obtain ⟨x, hx⟩ | ⟨x, hx⟩ := hs
    · obtain ⟨h, rfl, -⟩ := State.get?_of_list? hx
      exact ⟨h, rfl⟩
    · obtain ⟨h, rfl, -⟩ := State.get?_of_tuple? hx
      exact ⟨h, rfl⟩
  obtain ⟨m, o, g, ⟨_, hget, ho⟩, hown, -⟩ := exists_compares hf hi hs
  unfold run
  rw [equal_eq_call hget ho hown]
  refine Proc.finish_refused _ ?_ ?_ fun _ => rfl
  · simp
  · exact hfull

/-! ## Runs -/

/-- In all states of all runs in which nothing has been done to core classes, on values composed of
scalars, strings, lists and tuples. Where no nested call is allowed, comparing a list or a tuple
raises, unless the heap is at its limit. Where one is, a comparison has a result if its descent ends,
and never ends if its descent does not. The descent ends if the nesting of the left value does, and
does not for two lists each of which holds only the other. -/
theorem Hosted.equality_ends_with_descent {settings : Settings} {log log' : List ClassEvent}
    {s : State} (h : Hosted (.create settings) log s) {name : String} {module : Bytecode.Module}
    {m : Machine} (hd : (Act.evalModule name module s).During log' m)
    (hcore : ∀ e ∈ log ++ log', e.subject ∉ m.state.core.classes) {a b : Value}
    (ha : m.state.Composed a) :
    (m.state.settings.maxReentrant ≤ m.state.reentrant →
      (∃ x, m.state.list? a = some x) ∨ (∃ x, m.state.tuple? a = some x) →
        (∃ t, ∀ n, (Act.equal a b).run (n + 2) m.state = .raised t) ∨
          ∀ n, (Act.equal a b).run (n + 2) m.state = .fault .heapLimit) ∧
    (m.state.reentrant < m.state.settings.maxReentrant →
      (Acc (fun q p => m.state.Descends p q) (a, b) → ∃ r, (Act.equal a b).Gives m.state r) ∧
      (¬ Acc (fun q p => m.state.Descends p q) (a, b) →
        ∀ n, (Act.equal a b).run n m.state = .unfinished)) ∧
    (Acc (fun w v => m.state.Element v w) a → Acc (fun q p => m.state.Descends p q) (a, b)) ∧
    (m.state.list? a = some #[b] → m.state.list? b = some #[a] → a.same b = false →
      ¬ Acc (fun q p => m.state.Descends p q) (a, b)) := by
  have hi := (h.during hd).1.interned
  have hf := h.furnished hd hcore
  refine ⟨Act.equal_refused hf hi, fun hroom => ⟨fun hacc => ?_, fun hacc n => ?_⟩,
    fun hacc => State.acc_descends hacc b, State.not_acc_descends⟩
  · obtain ⟨r, hr⟩ := Act.exists_finds hf hi hroom hacc ha
    exact ⟨r, Act.gives_of_ends (hr _ (.refl _))⟩
  · exact Act.unfinished_of_not_acc hf hi hroom hacc n

/-- The two lists are compared forever. -/
theorem Hosted.equality_ends_with_descent_entwinedModule : ∃ m a b,
    (Act.evalModule Act.mainModule entwinedModule (.create .default)).During [] m ∧
      m.state.reentrant < m.state.settings.maxReentrant ∧ m.state.Composed a ∧
      m.state.list? a = some #[b] ∧ m.state.list? b = some #[a] ∧
      ∀ n, (Act.equal a b).run n m.state = .unfinished := by
  obtain ⟨⟨log, m⟩, hm, hshown⟩ := Option.map_eq_some_iff.1 traces_computed.2
  simp only [Prod.mk.injEq, decide_eq_true_eq] at hshown
  obtain ⟨rfl, hroom, ha, hb, hne⟩ := hshown
  have hd := Proc.during_of_trace hm
  have hcomposed := State.composed_of_entwined ha hb
  obtain ⟨-, hends, -, hentwined⟩ :=
    Hosted.equality_ends_with_descent .start hd (by simp) (b := m.state.stack.getD 2 .null) hcomposed
  exact ⟨m, _, _, hd, hroom, hcomposed, ha, hb, (hends hroom).2 (hentwined ha hb hne)⟩

end ScriptEngine
