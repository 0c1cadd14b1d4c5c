import ScriptEngine.Proofs.Lasting

/-!
# What classes have declared

A ledger says of each class which superclass it was given and which methods it was given itself, as
far as one can tell from what has been done to classes. A heap follows a ledger if its classes have
the superclasses that the ledger says, and find the methods that one finds in the ledger on the way
up from class to superclass. A class copies the methods of its superclass when it inherits, so this
takes declarations in order: a class inherits before it gets methods or subclasses, and gets nothing
after a subclass has copied its methods.
-/

namespace ScriptEngine

open Bytecode

/-- What is known of a class. -/
structure ClassRecord where
  /-- The class it inherits from. -/
  superclass : Option Handle
  /-- The methods it was given itself, by the handles of their names, the last one first. -/
  own : List (Handle × Value)
  /-- Whether a class inherits from it. -/
  settled : Bool

/-- What is known of classes. -/
abbrev Ledger : Type := Handle → ClassRecord

namespace Ledger

/-- Nothing is known. -/
def empty : Ledger := fun _ => ⟨none, [], false⟩

/-- Something else is known of one class. -/
def set (l : Ledger) (c : Handle) (r : ClassRecord) : Ledger := fun x => if x = c then r else l x

/-- What an event makes known. -/
def record (l : Ledger) : ClassEvent → Ledger
  | .made c => l.set c ⟨none, [], false⟩
  | .inherits c parent =>
    let l := l.set c { l c with superclass := some parent }
    l.set parent { l parent with settled := true }
  | .defines c name method => l.set c { l c with own := (name.handle, method) :: (l c).own }

/-- What some events make known. -/
def after (l : Ledger) (log : List ClassEvent) : Ledger := log.foldl record l

/-- Each of some events keeps a rule. -/
def Obeys (rule : Ledger → ClassEvent → Prop) : Ledger → List ClassEvent → Prop
  | _, [] => True
  | l, e :: log => rule l e ∧ Obeys rule (l.record e) log

/-- A class inherits from another one, directly or not, or is the same. -/
def Below (l : Ledger) : Handle → Handle → Prop :=
  Relation.ReflTransGen fun c p => (l c).superclass = some p

/-- Looking for a method in a class, then in its superclass, and so on. -/
inductive Finds (l : Ledger) (name : Handle) : Handle → Value → Prop
  | own {c : Handle} {v : Value} (h : (l c).own.lookup name = some v) : Finds l name c v
  | inherited {c p : Handle} {v : Value} (hn : (l c).own.lookup name = none)
    (hp : (l c).superclass = some p) (h : Finds l name p v) : Finds l name c v

/-- A class does not inherit from itself or from a class below it. -/
def Rooted (l : Ledger) : ClassEvent → Prop
  | .inherits c parent => ¬ l.Below parent c
  | _ => True

/-- A class inherits from another one, once, before anything else; it gets methods as long as no
class inherits from it. -/
def Orderly (l : Ledger) : ClassEvent → Prop
  | .made _ => True
  | .inherits c parent =>
    c ≠ parent ∧ (l c).superclass = none ∧ (l c).own = [] ∧ (l c).settled = false
  | .defines c _ _ => (l c).settled = false

variable {l : Ledger} {c p : Handle} {e : ClassEvent} {log log' : List ClassEvent}
  {rule : Ledger → ClassEvent → Prop}

@[simp] theorem set_self (l : Ledger) (c : Handle) (r : ClassRecord) : l.set c r c = r := if_pos rfl

/-- Other classes have the records they had. -/
theorem set_of_ne {x : Handle} (h : x ≠ c) (r : ClassRecord) : l.set c r x = l x := if_neg h

/-- Events one after the other. -/
theorem after_append (l : Ledger) (log log' : List ClassEvent) :
    l.after (log ++ log') = (l.after log).after log' := List.foldl_append

/-- Events obey a rule exactly if both parts do. -/
theorem obeys_append : l.Obeys rule (log ++ log') ↔
    l.Obeys rule log ∧ (l.after log).Obeys rule log' := by
  induction log generalizing l with
  | nil => exact (and_iff_right trivial).symm
  | cons e log ih =>
    rw [List.cons_append, Obeys, Obeys, ih, and_assoc]
    rfl

/-! ## Chains of superclasses -/

/-- A chain that ends before it comes to a class. -/
theorem not_below_root (hp : (l p).superclass = none) (hne : p ≠ c) : ¬ l.Below p c := by
  intro hb
  obtain heq | ⟨q, hq, -⟩ := hb.cases_head
  · exact hne heq
  · rw [hp] at hq
    cases hq

/-- A class that does not inherit from one is not below its superclass either. -/
theorem not_below_step {q : Handle} (hp : (l p).superclass = some q) (hne : p ≠ c)
    (hq : ¬ l.Below q c) : ¬ l.Below p c := by
  intro hb
  obtain heq | ⟨r, hr, hrest⟩ := hb.cases_head
  · exact hne heq
  · rw [hp] at hr
    cases hr
    exact hq hrest

/-- Every chain of superclasses ends. -/
def Grounded (l : Ledger) : Prop := ∀ c, Acc (fun p c => (l c).superclass = some p) c

/-- A superclass is taken away. -/
theorem Grounded.of_subset {l' : Ledger} (h : l.Grounded)
    (hl : ∀ c p, (l' c).superclass = some p → (l c).superclass = some p) : l'.Grounded :=
  fun c => Subrelation.accessible (fun {p c} => hl c p) (h c)

/-- A class inherits from one that is not below it. -/
theorem Grounded.link {l' : Ledger} (h : l.Grounded) (hp : ¬ l.Below p c)
    (hc : (l' c).superclass = some p) (hl : ∀ x, x ≠ c → (l' x).superclass = (l x).superclass) :
    l'.Grounded := by
  have haway : ∀ x, ¬ l.Below x c → Acc (fun p c => (l' c).superclass = some p) x := by
    intro x
    induction h x with
    | intro x _ ih =>
      intro hx
      have hne : x ≠ c := fun heq => hx (heq ▸ .refl)
      refine .intro x fun y hy => ?_
      have hy : (l x).superclass = some y := (hl x hne).symm.trans hy
      exact ih y hy fun hbelow => hx (.head hy hbelow)
  have hself : Acc (fun p c => (l' c).superclass = some p) c := by
    refine .intro c fun y hy => ?_
    obtain rfl : p = y := Option.some.inj (hc.symm.trans hy)
    exact haway p hp
  intro x
  induction h x with
  | intro x _ ih =>
    by_cases heq : x = c
    · exact heq ▸ hself
    · exact .intro x fun y hy => ih y ((hl x heq).symm.trans hy)

/-- Inheriting sets the superclass of one class. -/
theorem superclass_inherits (l : Ledger) (c p x : Handle) :
    (l.record (.inherits c p) x).superclass = if x = c then some p else (l x).superclass := by
  unfold record
  dsimp only
  by_cases hp : x = p
  · subst hp
    rw [set_self]
    by_cases hc : x = c
    · subst hc
      simp
    · simp [set_of_ne hc, hc]
  · rw [set_of_ne hp]
    by_cases hc : x = c
    · subst hc
      simp
    · simp [set_of_ne hc, hc]

/-- A method changes no superclass. -/
theorem superclass_defines (l : Ledger) (c : Handle) (name : Key) (method : Value) (x : Handle) :
    (l.record (.defines c name method) x).superclass = (l x).superclass := by
  unfold record
  by_cases hc : x = c
  · subst hc
    simp
  · simp [set_of_ne hc]

/-- A new class has no superclass. -/
theorem superclass_made (l : Ledger) (c x : Handle) :
    (l.record (.made c) x).superclass = if x = c then none else (l x).superclass := by
  unfold record
  by_cases hc : x = c
  · subst hc
    simp
  · simp [set_of_ne hc, hc]

/-- An event that keeps chains apart keeps them finite. -/
theorem Grounded.record (h : l.Grounded) (hr : l.Rooted e) : (l.record e).Grounded := by
  cases e with
  | made c =>
    refine h.of_subset fun x p hx => ?_
    rw [superclass_made] at hx
    split at hx
    · cases hx
    · exact hx
  | inherits c p =>
    refine h.link hr (by rw [superclass_inherits, if_pos rfl]) fun x hx => ?_
    rw [superclass_inherits, if_neg hx]
  | defines c name method =>
    exact h.of_subset fun x p hx => by rwa [superclass_defines] at hx

/-- Chains of superclasses end after any events that keep them so. -/
theorem Grounded.after (h : l.Grounded) (hr : l.Obeys Rooted log) : (l.after log).Grounded := by
  induction log generalizing l with
  | nil => exact h
  | cons e log ih => exact ih (h.record hr.1) hr.2

/-- Before any class there are no chains. -/
theorem grounded_empty : empty.Grounded := fun _ => .intro _ nofun

/-! ## Finding methods -/

/-- Looking up the chain meets only what is closed under superclasses. -/
theorem Finds.transfer {l' : Ledger} {q : Handle → Prop} {name x : Handle} {v : Value}
    (hclosed : ∀ x p, q x → (l x).superclass = some p → q p)
    (hsame : ∀ x, q x → (l' x).own = (l x).own ∧ (l' x).superclass = (l x).superclass)
    (hx : q x) (hf : l.Finds name x v) : l'.Finds name x v := by
  induction hf with
  | own h => exact .own ((hsame _ hx).1 ▸ h)
  | inherited hn hp _ ih =>
    exact .inherited ((hsame _ hx).1 ▸ hn) ((hsame _ hx).2 ▸ hp) (ih (hclosed _ _ hx hp))

/-- Methods are found as before if nothing on the way has changed. -/
theorem finds_congr {l' : Ledger} {q : Handle → Prop} {name x : Handle} {v : Value}
    (hclosed : ∀ x p, q x → (l x).superclass = some p → q p)
    (hsame : ∀ x, q x → (l' x).own = (l x).own ∧ (l' x).superclass = (l x).superclass)
    (hx : q x) : l'.Finds name x v ↔ l.Finds name x v :=
  ⟨.transfer (fun x p hx hp => hclosed x p hx ((hsame x hx).2 ▸ hp))
    (fun x hx => ⟨(hsame x hx).1.symm, (hsame x hx).2.symm⟩) hx,
    .transfer hclosed hsame hx⟩

/-- A class finds its own method. -/
theorem finds_of_lookup {name : Handle} {w v : Value} (h : (l c).own.lookup name = some w) :
    l.Finds name c v ↔ w = v := by
  constructor
  · rintro (hv | ⟨hn, -, -⟩)
    · exact Option.some.inj (h.symm.trans hv)
    · rw [h] at hn
      cases hn
  · rintro rfl
    exact .own h

/-- Another one it finds where its superclass finds it. -/
theorem finds_of_superclass {name : Handle} {v : Value} (h : (l c).own.lookup name = none)
    (hp : (l c).superclass = some p) : l.Finds name c v ↔ l.Finds name p v := by
  constructor
  · rintro (hv | ⟨-, hq, hf⟩)
    · rw [h] at hv
      cases hv
    · rwa [Option.some.inj (hp.symm.trans hq)]
  · exact fun hf => .inherited h hp hf

/-- Without a superclass it finds no other. -/
theorem not_finds {name : Handle} {v : Value} (h : (l c).own.lookup name = none)
    (hp : (l c).superclass = none) : ¬ l.Finds name c v := by
  rintro (hv | ⟨-, hq, -⟩)
  · rw [h] at hv
    cases hv
  · rw [hp] at hq
    cases hq

end Ledger

/-! ## Heaps that follow a ledger -/

namespace Heap

/-- All that a heap has of its classes was there before, with the classes and names that they refer
to. -/
structure Preserves (heap heap' : Heap) : Prop where
  old : ∀ {c o}, heap'.class? c = some o → heap.class? c = some o
  superclass : ∀ {c o p q}, heap'.class? c = some o → o.superclass = some p →
    heap.class? p = some q → heap'.class? p = some q
  names : ∀ {c o x text}, heap'.class? c = some o → x ∈ Object.tableHandles o.methods →
    heap.string? x = some text → heap'.string? x = some text

/-- Classes have the superclasses that a ledger says, and those are there. -/
structure Linked (l : Ledger) (heap : Heap) : Prop where
  superclass : ∀ {c o}, heap.class? c = some o → (l c).superclass = o.superclass
  live : ∀ {c o p}, heap.class? c = some o → o.superclass = some p → ∃ q, heap.class? p = some q

/-- A table holds the methods that one finds in a ledger. -/
def Tables (l : Ledger) (heap : Heap) (c : Handle) (t : NameTable) : Prop :=
  ∃ m, NameTable.Represents heap.hashOf t m ∧ (∀ h, (m h).isSome → (heap.string? h).isSome) ∧
    ∀ h v, m h = some v ↔ l.Finds h c v

/-- Classes hold the methods that one finds in a ledger. -/
structure Follows (l : Ledger) (heap : Heap) : Prop extends Linked l heap where
  settled : ∀ {c o p}, heap.class? c = some o → o.superclass = some p → (l p).settled = true
  methods : ∀ {c o}, heap.class? c = some o → Tables l heap c o.methods

variable {l l' : Ledger} {heap heap' : Heap} {c p : Handle} {o q : ClassObject}

/-- Superclasses are where the ledger says as long as classes are preserved. -/
theorem Linked.mono (h : Linked l heap) (hp : Preserves heap heap') : Linked l heap' where
  superclass hc := h.superclass (hp.old hc)
  live hc ho := by
    obtain ⟨q, hq⟩ := h.live (hp.old hc) ho
    exact ⟨q, hp.superclass hc ho hq⟩

/-- A table holds on to the names in it. -/
theorem mem_tableHandles {hashOf : Handle → UInt32} {t : NameTable} {m : NameTable.Map}
    (hr : NameTable.Represents hashOf t m) {h : Handle} (hm : (m h).isSome) :
    h ∈ Object.tableHandles t := by
  obtain ⟨v, hv⟩ := Option.isSome_iff_exists.1 hm
  exact List.mem_flatMap.2 ⟨(NameTable.keyWith hashOf h, v), hr.mem_toList.2 ⟨rfl, hv⟩,
    List.mem_cons_self ..⟩

/-- A table holds the same in another heap that has its names. -/
theorem Tables.mono {t : NameTable} (h : Tables l heap c t)
    (hnames : ∀ x ∈ Object.tableHandles t, ∀ text, heap.string? x = some text →
      heap'.string? x = some text)
    (hf : ∀ name v, l'.Finds name c v ↔ l.Finds name c v) : Tables l' heap' c t := by
  obtain ⟨m, hr, hlive, hm⟩ := h
  have hkept : ∀ x, (m x).isSome → heap'.string? x = heap.string? x := by
    intro x hx
    obtain ⟨text, htext⟩ := Option.isSome_iff_exists.1 (hlive x hx)
    rw [htext, hnames x (mem_tableHandles hr hx) text htext]
  refine ⟨m, hr.rehash fun x hx => ?_, fun x hx => ?_, fun name v => ?_⟩
  · unfold hashOf
    rw [hkept x hx]
  · rw [hkept x hx]
    exact hlive x hx
  · rw [hm, hf]

/-- A heap follows the ledger as long as classes are preserved. -/
theorem Follows.mono (h : Follows l heap) (hp : Preserves heap heap') : Follows l heap' where
  toLinked := h.toLinked.mono hp
  settled hc ho := h.settled (hp.old hc) ho
  methods hc := (h.methods (hp.old hc)).mono (fun _ hx _ ht => hp.names hc hx ht) fun _ _ => .rfl

/-! ## Changes that preserve classes -/

/-- Heaps that preserve classes, one after the other. -/
theorem Preserves.trans {heap'' : Heap} (h : Preserves heap heap') (h' : Preserves heap' heap'') :
    Preserves heap heap'' where
  old hc := h.old (h'.old hc)
  superclass hc ho hp := h'.superclass hc ho (h.superclass (h'.old hc) ho hp)
  names hc hx ht := h'.names hc hx (h.names (h'.old hc) hx ht)

/-- Heaps with the same classes and strings. -/
theorem preserves_of_eq (hclass : ∀ x, heap'.class? x = heap.class? x)
    (hstring : ∀ x, heap'.string? x = heap.string? x) : Preserves heap heap' where
  old hc := by rwa [← hclass]
  superclass _ _ hp := by rwa [hclass]
  names _ _ ht := by rwa [hstring]

/-- Something else is made. -/
theorem preserves_insert (ht : heap.Tidy) {o : Object} (ho : o.isTurned = false)
    (hget : ∀ x, heap'.get? x = (heap.insert o).1.get? x) : Preserves heap heap' := by
  have hkept : ∀ {x p}, heap.get? x = some p → heap'.get? x = some p := by
    intro x p hx
    rw [hget, get?_insert_of_live ht _ (isLive_of_get? hx), hx]
  refine ⟨fun {c k} hc => ?_, fun _ _ hp => ?_, fun _ _ ht => ?_⟩
  · rw [class?_eq_some, hget, get?_insert ht] at hc
    split at hc
    · cases hc
      cases ho
    · exact class?_eq_some.2 hc
  · exact class?_eq_some.2 (hkept (class?_eq_some.1 hp))
  · exact string?_eq_some.2 (hkept (string?_eq_some.1 ht))

/-- A text. -/
theorem preserves_intern (ht : heap.Tidy) (data : ByteArray) :
    Preserves heap (heap.intern data).1 := by
  unfold Heap.intern
  dsimp only
  split
  · exact preserves_of_eq (fun _ => rfl) fun _ => rfl
  · exact preserves_insert ht rfl fun _ => rfl

/-! ## Events -/

section Events

/-- A class that no class inherits from is on the chain of no other class. -/
theorem Linked.finds_iff (h : Linked l heap)
    (haway : ∀ {x o}, heap.class? x = some o → o.superclass ≠ some c)
    (hsame : ∀ x, x ≠ c → (l' x).own = (l x).own ∧ (l' x).superclass = (l x).superclass)
    {x : Handle} (hx : heap.class? x = some o) (hne : x ≠ c) (name : Handle) (v : Value) :
    l'.Finds name x v ↔ l.Finds name x v := by
  refine Ledger.finds_congr (q := fun x => (∃ o, heap.class? x = some o) ∧ x ≠ c)
    (fun y p ⟨⟨o, ho⟩, hy⟩ hp => ?_) (fun y hy => hsame y hy.2) ⟨⟨o, hx⟩, hne⟩
  rw [h.superclass ho] at hp
  refine ⟨h.live ho hp, ?_⟩
  rintro rfl
  exact haway ho hp

/-- A class is made. -/
theorem Linked.made (h : Linked l heap) (hnew : heap.class? c = none) (hso : o.superclass = none)
    (hclass : ∀ x, heap'.class? x = if x = c then some o else heap.class? x) :
    Linked (l.record (.made c)) heap' where
  superclass {x o'} hx := by
    rw [hclass] at hx
    rw [Ledger.superclass_made]
    split at hx
    · next heq =>
      cases hx
      rw [if_pos heq, hso]
    · next hne => rw [if_neg hne, h.superclass hx]
  live {x o' y} hx hy := by
    rw [hclass] at hx
    split at hx
    · cases hx
      rw [hso] at hy
      cases hy
    · obtain ⟨q, hq⟩ := h.live hx hy
      refine ⟨q, ?_⟩
      rw [hclass, if_neg, hq]
      rintro rfl
      rw [hnew] at hq
      cases hq

/-- A class inherits. -/
theorem Linked.inherits (h : Linked l heap) (hp : heap.class? p = some q) {ms : NameTable}
    (hclass : ∀ x, heap'.class? x =
      if x = c then some { o with superclass := some p, methods := ms } else heap.class? x) :
    Linked (l.record (.inherits c p)) heap' where
  superclass {x o'} hx := by
    rw [hclass] at hx
    rw [Ledger.superclass_inherits]
    split at hx
    · next heq =>
      cases hx
      rw [if_pos heq]
    · next hne => rw [if_neg hne, h.superclass hx]
  live {x o' y} hx hy := by
    have hlive : ∃ q, heap.class? y = some q := by
      rw [hclass] at hx
      split at hx
      · cases hx
        cases hy
        exact ⟨q, hp⟩
      · exact h.live hx hy
    rw [hclass]
    split
    · exact ⟨_, rfl⟩
    · exact hlive

/-- A class is given a method. -/
theorem Linked.defines (h : Linked l heap) (hc : heap.class? c = some o) {name : Key}
    {method : Value} {ms : NameTable}
    (hclass : ∀ x, heap'.class? x =
      if x = c then some { o with methods := ms } else heap.class? x) :
    Linked (l.record (.defines c name method)) heap' where
  superclass {x o'} hx := by
    rw [hclass] at hx
    rw [Ledger.superclass_defines]
    split at hx
    · next heq =>
      cases hx
      rw [heq, h.superclass hc]
    · exact h.superclass hx
  live {x o' y} hx hy := by
    have hlive : ∃ q, heap.class? y = some q := by
      rw [hclass] at hx
      split at hx
      · cases hx
        exact h.live hc hy
      · exact h.live hx hy
    rw [hclass]
    split
    · exact ⟨_, rfl⟩
    · exact hlive

/-- As long as a class has not settled, no class inherits from it. -/
theorem Follows.away (h : Follows l heap) (hc : (l c).settled = false) {x : Handle}
    (hx : heap.class? x = some o) : o.superclass ≠ some c := by
  intro hs
  rw [h.settled hx hs] at hc
  cases hc

/-- A class that is made has no methods. -/
theorem Follows.made (h : Follows l heap) (hnew : heap.class? c = none)
    (hso : o.superclass = none) (hmethods : o.methods = .empty)
    (hclass : ∀ x, heap'.class? x = if x = c then some o else heap.class? x)
    (hstring : ∀ x, heap'.string? x = heap.string? x) : Follows (l.record (.made c)) heap' where
  toLinked := h.toLinked.made hnew hso hclass
  settled {x o' y} hx hy := by
    rw [hclass] at hx
    split at hx
    · cases hx
      rw [hso] at hy
      cases hy
    · obtain ⟨q, hq⟩ := h.live hx hy
      have hne : y ≠ c := by
        rintro rfl
        rw [hnew] at hq
        cases hq
      rw [Ledger.record, Ledger.set_of_ne hne]
      exact h.settled hx hy
  methods {x o'} hx := by
    rw [hclass] at hx
    split at hx
    · next heq =>
      cases hx
      rw [hmethods, heq]
      refine ⟨fun _ => none, NameTable.represents_empty, nofun, fun name v => ?_⟩
      have hnone := @Ledger.not_finds (l.record (.made c)) c name v
        (by simp [Ledger.record]) (by simp [Ledger.record])
      simp [hnone]
    · next hne =>
      refine (h.methods hx).mono (fun y _ text ht => by rw [hstring, ht]) fun name v => ?_
      refine h.toLinked.finds_iff (fun hy hs => ?_) (fun y hy => ?_) hx hne name v
      · obtain ⟨q, hq⟩ := h.live hy hs
        rw [hnew] at hq
        cases hq
      · rw [Ledger.record, Ledger.set_of_ne hy]
        exact ⟨rfl, rfl⟩

/-- The method that is given to a class is found there from then on. -/
theorem Follows.finds_defines (h : Follows l heap) (hc : heap.class? c = some o)
    (hfree : (l c).settled = false) (name : Key) (method : Value) (y : Handle) (v : Value) :
    (l.record (.defines c name method)).Finds y c v ↔
      if y = name.handle then method = v else l.Finds y c v := by
  have hown : (l.record (.defines c name method) c).own = (name.handle, method) :: (l c).own := by
    simp [Ledger.record]
  split
  · next heq => exact Ledger.finds_of_lookup (by rw [hown, heq]; simp)
  · next hne =>
    have hlookup : (l.record (.defines c name method) c).own.lookup y = (l c).own.lookup y := by
      rw [hown, List.lookup_cons, beq_false_of_ne hne]
    have hsuper := h.superclass hc
    have hsuper' := (l.superclass_defines c name method c).trans hsuper
    cases hfound : (l c).own.lookup y with
    | some w => rw [Ledger.finds_of_lookup (hlookup.trans hfound), Ledger.finds_of_lookup hfound]
    | none =>
      cases hp : o.superclass with
      | none =>
        exact iff_of_false (Ledger.not_finds (hlookup.trans hfound) (hsuper'.trans hp))
          (Ledger.not_finds hfound (hsuper.trans hp))
      | some p =>
        obtain ⟨q, hq⟩ := h.live hc hp
        have hne : p ≠ c := fun heq => h.away hfree hc (heq ▸ hp)
        rw [Ledger.finds_of_superclass (hlookup.trans hfound) (hsuper'.trans hp),
          Ledger.finds_of_superclass hfound (hsuper.trans hp)]
        exact h.toLinked.finds_iff (fun hy => h.away hfree hy)
          (fun x hx => by rw [Ledger.record, Ledger.set_of_ne hx]; exact ⟨rfl, rfl⟩) hq hne y v

/-- A class that nobody inherits from gets a method. -/
theorem Follows.defines (h : Follows l heap) (hc : heap.class? c = some o)
    (hfree : (l c).settled = false) {name : Key} {method : Value} {text : StringObject}
    (hname : heap.string? name.handle = some text) (hhash : text.hash = name.hash)
    (hclass : ∀ x, heap'.class? x =
      if x = c then some { o with methods := o.methods.insert name method } else heap.class? x)
    (hstring : ∀ x, heap'.string? x = heap.string? x) :
    Follows (l.record (.defines c name method)) heap' := by
  have hsame : ∀ x, x ≠ c → l.record (.defines c name method) x = l x :=
    fun x hx => Ledger.set_of_ne hx _
  refine ⟨h.toLinked.defines hc hclass, fun {x o' y} hx hy => ?_, fun {x o'} hx => ?_⟩
  · obtain ⟨o₀, hx₀, heq⟩ : ∃ o₀, heap.class? x = some o₀ ∧ o'.superclass = o₀.superclass := by
      rw [hclass] at hx
      split at hx
      · next heq =>
        cases hx
        exact ⟨o, heq ▸ hc, rfl⟩
      · exact ⟨o', hx, rfl⟩
    rw [hsame y fun hyc => h.away hfree hx₀ (heq ▸ hyc ▸ hy)]
    exact h.settled hx₀ (heq ▸ hy)
  · rw [hclass] at hx
    split at hx
    · next heq =>
      cases hx
      rw [heq]
      obtain ⟨m, hr, hstrings, hm⟩ := h.methods hc
      have hkey : name = NameTable.keyWith heap.hashOf name.handle := by
        obtain ⟨y, hash⟩ := name
        simp [NameTable.keyWith, hashOf, hname, hhash]
      have hput := (hr.put name.handle method).1
      rw [← hkey] at hput
      refine Tables.mono (l := l.record (.defines c name method))
        ⟨m.set name.handle method, hput, fun y hy => ?_, fun y v => ?_⟩
        (fun y _ text ht => by rw [hstring, ht]) fun _ _ => .rfl
      · unfold NameTable.Map.set at hy
        split at hy
        · next heq => rw [heq, hname, Option.isSome_some]
        · exact hstrings y hy
      · rw [h.finds_defines hc hfree, NameTable.Map.set]
        split
        · exact Option.some_inj
        · exact hm y v
    · next hne =>
      refine (h.methods hx).mono (fun y _ text ht => by rw [hstring, ht]) ?_
      exact h.toLinked.finds_iff (fun hy => h.away hfree hy) (fun y hy => by simp [hsame y hy])
        hx hne

/-- A class that is new inherits from another one. -/
theorem Follows.inherits (h : Follows l heap) (hc : heap.class? c = some o)
    (hp : heap.class? p = some q) (horder : l.Orderly (.inherits c p)) {ms : NameTable}
    (hms : ∀ m n, NameTable.Represents heap.hashOf o.methods m →
      NameTable.Represents heap.hashOf q.methods n →
      NameTable.Represents heap.hashOf ms (m.union n))
    (hclass : ∀ x, heap'.class? x =
      if x = c then some { o with superclass := some p, methods := ms } else heap.class? x)
    (hstring : ∀ x, heap'.string? x = heap.string? x) :
    Follows (l.record (.inherits c p)) heap' := by
  obtain ⟨hne, hnone, hempty, hfree⟩ := horder
  have hother : ∀ x, x ≠ c → (l.record (.inherits c p) x).own = (l x).own ∧
      (l.record (.inherits c p) x).superclass = (l x).superclass := by
    intro x hx
    refine ⟨?_, by rw [Ledger.superclass_inherits, if_neg hx]⟩
    unfold Ledger.record
    dsimp only
    by_cases hxp : x = p
    · subst hxp
      rw [Ledger.set_self, Ledger.set_of_ne hx]
    · rw [Ledger.set_of_ne hxp, Ledger.set_of_ne hx]
  have hself : (l.record (.inherits c p) c).own = [] := by
    unfold Ledger.record
    dsimp only
    rw [Ledger.set_of_ne hne, Ledger.set_self, hempty]
  have hsettled : ∀ y, y = p ∨ (l y).settled = true →
      (l.record (.inherits c p) y).settled = true := by
    intro y hy
    unfold Ledger.record
    dsimp only
    by_cases hyp : y = p
    · subst hyp
      rw [Ledger.set_self]
    · have hyc : y ≠ c := by
        rintro rfl
        rw [hfree] at hy
        exact hy.elim hyp nofun
      rw [Ledger.set_of_ne hyp, Ledger.set_of_ne hyc]
      exact hy.resolve_left hyp
  have hiff : ∀ {x o'}, heap.class? x = some o' → x ≠ c → ∀ y v,
      (l.record (.inherits c p)).Finds y x v ↔ l.Finds y x v := fun hx hxc =>
    h.toLinked.finds_iff (fun hy => h.away hfree hy) hother hx hxc
  refine ⟨h.toLinked.inherits hp hclass, fun {x o' y} hx hy => hsettled y ?_, fun {x o'} hx => ?_⟩
  · rw [hclass] at hx
    split at hx
    · cases hx
      cases hy
      exact .inl rfl
    · exact .inr (h.settled hx hy)
  · rw [hclass] at hx
    split at hx
    · next heq =>
      cases hx
      rw [heq]
      obtain ⟨m, hrm, -, hm⟩ := h.methods hc
      obtain ⟨n, hrn, hstrings, hn⟩ := h.methods hp
      have hunion : ∀ y, m.union n y = n y := by
        intro y
        have hmnone : m y = none := by
          rw [Option.eq_none_iff_forall_ne_some]
          intro v hv
          exact Ledger.not_finds (by rw [hempty]; rfl) hnone ((hm y v).1 hv)
        rw [NameTable.Map.union, hmnone, Option.or_none]
      refine Tables.mono (l := l.record (.inherits c p))
        ⟨m.union n, hms m n hrm hrn, fun y hy => hstrings y (hunion y ▸ hy), fun y v => ?_⟩
        (fun y _ text ht => by rw [hstring, ht]) fun _ _ => .rfl
      rw [hunion, hn, Ledger.finds_of_superclass (c := c) (p := p) (by rw [hself]; rfl)
        (by rw [Ledger.superclass_inherits, if_pos rfl]), hiff hp (Ne.symm hne)]
    · next hxc =>
      exact (h.methods hx).mono (fun y _ text ht => by rw [hstring, ht]) (hiff hx hxc)

end Events

end Heap

namespace State

variable {s t : State}

/-- What concerns neither generators nor classes preserves classes. -/
theorem Lasts.preserves (h : s.Lasts t) : Heap.Preserves s.heap t.heap where
  old hc := Heap.class?_eq_some.2 (h.old rfl (Heap.class?_eq_some.1 hc))
  superclass {c o p q} hc ho hp := by
    refine Heap.class?_eq_some.2 (h.kept rfl (Heap.class?_eq_some.1 hp)
      (.inr ⟨c, _, Heap.class?_eq_some.1 hc, ?_⟩))
    simp [Object.references, ho]
  names {c o x text} hc hx ht := by
    refine Heap.string?_eq_some.2 (h.kept rfl (Heap.string?_eq_some.1 ht)
      (.inr ⟨c, _, Heap.class?_eq_some.1 hc, ?_⟩))
    simp [Object.references, hx]

/-- What is retained is preserved. -/
theorem Retains.preserves (h : s.Retains t) : Heap.Preserves s.heap t.heap :=
  Heap.preserves_of_eq h.class? h.string?

variable {l : Ledger} {event : Option ClassEvent}

/-- What a turn does to the classes of a heap. -/
theorem Turn.linked (h : Turn event s t) (ht : s.heap.Tidy) (hl : s.heap.Linked l) :
    t.heap.Linked (l.after event.toList) := by
  cases event with
  | none => exact hl.mono (h.retains ht).preserves
  | some e =>
    cases h with
    | made text =>
      exact hl.made (Heap.class?_fresh ht _) rfl fun x => Heap.class?_made x ht _
    | inherits hc hp hb => exact hl.inherits hp fun x => Heap.class?_mapClass _ x _ _ hc
    | defines method hc hn => exact hl.defines hc fun x => Heap.class?_mapClass _ x _ _ hc

/-- What a turn in order does to the methods of classes. -/
theorem Turn.follows (h : Turn event s t) (ht : s.heap.Tidy) (hl : s.heap.Follows l)
    (ho : l.Obeys Ledger.Orderly event.toList) : t.heap.Follows (l.after event.toList) := by
  cases event with
  | none => exact hl.mono (h.retains ht).preserves
  | some e =>
    cases h with
    | made text =>
      exact hl.made (Heap.class?_fresh ht _) rfl rfl (fun x => Heap.class?_made x ht _)
        fun x => Heap.string?_made x ht _
    | inherits hc hp hb =>
      exact hl.inherits hc hp ho.1 (fun _ _ hm hn => hm.merge hn)
        (fun x => Heap.class?_mapClass _ x _ _ hc) fun x => Heap.string?_mapClass _ x _ _
    | defines method hc hn =>
      obtain ⟨text, htext, hhash⟩ := hn
      exact hl.defines hc ho.1 htext hhash (fun x => Heap.class?_mapClass _ x _ _ hc)
        fun x => Heap.string?_mapClass _ x _ _

end State

end ScriptEngine
