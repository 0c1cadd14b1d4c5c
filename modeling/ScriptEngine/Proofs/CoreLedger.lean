import ScriptEngine.Proofs.Declaring

/-!
# The ledger of the core classes

Installing the core module declares its classes one by one: each inherits from a class that is there
already and then gets its methods. What that amounts to is noted down beside the installation, as if
scripts had declared the classes. The heap of a machine that has run nothing follows the ledger of
these notes, in which every chain of superclasses ends.
-/

namespace ScriptEngine

/-- A class stays the same object in every heap that grows out of the first, unless it is the
exception. -/
theorem Heap.Grows.class? {except : Handle → Prop} {heap heap' : Heap}
    (h : Heap.Grows except heap heap') {x : Handle} {o : ClassObject} (hx : ¬ except x)
    (hc : heap.class? x = some o) : heap'.class? x = some o :=
  Heap.class?_eq_some.2 (h.objects x _ (Heap.class?_eq_some.1 hc) hx)

namespace Core

/-- The core module before it has any class. -/
def startFrom (names : List String) (heap : Heap) : Installation :=
  let (heap, _) := internKeys heap names
  let (heap, name) := heap.intern (Text.octets moduleName)
  let (heap, module) := heap.insert (.module name .empty)
  let (heap, emptyText) := heap.intern (Text.octets "")
  let (heap, assertionText) := heap.intern (Text.octets "Assertion failed")
  ⟨heap, module, .empty, #[], emptyText, assertionText⟩

/-- Adds a method to a class and notes it down. -/
def noteMethod (owner : Handle) (r : Installation × List ClassEvent) (s : CoreSignature) :
    Installation × List ClassEvent :=
  let (_, key, h) := r.1.addNative s
  (r.1.addMethod owner s, r.2 ++ [.defines owner key (.object h)])

/-- Adds a class of the schedule and notes it down, then its methods. -/
def noteClass (r : Installation × List ClassEvent) (d : CoreClassDecl) :
    Installation × List ClassEvent :=
  let bare := r.1.addClass { d with methods := [] }
  let c := bare.classes.getD r.1.classes.size default
  let parent := d.superclass.bind fun p => r.1.classes[p.index]?
  d.methods.foldl (noteMethod c)
    (bare, r.2 ++ .made c :: (parent.map fun p => .inherits c p).toList)

/-- What installing the core module does to classes. -/
def notes (settings : Settings) : List ClassEvent :=
  let heap := Heap.create settings.firstGcThreshold settings.heapGrowRate settings.maxHeapBytes
  (CoreClassDecl.schedule.foldl noteClass (startFrom (Special.table.map (·.2)) heap, [])).2

/-- What is known of the core classes. -/
def ledger (settings : Settings) : Ledger := Ledger.empty.after (notes settings)

/-! ## Notes are about what is done -/

variable {i : Installation} {r : Installation × List ClassEvent} {heap heap' : Heap}

/-- Noting methods does to the installation what adding them does. -/
theorem foldl_noteMethod_fst (owner : Handle) (methods : List CoreSignature) :
    (methods.foldl (noteMethod owner) r).1 = methods.foldl (Installation.addMethod owner) r.1 := by
  induction methods generalizing r with
  | nil => rfl
  | cons s methods ih => exact ih

/-- A class without methods of its own. -/
def bareClass (i : Installation) (d : CoreClassDecl) : Heap × Handle :=
  let (heap, key) := i.heap.internKey d.name
  let superclass := d.superclass.bind fun c => i.classes[c.index]?
  let methods := (superclass.map (Installation.methodsOf heap)).getD .empty
  heap.insert (.classObject ⟨key.handle, superclass, methods, d.builtin⟩)

/-- A class declared without its methods is the installation's own bare class. -/
theorem addClass_bare (i : Installation) (d : CoreClassDecl) :
    i.addClass { d with methods := [] } =
      { i with
        heap := (bareClass i d).1
        globals := i.globals.insert (i.heap.internKey d.name).2 (.object (bareClass i d).2)
        classes := i.classes.push (bareClass i d).2 } := rfl

/-- A class is installed by making it without its methods and adding them one by one. -/
theorem addClass_eq (i : Installation) (d : CoreClassDecl) : i.addClass d =
    d.methods.foldl (Installation.addMethod (bareClass i d).2)
      (i.addClass { d with methods := [] }) := rfl

/-- What is noted when a class is added. -/
theorem noteClass_eq (d : CoreClassDecl) : noteClass r d =
    d.methods.foldl (noteMethod (bareClass r.1 d).2)
      (r.1.addClass { d with methods := [] }, r.2 ++ .made (bareClass r.1 d).2 ::
        ((d.superclass.bind fun p => r.1.classes[p.index]?).map fun p =>
          .inherits (bareClass r.1 d).2 p).toList) := by
  have hback : (r.1.addClass { d with methods := [] }).classes.getD r.1.classes.size default =
      (bareClass r.1 d).2 := by
    rw [addClass_bare, Array.getD_eq_getD_getElem?]
    simp
  unfold noteClass
  dsimp only
  rw [hback]

/-- Noting a class does to the installation what adding it does. -/
theorem noteClass_fst (d : CoreClassDecl) : (noteClass r d).1 = r.1.addClass d := by
  rw [noteClass_eq, foldl_noteMethod_fst]
  exact (addClass_eq r.1 d).symm

/-- Noting classes does to the installation what adding them does. -/
theorem foldl_noteClass_fst (decls : List CoreClassDecl) :
    (decls.foldl noteClass r).1 = decls.foldl Installation.addClass r.1 := by
  induction decls generalizing r with
  | nil => rfl
  | cons d decls ih => rw [List.foldl_cons, List.foldl_cons, ih, noteClass_fst]

/-! ## The heap follows the notes -/

/-- What holds while classes are added. -/
structure Noted (r : Installation × List ClassEvent) : Prop where
  interned : r.1.heap.Interned
  follows : r.1.heap.Follows (Ledger.empty.after r.2)
  grounded : (Ledger.empty.after r.2).Grounded
  classes : ∀ h ∈ r.1.classes, ∃ o, r.1.heap.class? h = some o

/-- Making the object of a core function leaves classes alone. -/
theorem preserves_addNative (hi : i.heap.Interned) (s : CoreSignature) :
    i.heap.Preserves (i.addNative s).1.heap :=
  (Heap.preserves_intern hi.toTidy _).trans
    (Heap.preserves_insert (hi.internKey s.name).1.toTidy rfl fun _ => rfl)

/-- A method is given to a class that nobody inherits from. -/
theorem Noted.noteMethod (h : Noted r) {owner : Handle} {o : ClassObject}
    (hc : r.1.heap.class? owner = some o)
    (hfree : (Ledger.empty.after r.2 owner).settled = false) (s : CoreSignature) :
    Noted (Core.noteMethod owner r s) ∧
      (∃ o', (Core.noteMethod owner r s).1.heap.class? owner = some o') ∧
      (Ledger.empty.after (Core.noteMethod owner r s).2 owner).settled = false := by
  obtain ⟨hgrow, hname, -⟩ := Installation.grows_addNative h.interned s
  have hc₁ := hgrow.class? not_false hc
  have hheap : (Core.noteMethod owner r s).1.heap = ((r.1.addNative s).1.heap.update owner
      (Object.mapClass fun c => { c with
        methods := c.methods.insert (r.1.addNative s).2.1 (.object (r.1.addNative s).2.2) })).resize
          owner := rfl
  have hlog : Ledger.empty.after (Core.noteMethod owner r s).2 = (Ledger.empty.after r.2).record
      (.defines owner (r.1.addNative s).2.1 (.object (r.1.addNative s).2.2)) := by
    unfold Core.noteMethod
    rw [Ledger.after_append]
    rfl
  have hclass : ∀ x, (Core.noteMethod owner r s).1.heap.class? x = _ := fun x =>
    hheap ▸ Heap.class?_mapClass _ x owner _ hc₁
  have hkept : ∀ x, (∃ o, r.1.heap.class? x = some o) →
      ∃ o, (Core.noteMethod owner r s).1.heap.class? x = some o := by
    rintro x ⟨k, hk⟩
    rw [hclass]
    split
    · exact ⟨_, rfl⟩
    · exact ⟨k, hgrow.class? not_false hk⟩
  obtain ⟨-, hstring⟩ := hgrow.interned.lookupKey.1 hname
  refine ⟨⟨?_, ?_, ?_, fun x hx => hkept x (h.classes x hx)⟩, hkept owner ⟨o, hc⟩, ?_⟩
  · rw [hheap]
    refine (Heap.Interned.resize (hgrow.interned.update fun text ht => ?_).1 owner).1
    rw [Heap.class?_eq_some.1 hc₁] at ht
    cases ht
  · rw [hlog]
    refine (h.follows.mono (preserves_addNative h.interned s)).defines hc₁ hfree hstring
      (hgrow.interned.hash_lookupKey hname).2.symm hclass fun x => ?_
    exact hheap ▸ Heap.string?_mapClass _ x owner _
  · rw [hlog]
    exact h.grounded.record trivial
  · rw [hlog]
    simp [Ledger.record, hfree]

/-- Methods noted for a class that is not settled follow the heap they are added to. -/
theorem Noted.noteMethods {owner : Handle} (methods : List CoreSignature) (h : Noted r)
    (hc : ∃ o, r.1.heap.class? owner = some o)
    (hfree : (Ledger.empty.after r.2 owner).settled = false) :
    Noted (methods.foldl (Core.noteMethod owner) r) := by
  induction methods generalizing r with
  | nil => exact h
  | cons s methods ih =>
    obtain ⟨o, hc⟩ := hc
    obtain ⟨hnoted, hc', hfree'⟩ := h.noteMethod hc hfree s
    exact ih hnoted hc' hfree'

/-- The handle of a new object does not depend on the object. -/
theorem insert_handle (heap : Heap) (o o' : Object) : (heap.insert o).2 = (heap.insert o').2 := by
  obtain ⟨cells, free, strings, bytes, next, first, rate, limit, disabled, stats, clear⟩ := heap
  cases free <;> rfl

/-- A table of an empty map adds nothing to another one. -/
theorem represents_union_empty {hashOf : Handle → UInt32} {t : NameTable} {m n : NameTable.Map}
    (hm : NameTable.Represents hashOf .empty m) (hn : NameTable.Represents hashOf t n) :
    NameTable.Represents hashOf t (m.union n) := by
  have hunion : m.union n = n := by
    funext x
    rw [NameTable.Map.union, hm.eq_none rfl, Option.or_none]
  rwa [hunion]

section NewClass

variable {l : Ledger} {n : Handle} {b : Bool}

/-- A class without a superclass. -/
theorem follows_root (hi : heap.Interned) (hl : heap.Follows l) {o : ClassObject}
    (ho : o = ⟨n, none, .empty, b⟩) {c : Handle}
    (hc : (heap.insert (.classObject o)).2 = c) :
    (heap.insert (.classObject o)).1.Follows (l.record (.made c)) := by
  subst ho hc
  exact hl.made (Heap.class?_fresh hi.toTidy _) rfl rfl (fun x => Heap.class?_made x hi.toTidy _)
    fun x => Heap.string?_made x hi.toTidy _

/-- A class that begins with the methods of its superclass inherits from it as soon as it is
made. -/
theorem follows_child (hi : heap.Interned) (hl : heap.Follows l) {parent : Handle}
    {p : ClassObject} (hp : heap.class? parent = some p) {o : ClassObject}
    (ho : o = ⟨n, some parent, p.methods, b⟩) {c : Handle}
    (hc : (heap.insert (.classObject o)).2 = c) (hne : c ≠ parent) :
    (heap.insert (.classObject o)).1.Follows
      ((l.record (.made c)).record (.inherits c parent)) := by
  -- First the class is there without a superclass.
  let bare : ClassObject := ⟨n, none, .empty, b⟩
  have hsame : (heap.insert (.classObject bare)).2 = c := hc ▸ insert_handle heap _ _
  have hclass := fun x => Heap.class?_made x hi.toTidy o
  have hclass₁ := fun x => Heap.class?_made x hi.toTidy bare
  rw [hc] at hclass
  rw [hsame] at hclass₁
  have hrecord : l.record (.made c) c = ⟨none, [], false⟩ := Ledger.set_self l c _
  refine (follows_root hi hl (o := bare) rfl hsame).inherits (o := bare) (q := p)
    ?_ ?_ ⟨hne, by rw [hrecord], by rw [hrecord], by rw [hrecord]⟩
    (fun m n hm hn => represents_union_empty hm hn) (fun x => ?_) fun x => ?_
  · rw [hclass₁, if_pos rfl]
  · rw [hclass₁, if_neg (Ne.symm hne), hp]
  · rw [hclass, hclass₁, ho]
    split <;> rfl
  · exact (Heap.string?_made x hi.toTidy o).trans (Heap.string?_made x hi.toTidy bare).symm

/-- No chain of superclasses leads from a class that is there to one that is not. -/
theorem linked_below (hl : heap.Linked l) {c x y : Handle}
    (hx : ∃ o, heap.class? x = some o)
    (hb : (l.record (.made c)).Below x y) : ∃ o, heap.class? y = some o := by
  induction hb with
  | refl => exact hx
  | tail _ hp ih =>
    obtain ⟨o, ho⟩ := ih
    rw [Ledger.superclass_made] at hp
    split at hp
    · cases hp
    · exact hl.live ho ((hl.superclass ho).symm.trans hp)

/-- What is noted of a class before it gets methods. -/
theorem noted_bare (hi : heap.Interned) (hl : heap.Follows l) (hg : l.Grounded)
    {parent : Option Handle} (hp : ∀ p ∈ parent, ∃ o, heap.class? p = some o) {o : ClassObject}
    (ho : o = ⟨n, parent, (parent.map (Installation.methodsOf heap)).getD .empty, b⟩)
    {c : Handle} (hc : (heap.insert (.classObject o)).2 = c) {l' : Ledger}
    (hl' : l' = (l.record (.made c)).after (parent.map fun p => .inherits c p).toList) :
    (heap.insert (.classObject o)).1.Follows l' ∧ l'.Grounded ∧ (l' c).settled = false := by
  have hmade : (l.record (.made c)).Grounded := hg.record (e := .made c) trivial
  have hrecord : l.record (.made c) c = ⟨none, [], false⟩ := Ledger.set_self l c _
  cases parent with
  | none =>
    subst hl'
    exact ⟨follows_root hi hl ho hc, hmade, by simp [Ledger.after, hrecord]⟩
  | some parent =>
    obtain ⟨p, hp⟩ := hp parent rfl
    have hne : c ≠ parent := by
      rintro rfl
      rw [← hc, Heap.class?_fresh hi.toTidy] at hp
      cases hp
    have hmethods : Installation.methodsOf heap parent = p.methods := by
      unfold Installation.methodsOf
      rw [Heap.class?_eq_some.1 hp]
    rw [Option.map_some, Option.getD_some, hmethods] at ho
    subst hl'
    refine ⟨follows_child hi hl hp ho hc hne,
      hmade.record (e := .inherits c parent) fun hbelow => ?_, ?_⟩
    · obtain ⟨k, hk⟩ := linked_below hl.toLinked ⟨p, hp⟩ hbelow
      rw [← hc, Heap.class?_fresh hi.toTidy] at hk
      cases hk
    · change ((l.record (.made c)).record (.inherits c parent) c).settled = false
      unfold Ledger.record
      dsimp only
      rw [Ledger.set_of_ne hne, Ledger.set_self, Ledger.set_self]

end NewClass

/-- A class of the schedule is added. -/
theorem Noted.noteClass (h : Noted r) (d : CoreClassDecl) : Noted (Core.noteClass r d) := by
  rw [noteClass_eq]
  obtain ⟨hgrow, hname⟩ := Heap.grows_internKey h.interned d.name
  have hparent : ∀ p ∈ d.superclass.bind fun p => r.1.classes[p.index]?,
      ∃ o, (r.1.heap.internKey d.name).1.class? p = some o := by
    intro p hp
    obtain ⟨k, -, hk⟩ := Option.bind_eq_some_iff.1 hp
    obtain ⟨o, ho⟩ := h.classes p (Array.mem_of_getElem? hk)
    exact ⟨o, hgrow.class? not_false ho⟩
  obtain ⟨hfollows, hgrounded, hfree⟩ := noted_bare (b := d.builtin)
    (n := (r.1.heap.internKey d.name).2.handle) hgrow.interned
    (h.follows.mono (Heap.preserves_intern h.interned.toTidy _)) h.grounded hparent rfl rfl rfl
  have hlog : ∀ rest, Ledger.empty.after (r.2 ++ .made (bareClass r.1 d).2 :: rest) =
      ((Ledger.empty.after r.2).record (.made (bareClass r.1 d).2)).after rest :=
    fun rest => Ledger.after_append _ _ _
  have hbare : ∀ x o, r.1.heap.class? x = some o → (bareClass r.1 d).1.class? x = some o := by
    intro x o hx
    have hx := hgrow.class? not_false hx
    refine (Heap.class?_made x hgrow.interned.toTidy _).trans ?_
    rw [if_neg, hx]
    rintro rfl
    rw [Heap.class?_fresh hgrow.interned.toTidy] at hx
    cases hx
  have hself : ∃ o, (bareClass r.1 d).1.class? (bareClass r.1 d).2 = some o :=
    ⟨_, (Heap.class?_made _ hgrow.interned.toTidy _).trans (if_pos rfl)⟩
  refine Noted.noteMethods d.methods ⟨?_, ?_, ?_, fun x hx => ?_⟩ hself ?_
  · exact (hgrow.interned.insert _).1
  · exact (hlog _).symm ▸ hfollows
  · exact (hlog _).symm ▸ hgrounded
  · rw [addClass_bare, Array.mem_push] at hx
    obtain hx | rfl := hx
    · obtain ⟨o, ho⟩ := h.classes x hx
      exact ⟨o, hbare x o ho⟩
    · exact hself
  · exact (hlog _).symm ▸ hfree

/-- Classes noted one after the other follow the heap they are added to. -/
theorem Noted.noteClasses (decls : List CoreClassDecl) (h : Noted r) :
    Noted (decls.foldl Core.noteClass r) := by
  induction decls generalizing r with
  | nil => exact h
  | cons d decls ih => exact ih (h.noteClass d)

/-! ## The whole installation -/

/-- Interning the names of the core module keeps every class and every key. -/
theorem preserves_internKeys (hi : heap.Interned) (names : List String) (keys : Array Key) :
    let heap' := (names.foldl (fun (heap, keys) name =>
      let (heap, key) := heap.internKey name
      (heap, keys.push key)) (heap, keys)).1
    heap'.Interned ∧ heap.Preserves heap' := by
  induction names generalizing heap keys with
  | nil => exact ⟨hi, Heap.preserves_of_eq (fun _ => rfl) fun _ => rfl⟩
  | cons name names ih =>
    obtain ⟨hi', hp⟩ := ih (hi.internKey name).1 (keys.push (heap.internKey name).2)
    exact ⟨hi', (Heap.preserves_intern hi.toTidy _).trans hp⟩

/-- Before the first class nothing is noted. -/
theorem noted_startFrom (hi : heap.Interned) (hnone : ∀ x, heap.class? x = none)
    (names : List String) : Noted (startFrom names heap, []) := by
  obtain ⟨hi₁, hp₁⟩ := preserves_internKeys hi names #[]
  have hboth : (startFrom names heap).heap.Interned ∧
      heap.Preserves (startFrom names heap).heap := by
    unfold startFrom internKeys
    generalize names.foldl _ (heap, #[]) = r at hi₁ hp₁
    obtain ⟨heap₁, keys⟩ := r
    have hi₂ := (hi₁.intern (Text.octets moduleName)).1
    have hi₃ := (hi₂.insert (.module (heap₁.intern (Text.octets moduleName)).2 .empty)).1
    have hi₄ := (hi₃.intern (Text.octets "")).1
    refine ⟨(hi₄.intern (Text.octets "Assertion failed")).1, hp₁.trans ?_⟩
    exact (Heap.preserves_intern hi₁.toTidy _).trans
      ((Heap.preserves_insert hi₂.toTidy rfl fun _ => rfl).trans
        ((Heap.preserves_intern hi₃.toTidy _).trans (Heap.preserves_intern hi₄.toTidy _)))
  have hno : ∀ {x o}, (startFrom names heap).heap.class? x ≠ some o := by
    intro x o hx
    have hx := hboth.2.old hx
    rw [hnone] at hx
    cases hx
  exact ⟨hboth.1, ⟨⟨fun hx => absurd hx hno, fun hx => absurd hx hno⟩,
    fun hx => absurd hx hno, fun hx => absurd hx hno⟩, Ledger.grounded_empty, nofun⟩

/-- Functions are no classes. -/
theorem follows_addFunctions {l : Ledger} (functions : List CoreSignature)
    (hi : i.heap.Interned) (hl : i.heap.Follows l) :
    (functions.foldl Installation.addFunction i).heap.Interned ∧
      (functions.foldl Installation.addFunction i).heap.Follows l := by
  induction functions generalizing i with
  | nil => exact ⟨hi, hl⟩
  | cons s functions ih =>
    exact ih (Installation.grows_addNative hi s).1.interned (hl.mono (preserves_addNative hi s))

/-- Nor is the module. -/
theorem preserves_update_module (heap : Heap) (x : Handle) (globals : NameTable) :
    heap.Preserves ((heap.update x fun
      | .module name _ => .module name globals
      | o => o).resize x) := by
  refine Heap.preserves_of_eq (fun y => ?_) fun y => ?_
  · unfold Heap.class?
    rw [Heap.get?_resize, Heap.get?_update]
    by_cases h : y = x
    · rw [if_pos h]
      cases heap.get? y with
      | none => rfl
      | some o => cases o <;> rfl
    · rw [if_neg h]
  · unfold Heap.string?
    rw [Heap.get?_resize, Heap.get?_update]
    by_cases h : y = x
    · rw [if_pos h]
      cases heap.get? y with
      | none => rfl
      | some o => cases o <;> rfl
    · rw [if_neg h]

/-- Installation of any names, classes and functions. -/
theorem follows_installFrom (hi : heap.Interned) (hnone : ∀ x, heap.class? x = none)
    (names : List String) (decls : List CoreClassDecl) (functions : List CoreSignature) :
    let l := Ledger.empty.after (decls.foldl noteClass (startFrom names heap, [])).2
    (installFrom names decls functions heap).1.Follows l ∧ l.Grounded := by
  have hnoted := (noted_startFrom hi hnone names).noteClasses decls
  have hfirst : (decls.foldl noteClass (startFrom names heap, [])).1 =
      decls.foldl Installation.addClass (startFrom names heap) := foldl_noteClass_fst decls
  obtain ⟨-, hfollows⟩ := follows_addFunctions functions
    (hfirst ▸ hnoted.interned) (hfirst ▸ hnoted.follows)
  exact ⟨hfollows.mono (preserves_update_module _ _ _), hnoted.grounded⟩

end Core

/-- The heap of an installed core follows the notes taken while it was installed. -/
theorem Core.follows_install (settings : Settings) :
    let heap := Heap.create settings.firstGcThreshold settings.heapGrowRate settings.maxHeapBytes
    (Core.install heap).1.Interned ∧ (Core.install heap).1.Follows (Core.ledger settings) ∧
      (Core.ledger settings).Grounded := by
  have hi := State.interned_create settings.firstGcThreshold settings.heapGrowRate
    settings.maxHeapBytes
  have hnone : ∀ x, (Heap.create settings.firstGcThreshold settings.heapGrowRate
      settings.maxHeapBytes).class? x = none := fun _ => rfl
  unfold Core.ledger Core.notes
  generalize Heap.create settings.firstGcThreshold settings.heapGrowRate settings.maxHeapBytes =
    heap at hi hnone ⊢
  have hinst := (Core.installed_installFrom hi (Special.table.map (·.2))
    CoreClassDecl.schedule coreFunctions).1.interned
  obtain ⟨hfollows, hgrounded⟩ := Core.follows_installFrom hi hnone (Special.table.map (·.2))
    CoreClassDecl.schedule coreFunctions
  rw [← Core.install_eq] at hinst hfollows
  exact ⟨hinst, hfollows, hgrounded⟩

/-- A machine that begins with an installed core follows what its heap follows. -/
theorem State.follows_withCore {l : Ledger} {heap : Heap} (hi : heap.Interned)
    (h : heap.Follows l) (settings : Settings) (core : Core) :
    (State.withCore settings heap core).heap.Follows l :=
  h.mono (Heap.preserves_intern hi.toTidy _)

/-- The classes of a machine that has run nothing follow the ledger of the core classes. -/
theorem State.follows_create (settings : Settings) :
    (State.create settings).heap.Follows (Core.ledger settings) ∧
      (Core.ledger settings).Grounded := by
  obtain ⟨hi, hfollows, hgrounded⟩ := Core.follows_install settings
  rw [State.create_eq]
  exact ⟨State.follows_withCore hi hfollows settings _, hgrounded⟩

end ScriptEngine
