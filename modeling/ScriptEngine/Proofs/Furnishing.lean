import ScriptEngine.Proofs.Lookup
import ScriptEngine.Proofs.Raising
import ScriptEngine.Proofs.Returning

/-!
# Core classes keep the methods they are installed with

Installing the core module gives each class of the schedule the functions declared for it, and what
it does not declare is what its superclass has. Nothing but a change of a core class itself takes
that away: collections free neither the classes nor their methods, and whatever else a run does
leaves both alone. Strings carry the hash of their octets throughout.
-/

namespace ScriptEngine

open Bytecode

/-- The method of a name that a class has of its own: the one declared last. -/
def CoreClassDecl.own? (d : CoreClassDecl) (name : String) : Option CoreSignature :=
  d.methods.reverse.find? (·.name == name)

namespace Heap

/-- Strings carry the hash of their octets. -/
def Hashed (heap : Heap) : Prop :=
  ∀ x text, heap.get? x = some (.string text) → text.hash = Text.fnv1a text.data

/-- A value is an object of a core function with the given signature. -/
def Offers (heap : Heap) (v : Option Value) (g : CoreSignature) : Prop :=
  ∃ x o, v = some (.object x) ∧ heap.get? x = some (.native o) ∧ o.Implements g

/-- What a class finds under a name is its own core function, or else what its superclass finds. -/
def Supplies (heap : Heap) (found : Nat → String → Option Value) (d : CoreClassDecl) (name : String)
    (v : Option Value) : Prop :=
  match d.own? name with
  | some g => heap.Offers v g
  | none => v = d.superclass.bind fun c => found c.index name

/-- Classes have the methods that are declared for them, which are found in this way. -/
def Furnishes (heap : Heap) (classes : Array Handle) (decls : List CoreClassDecl)
    (found : Nat → String → Option Value) : Prop :=
  ∀ j d, decls[j]? = some d →
    ∃ h o, classes[j]? = some h ∧ heap.get? h = some (.classObject o) ∧
      Binds heap o.methods (found j) ∧ ∀ name, heap.Supplies found d name (found j name)

variable {heap heap' : Heap} {classes : Array Handle} {decls : List CoreClassDecl}
  {found : Nat → String → Option Value}

/-! ## Strings and their hashes -/

section Hashed

/-- Strings that were there carry their hashes. -/
theorem Hashed.of_old (h : heap.Hashed)
    (hold : ∀ x text, heap'.get? x = some (.string text) → heap.get? x = some (.string text)) :
    heap'.Hashed :=
  fun x text hx => h x text (hold x text hx)

/-- A new object does, if it does in case it is a string. -/
theorem Hashed.insert (h : heap.Hashed) (ht : heap.Tidy) {o : Object}
    (ho : ∀ text, o = .string text → text.hash = Text.fnv1a text.data) :
    (heap.insert o).1.Hashed := by
  intro x text hx
  rw [get?_insert ht] at hx
  split at hx
  · exact ho text (Option.some.inj hx)
  · exact h x text hx

/-- A text does. -/
theorem Hashed.intern (h : heap.Hashed) (ht : heap.Tidy) (data : ByteArray) :
    (heap.intern data).1.Hashed := by
  unfold Heap.intern
  dsimp only
  split
  · exact h
  · refine (h.insert ht (o := .string ⟨data, Text.fnv1a data, true⟩) ?_).of_old fun _ _ => id
    rintro _ ⟨⟩
    rfl

/-- A change in place that makes no string. -/
theorem Hashed.update (h : heap.Hashed) (y : Handle) {f : Object → Object}
    (hf : ∀ o, heap.get? y = some o → ∀ text, f o = .string text → o = .string text) :
    (heap.update y f).Hashed := by
  refine h.of_old fun x text hx => ?_
  rw [get?_update] at hx
  split at hx
  · next heq =>
    obtain ⟨o, ho, htext⟩ := Option.map_eq_some_iff.1 hx
    rw [ho, hf o (heq ▸ ho) text htext]
  · exact hx

/-- A new size changes no string. -/
theorem Hashed.resize (h : heap.Hashed) (y : Handle) : (heap.resize y).Hashed :=
  h.of_old fun x _ hx => (get?_resize heap y x) ▸ hx

/-- After a collection the strings that are left carry their hashes. -/
theorem Hashed.collect (h : heap.Hashed) (roots : List Handle) : (heap.collect roots).1.Hashed :=
  h.of_old fun _ _ hx => get?_collect (isLive_of_get? hx) ▸ hx

end Hashed

/-! ## What keeps the methods of classes -/

/-- A function of the host stays one. -/
theorem Offers.mono {v : Option Value} {g : CoreSignature} (h : heap.Offers v g)
    (hkept : ∀ x o, v = some (.object x) → heap.get? x = some (.native o) →
      heap'.get? x = some (.native o)) : heap'.Offers v g := by
  obtain ⟨x, o, hv, hx, ho⟩ := h
  exact ⟨x, o, hv, hkept x o hv hx, ho⟩

/-- It is enough that the classes, their methods and the names of these are kept. -/
theorem Furnishes.mono (h : heap.Furnishes classes decls found) (hi : heap.Interned)
    (hi' : heap'.Interned)
    (hclass : ∀ x ∈ classes, ∀ o, heap.get? x = some (.classObject o) →
      heap'.get? x = some (.classObject o))
    (hnative : ∀ x ∈ classes, ∀ o, heap.get? x = some (.classObject o) →
      ∀ y ∈ Object.tableHandles o.methods, ∀ n, heap.get? y = some (.native n) →
        heap'.get? y = some (.native n))
    (hkey : ∀ x ∈ classes, ∀ o, heap.get? x = some (.classObject o) → ∀ name k,
      heap.lookupKey name = some k → k.handle ∈ Object.tableHandles o.methods →
        heap'.lookupKey name = some k) : heap'.Furnishes classes decls found := by
  intro j d hd
  obtain ⟨h, o, hj, hget, hb, hsupply⟩ := h j d hd
  have hmem := Array.mem_of_getElem? hj
  refine ⟨h, o, hj, hclass h hmem o hget, hb.mono hi hi' fun name k hk hs => ?_, fun name => ?_⟩
  · obtain ⟨v, hv⟩ := Option.isSome_iff_exists.1 hs
    exact hkey h hmem o hget name k hk (hb.mem_tableHandles hi hk hv).1
  · have hname := hsupply name
    unfold Supplies at hname ⊢
    split
    · next g hg =>
      rw [hg] at hname
      refine hname.mono fun x n hv hx => hnative h hmem o hget x ?_ n hx
      cases hk : heap.lookupKey name with
      | some k => exact (hb.mem_tableHandles hi hk hv).2 x rfl
      | none =>
        obtain ⟨-, -, -, -, hnone⟩ := hb
        rw [hnone name hk] at hv
        cases hv
    · next hg =>
      rw [hg] at hname
      exact hname

/-- It is enough that nothing settled changes. -/
theorem Furnishes.of_settled (h : heap.Furnishes classes decls found) (hi : heap.Interned)
    (hi' : heap'.Interned)
    (hkept : ∀ x o, o.isSettled = true → heap.get? x = some o → heap'.get? x = some o)
    (hkeys : ∀ name k, heap.lookupKey name = some k → heap'.lookupKey name = some k) :
    heap'.Furnishes classes decls found :=
  h.mono hi hi' (fun x _ _ hget => hkept x _ rfl hget) (fun _ _ _ _ y _ _ hy => hkept y _ rfl hy)
    fun _ _ _ _ name k hk _ => hkeys name k hk

/-- Classes keep their methods on a heap that has grown. -/
theorem Furnishes.grows {except : Handle → Prop} (h : heap.Furnishes classes decls found)
    (hi : heap.Interned) (hg : Grows except heap heap')
    (hx : ∀ x o, heap.get? x = some o → except x → o.isSettled = false) :
    heap'.Furnishes classes decls found := by
  refine h.of_settled hi hg.interned (fun x o ho hget => hg.objects x o hget fun hex => ?_) hg.keys
  rw [hx x o hget hex] at ho
  cases ho

end Heap

/-! ## Installation -/

namespace Core.Installation

variable {i : Installation} {h : Handle} {c : ClassObject} {g : String → Option Value}

/-- The object of a core function. -/
def native (i : Installation) (s : CoreSignature) : NativeObject :=
  { name := s.name
    arity := s.arity
    defaults := (s.defaults.map i.default).toArray
    vararg := s.vararg
    module := i.module
    function := .core s.function }

/-- The native made of a signature implements it. -/
theorem implements_native (i : Installation) (s : CoreSignature) : (i.native s).Implements s :=
  ⟨rfl, rfl, by simp [native], rfl⟩

/-- The native that was added is on the heap. -/
theorem get?_addNative (hi : i.heap.Interned) (s : CoreSignature) :
    (i.addNative s).1.heap.get? (i.addNative s).2.2 = some (.native (i.native s)) :=
  (Heap.get?_insert (hi.internKey s.name).1.toTidy _ _).trans (if_pos rfl)

/-- It is no string. -/
theorem hashed_addNative (hh : i.heap.Hashed) (hi : i.heap.Interned) (s : CoreSignature) :
    (i.addNative s).1.heap.Hashed :=
  (hh.intern hi.toTidy _).insert (hi.internKey s.name).1.toTidy nofun

/-- A class gets a method. -/
theorem furnishes_addMethod (hh : i.heap.Hashed) (hi : i.heap.Interned)
    (hget : i.heap.get? h = some (.classObject c)) (hb : Heap.Binds i.heap c.methods g)
    (s : CoreSignature) :
    (addMethod h i s).heap.Hashed ∧ Heap.Grows (· = h) i.heap (addMethod h i s).heap ∧
      addMethod h i s = { i with heap := (addMethod h i s).heap } ∧
      ∃ c' v, (addMethod h i s).heap.get? h = some (.classObject c') ∧
        Heap.Binds (addMethod h i s).heap c'.methods
          (fun n => if n = s.name then v else g n) ∧
        (addMethod h i s).heap.Offers v s := by
  obtain ⟨hgrow, hname, -⟩ := grows_addNative hi s
  have hget₁ := hgrow.objects h _ hget not_false
  have hnative := get?_addNative hi s
  have hheap : (addMethod h i s).heap = ((i.addNative s).1.heap.update h
      (Object.mapClass fun c => { c with
        methods := c.methods.insert (i.addNative s).2.1 (.object (i.addNative s).2.2) })).resize h :=
    rfl
  have hsame : addMethod h i s = { i with heap := (addMethod h i s).heap } := rfl
  obtain ⟨hupdate, hget₂⟩ := Heap.grows_update (f := Object.mapClass fun c => { c with
    methods := c.methods.insert (i.addNative s).2.1 (.object (i.addNative s).2.2) }) (h := h)
    hgrow.interned (by rw [hget₁]; nofun)
  rw [hget₁] at hget₂
  rw [← hheap] at hupdate hget₂
  have hhashed : (addMethod h i s).heap.Hashed := by
    rw [hheap]
    refine ((hashed_addNative hh hi s).update h fun o ho text htext => ?_).resize h
    rw [hget₁] at ho
    cases ho
    cases htext
  have hoffer : (addMethod h i s).heap.Offers (some (.object (i.addNative s).2.2)) s := by
    refine ⟨_, i.native s, rfl, hupdate.objects _ _ hnative fun heq => ?_, implements_native i s⟩
    rw [heq, hget₁] at hnative
    cases hnative
  exact ⟨hhashed, hgrow.weaken.trans hupdate, hsame, _, _, hget₂,
    hupdate.binds hgrow.interned ((hgrow.binds hi hb).insert hgrow.interned hname _), hoffer⟩

/-- A class gets its methods, of which a later one replaces an earlier one. -/
theorem furnishes_addMethods (hh : i.heap.Hashed) (hi : i.heap.Interned)
    (hget : i.heap.get? h = some (.classObject c)) (hb : Heap.Binds i.heap c.methods g)
    (own : List CoreSignature) :
    (own.foldl (addMethod h) i).heap.Hashed ∧
      Heap.Grows (· = h) i.heap (own.foldl (addMethod h) i).heap ∧
      own.foldl (addMethod h) i = { i with heap := (own.foldl (addMethod h) i).heap } ∧
      ∃ c' g', (own.foldl (addMethod h) i).heap.get? h = some (.classObject c') ∧
        Heap.Binds (own.foldl (addMethod h) i).heap c'.methods g' ∧
        ∀ n, match own.reverse.find? (·.name == n) with
          | some s => (own.foldl (addMethod h) i).heap.Offers (g' n) s
          | none => g' n = g n := by
  induction own generalizing i c g with
  | nil => exact ⟨hh, .refl hi, rfl, c, g, hget, hb, fun n => rfl⟩
  | cons s own ih =>
    obtain ⟨hh₁, hgrow₁, hsame₁, c₁, v, hget₁, hb₁, hoffer⟩ := furnishes_addMethod hh hi hget hb s
    obtain ⟨hh₂, hgrow₂, hsame₂, c₂, g₂, hget₂, hb₂, hown⟩ := ih hh₁ hgrow₁.interned hget₁ hb₁
    refine ⟨hh₂, hgrow₁.trans hgrow₂, ?_, c₂, g₂, hget₂, hb₂, fun n => ?_⟩
    · rw [List.foldl_cons, hsame₂, hsame₁]
    · have hn := hown n
      rw [List.reverse_cons, List.find?_append]
      cases hfound : own.reverse.find? (·.name == n) with
      | some s' =>
        rw [hfound] at hn
        exact hn
      | none =>
        rw [hfound] at hn
        by_cases heq : s.name = n
        · rw [Option.none_or, List.find?_cons_of_pos (by simpa using heq)]
          rw [if_pos heq.symm] at hn
          refine hn ▸ hoffer.mono fun x o hv hx => hgrow₂.objects x _ hx ?_
          rintro rfl
          rw [hget₁] at hx
          cases hx
        · rw [Option.none_or, List.find?_cons_of_neg (by simpa using heq)]
          rw [if_neg (Ne.symm heq)] at hn
          exact hn

/-- What holds while classes are added. -/
structure Installed (i : Installation) (decls : List CoreClassDecl) : Prop where
  interned : i.heap.Interned
  hashed : i.heap.Hashed
  size : i.classes.size = decls.length
  order : ∀ d ∈ decls, ∀ c ∈ d.superclass, c.index < decls.length
  methods : ∃ found, i.heap.Furnishes i.classes decls found

variable {decls : List CoreClassDecl}

/-- A class of the schedule comes after its superclass. -/
theorem Installed.addClass (hf : i.Installed decls) (d : CoreClassDecl)
    (hd : ∀ c ∈ d.superclass, c.index < decls.length) :
    (i.addClass d).Installed (decls ++ [d]) := by
  obtain ⟨hgrow₁, hname⟩ := Heap.grows_internKey hf.interned d.name
  have hh₁ := hf.hashed.intern hf.interned.toTidy (Text.octets d.name)
  obtain ⟨found, hfound⟩ := hf.methods
  have hfound := hfound.grows hf.interned hgrow₁ (fun _ _ _ => False.elim)
  unfold Installation.addClass
  dsimp only
  generalize hr : i.heap.internKey d.name = r at hgrow₁ hname hfound
  have hh₁ : r.1.Hashed := hr ▸ hh₁
  obtain ⟨heap₁, key⟩ := r
  dsimp only at hgrow₁ hname hfound hh₁ ⊢
  have hi₁ := hgrow₁.interned
  -- the methods that the class starts with
  obtain ⟨t, g, ht, hb, hg⟩ : ∃ t g, (((d.superclass.bind fun c => i.classes[c.index]?).map
      (methodsOf heap₁)).getD .empty) = t ∧ Heap.Binds heap₁ t g ∧
        ∀ n, g n = d.superclass.bind fun c => found c.index n := by
    cases hsuper : d.superclass with
    | none => exact ⟨.empty, _, rfl, Heap.binds_empty heap₁, fun n => rfl⟩
    | some p =>
      have hlt := hd p hsuper
      obtain ⟨x, o, hx, hget, hb, -⟩ := hfound p.index decls[p.index] (List.getElem?_eq_getElem hlt)
      refine ⟨o.methods, found p.index, ?_, hb, fun n => rfl⟩
      simp only [Option.bind_some, hx, Option.map_some, Option.getD_some, methodsOf, hget]
  rw [ht]
  generalize d.superclass.bind (fun c => i.classes[c.index]?) = superclass
  -- the class before it gets methods of its own
  have hgrow₂ := Heap.grows_insert hi₁ (.classObject ⟨key.handle, superclass, t, d.builtin⟩)
  have hget₂ := Heap.get?_insert hi₁.toTidy (.classObject ⟨key.handle, superclass, t, d.builtin⟩)
    (heap₁.insert (.classObject ⟨key.handle, superclass, t, d.builtin⟩)).2
  rw [if_pos rfl] at hget₂
  have hfresh := Heap.get?_fresh hi₁.toTidy (.classObject ⟨key.handle, superclass, t, d.builtin⟩)
  have hh₂ := hh₁.insert hi₁.toTidy (o := .classObject ⟨key.handle, superclass, t, d.builtin⟩)
    fun _ heq => by cases heq
  generalize heap₁.insert (.classObject ⟨key.handle, superclass, t, d.builtin⟩) = r
    at hgrow₂ hget₂ hfresh hh₂ ⊢
  obtain ⟨heap₂, x⟩ := r
  dsimp only at hgrow₂ hget₂ hfresh hh₂ ⊢
  obtain ⟨hh₃, hgrow₃, hsame, c₃, g₃, hget₃, hb₃, hown⟩ := furnishes_addMethods
    (i := { i with
      heap := heap₂, globals := i.globals.insert key (.object x), classes := i.classes.push x })
    hh₂ hgrow₂.interned hget₂ (hgrow₂.binds hi₁ hb) d.methods
  generalize d.methods.foldl (addMethod x) _ = i' at hh₃ hgrow₃ hsame hget₃ hb₃ hown ⊢
  have hclasses : i'.classes = i.classes.push x := by rw [hsame]
  have hold : i'.heap.Furnishes i.classes decls found := by
    refine hfound.grows hi₁ (hgrow₂.weaken.trans hgrow₃) ?_
    rintro y o hy rfl
    rw [hfresh] at hy
    cases hy
  -- what is found in the class depends on those before it only
  let found' : Nat → String → Option Value := fun j => if j = decls.length then g₃ else found j
  have hsupply : ∀ d' ∈ decls ++ [d], ∀ name v, i'.heap.Supplies found d' name v →
      i'.heap.Supplies found' d' name v := by
    intro d' hd' name v hv
    have hlt : ∀ c ∈ d'.superclass, c.index < decls.length := by
      obtain hmem | hmem := List.mem_append.1 hd'
      · exact hf.order d' hmem
      · exact List.mem_singleton.1 hmem ▸ hd
    unfold Heap.Supplies at hv ⊢
    split
    · next s hs =>
      rw [hs] at hv
      exact hv
    · next hs =>
      rw [hs] at hv
      rw [hv]
      cases hc : d'.superclass with
      | none => rfl
      | some c => exact (congrFun (if_neg (Nat.ne_of_lt (hlt c hc))) name).symm
  refine ⟨hgrow₃.interned, hh₃, ?_, fun d' hd' c hc => ?_, found', fun j d' hd' => ?_⟩
  · rw [hclasses, Array.size_push, hf.size, List.length_append, List.length_singleton]
  · rw [List.length_append]
    obtain hmem | hmem := List.mem_append.1 hd'
    · exact Nat.lt_add_right _ (hf.order d' hmem c hc)
    · exact Nat.lt_add_right _ (hd c (List.mem_singleton.1 hmem ▸ hc))
  · have hmem := List.mem_of_getElem? hd'
    by_cases hj : j < decls.length
    · rw [List.getElem?_append_left hj] at hd'
      obtain ⟨y, o, hy, hget, hby, hs⟩ := hold j d' hd'
      have hfj : found' j = found j := if_neg (Nat.ne_of_lt hj)
      refine ⟨y, o, ?_, hget, hfj ▸ hby, fun name => hfj ▸ hsupply d' hmem name _ (hs name)⟩
      rw [hclasses, Array.getElem?_push_lt (hf.size ▸ hj), ← Array.getElem?_eq_getElem, hy]
    · rw [List.getElem?_append_right (Nat.not_lt.1 hj)] at hd'
      obtain ⟨hlt, rfl⟩ := List.getElem?_eq_some_iff.1 hd'
      obtain rfl : j = decls.length := by
        rw [List.length_singleton] at hlt
        omega
      have hfj : found' decls.length = g₃ := if_pos rfl
      refine ⟨x, c₃, ?_, hget₃, hfj ▸ hb₃, fun name => hfj ▸ hsupply _ hmem name _ ?_⟩
      · rw [hclasses, ← hf.size]
        exact Array.getElem?_push_size
      · have hn := hown name
        simp only [Nat.sub_self, List.getElem_cons_zero]
        unfold Heap.Supplies CoreClassDecl.own?
        split
        · next s hs =>
          rw [hs] at hn
          exact hn
        · next hs =>
          rw [hs] at hn
          rw [hn, hg]

/-- Classes are added. -/
theorem Installed.addClasses (rest : List CoreClassDecl) (hf : i.Installed decls)
    (hrest : ∀ j d, rest[j]? = some d → ∀ c ∈ d.superclass, c.index < decls.length + j) :
    (rest.foldl Installation.addClass i).Installed (decls ++ rest) := by
  induction rest generalizing i decls with
  | nil => simpa using hf
  | cons d rest ih =>
    have hd := hf.addClass d fun c hc => by simpa using hrest 0 d rfl c hc
    rw [List.foldl_cons, List.append_cons]
    refine ih hd fun j d' hd' c hc => ?_
    have hlt := hrest (j + 1) d' (by simpa using hd') c hc
    rw [List.length_append, List.length_singleton]
    omega

/-- Functions are added. -/
theorem Installed.addFunctions (functions : List CoreSignature) (hf : i.Installed decls) :
    (functions.foldl Installation.addFunction i).Installed decls := by
  induction functions generalizing i with
  | nil => exact hf
  | cons s functions ih =>
    obtain ⟨hgrow, -, -⟩ := grows_addNative hf.interned s
    obtain ⟨found, hfound⟩ := hf.methods
    exact ih ⟨hgrow.interned, hashed_addNative hf.hashed hf.interned s, hf.size, hf.order, found,
      hfound.grows hf.interned hgrow fun _ _ _ => False.elim⟩

/-- The core module gets its globals. -/
theorem Installed.publish (hf : i.Installed decls) (module : Handle) (globals : NameTable) :
    let heap := (i.heap.update module fun
      | .module name _ => .module name globals
      | o => o).resize module
    heap.Interned ∧ heap.Hashed ∧ ∃ found, heap.Furnishes i.classes decls found := by
  obtain ⟨hi₁, hkeys₁⟩ := State.texts_update_shell hf.interned (x := module) (f := fun
    | .module name _ => .module name globals
    | o => o) fun o _ => by cases o <;> rfl
  obtain ⟨hi₂, hkeys₂⟩ := hi₁.resize module
  obtain ⟨found, hfound⟩ := hf.methods
  refine ⟨hi₂, (hf.hashed.update module fun o _ _ ho => ?_).resize module, found,
    hfound.of_settled hf.interned hi₂ (fun x o ho hx => ?_) fun name k hk =>
      (hkeys₂ name).trans ((hkeys₁ name).trans hk)⟩
  · cases o <;> first | exact ho | cases ho
  · rw [Heap.get?_resize, Heap.get?_update, hx]
    split
    · cases o <;> first | rfl | cases ho
    · rfl

end Core.Installation

namespace Core

variable {heap : Heap}

/-- The names of special methods are interned. -/
theorem hashed_internKeys (hi : heap.Interned) (hh : heap.Hashed) (names : List String)
    (keys : Array Key) :
    let heap' := (names.foldl (fun (heap, keys) name =>
      let (heap, key) := heap.internKey name
      (heap, keys.push key)) (heap, keys)).1
    heap'.Interned ∧ heap'.Hashed := by
  induction names generalizing heap keys with
  | nil => exact ⟨hi, hh⟩
  | cons name names ih => exact ih (hi.internKey name).1 (hh.intern hi.toTidy _) _

/-- Before any class everything holds. -/
theorem installed_startFrom (hi : heap.Interned) (hh : heap.Hashed) (names : List String) :
    (startFrom names heap).Installed [] := by
  obtain ⟨hi₁, hh₁⟩ := hashed_internKeys hi hh names #[]
  have hboth : (startFrom names heap).heap.Interned ∧ (startFrom names heap).heap.Hashed := by
    unfold startFrom internKeys
    generalize names.foldl _ (heap, #[]) = r at hi₁ hh₁
    obtain ⟨heap₁, keys⟩ := r
    have hi₂ := (hi₁.intern (Text.octets moduleName)).1
    have hh₂ := hh₁.intern hi₁.toTidy (Text.octets moduleName)
    have hi₃ := (hi₂.insert (.module (heap₁.intern (Text.octets moduleName)).2 .empty)).1
    have hh₃ := hh₂.insert hi₂.toTidy
      (o := .module (heap₁.intern (Text.octets moduleName)).2 .empty) nofun
    have hi₄ := (hi₃.intern (Text.octets "")).1
    exact ⟨(hi₄.intern (Text.octets "Assertion failed")).1,
      (hh₃.intern hi₃.toTidy (Text.octets "")).intern hi₄.toTidy _⟩
  exact ⟨hboth.1, hboth.2, rfl, nofun, fun _ _ => none, nofun⟩

/-- Installation of any names, classes and functions. -/
theorem furnishes_installFrom (hi : heap.Interned) (hh : heap.Hashed) (names : List String)
    (decls : List CoreClassDecl) (functions : List CoreSignature)
    (horder : ∀ (j : Nat) (d : CoreClassDecl), decls[j]? = some d → ∀ c ∈ d.superclass,
      c.index < j) :
    let r := installFrom names decls functions heap
    r.1.Interned ∧ r.1.Hashed ∧ ∃ found, r.1.Furnishes r.2.classes decls found := by
  have hdone := ((installed_startFrom hi hh names).addClasses decls (by simpa using horder)).addFunctions
    functions
  exact hdone.publish _ _

end Core

/-- No class of the schedule comes before its superclass. -/
theorem CoreClassDecl.order_schedule : ∀ (j : Nat) (d : CoreClassDecl), schedule[j]? = some d →
    ∀ c ∈ d.superclass, c.index < j := by
  have hall : ∀ j : Fin schedule.length, ∀ c ∈ schedule[j].superclass, c.index < j := by decide
  intro j d hd c hc
  obtain ⟨hj, rfl⟩ := List.getElem?_eq_some_iff.1 hd
  exact hall ⟨j, hj⟩ c hc

namespace State

/-- Core classes have the methods they are installed with, the names the machine looks up have their
keys, and strings carry their hashes. -/
structure Furnished (s : State) : Prop where
  hashed : s.heap.Hashed
  specials : ∀ e ∈ Special.table, s.heap.lookupKey e.2 = some (s.special e.1) ∧
    s.special e.1 ∈ s.core.specials.toList
  methods : ∃ found, s.heap.Furnishes s.core.classes CoreClassDecl.schedule found

/-- A machine made with an installed core is furnished. -/
theorem furnished_withCore {heap : Heap} {core : Core} (settings : Settings)
    (hi : heap.Interned) (hh : heap.Hashed)
    (hm : ∃ found, heap.Furnishes core.classes CoreClassDecl.schedule found)
    (he : (withCore settings heap core).Equipped) : (withCore settings heap core).Furnished := by
  refine ⟨?_, he.specials, ?_⟩
  all_goals
    obtain ⟨hgrow, -⟩ := Heap.grows_internKey hi Core.moduleName
    have hh' : (heap.internKey Core.moduleName).1.Hashed := hh.intern hi.toTidy _
    unfold withCore
    generalize heap.internKey Core.moduleName = r at hgrow hh'
    obtain ⟨heap', key⟩ := r
  · exact hh'
  · obtain ⟨found, hfound⟩ := hm
    exact ⟨found, hfound.grows hi hgrow fun _ _ _ => False.elim⟩

/-- A machine that has run nothing is furnished. -/
theorem furnished_create (settings : Settings) : (create settings).Furnished := by
  have he := (fresh_create settings).1.toEquipped
  have hi := interned_create settings.firstGcThreshold settings.heapGrowRate settings.maxHeapBytes
  have hh : (Heap.create settings.firstGcThreshold settings.heapGrowRate
      settings.maxHeapBytes).Hashed := nofun
  rw [create_eq] at he ⊢
  generalize Heap.create settings.firstGcThreshold settings.heapGrowRate settings.maxHeapBytes =
    heap at hi hh he ⊢
  have hinstall := Core.furnishes_installFrom hi hh (Special.table.map (·.2))
    CoreClassDecl.schedule coreFunctions CoreClassDecl.order_schedule
  dsimp only at hinstall
  rw [← Core.install_eq] at hinstall
  generalize Core.install heap = r at hinstall he ⊢
  exact furnished_withCore settings hinstall.1 hinstall.2.1 hinstall.2.2 he

variable {s t : State}

/-! ## What core classes find -/

section Finds

variable {c : CoreClass} {d : CoreClassDecl} {name : String} {k : Key}

/-- The handle of a core class. -/
theorem coreClass_eq {x : Handle} (h : s.core.classes[c.index]? = some x) : s.coreClass c = x := by
  unfold coreClass Core.classHandle
  rw [Array.getD_eq_getD_getElem?, h]
  rfl

/-- A class finds the method that its table binds to the name. -/
theorem method?_eq {x : Handle} {o : ClassObject} {g : String → Option Value}
    (hi : s.heap.Interned) (hx : s.heap.get? x = some (.classObject o))
    (hb : Heap.Binds s.heap o.methods g) (hk : s.heap.lookupKey name = some k) :
    s.method? x k = g name := by
  unfold method? class?
  rw [hx]
  exact hb.get? hi hk

/-- A core class finds its own functions. -/
theorem Furnished.own (hf : s.Furnished) (hi : s.heap.Interned)
    (hd : CoreClassDecl.schedule[c.index]? = some d) {g : CoreSignature}
    (hg : d.own? name = some g) (hk : s.heap.lookupKey name = some k) :
    ∃ x o, s.method? (s.coreClass c) k = some (.object x) ∧
      s.heap.get? x = some (.native o) ∧ o.Implements g := by
  obtain ⟨found, hfound⟩ := hf.methods
  obtain ⟨x, o, hx, hget, hb, hsupply⟩ := hfound _ _ hd
  have hname := hsupply name
  unfold Heap.Supplies at hname
  rw [hg] at hname
  rwa [coreClass_eq hx, method?_eq hi hget hb hk]

/-- The names of core functions have keys. -/
theorem Furnished.named (hf : s.Furnished) (hd : CoreClassDecl.schedule[c.index]? = some d)
    {g : CoreSignature} (hg : d.own? name = some g) : ∃ k, s.heap.lookupKey name = some k := by
  obtain ⟨found, hfound⟩ := hf.methods
  obtain ⟨x, o, -, -, ⟨-, -, -, -, hnone⟩, hsupply⟩ := hfound _ _ hd
  have hname := hsupply name
  unfold Heap.Supplies at hname
  rw [hg] at hname
  obtain ⟨y, n, hy, -⟩ := hname
  refine Option.ne_none_iff_exists'.1 fun hk => ?_
  rw [hnone name hk] at hy
  cases hy

/-- What a core class does not declare is what its superclass finds. -/
theorem Furnished.inherited (hf : s.Furnished) (hi : s.heap.Interned)
    (hd : CoreClassDecl.schedule[c.index]? = some d) (hg : d.own? name = none) {p : CoreClass}
    (hp : d.superclass = some p) (hk : s.heap.lookupKey name = some k) :
    s.method? (s.coreClass c) k = s.method? (s.coreClass p) k := by
  obtain ⟨found, hfound⟩ := hf.methods
  obtain ⟨x, o, hx, hget, hb, hsupply⟩ := hfound _ _ hd
  have hlt : p.index < CoreClassDecl.schedule.length :=
    (CoreClassDecl.order_schedule _ _ hd p hp).trans (List.getElem?_eq_some_iff.1 hd).1
  obtain ⟨y, o', hy, hget', hb', -⟩ := hfound p.index _ (List.getElem?_eq_getElem hlt)
  have hname := hsupply name
  unfold Heap.Supplies at hname
  rw [hg, hp] at hname
  rw [coreClass_eq hx, coreClass_eq hy, method?_eq hi hget hb hk, method?_eq hi hget' hb' hk]
  exact hname

end Finds

/-! ## Runs -/

/-- What host-side code and instructions change besides generators and classes makes no string with
another hash. -/
theorem NeutralChange.hashed (hc : s.NeutralChange t) (hi : s.heap.Interned) (hh : s.heap.Hashed) :
    t.heap.Hashed := by
  cases hc with
  | hostChange h =>
    cases h with
    | heap h =>
      cases h with
      | insert o ho =>
        refine hh.insert hi.toTidy ?_
        rintro text rfl
        exact eq_of_beq ho
      | intern data => exact hh.intern hi.toTidy data
      | update x f hf =>
        refine hh.update x fun o ho text htext => ?_
        have hshell := hf o ho
        rw [htext] at hshell
        cases o <;> first | exact hshell.symm | cases hshell
      | resize x => exact hh.resize x
      | collect more => exact hh.collect _
      | disable count => exact hh
    | _ => exact hh
  | code o ho =>
    refine hh.insert hi.toTidy ?_
    rintro text rfl
    cases ho
  | _ => exact hh

/-- What lasts leaves the names the machine looks up alone, since the machine holds their keys. -/
theorem Keyed.neutral (hk : s.Keyed) (hc : s.NeutralChange t) : t.Keyed := by
  have hi := hk.interned
  have hlasts := hc.lasts hi.toTidy
  obtain ⟨hi', hkeys⟩ := hc.texts hi
  refine ⟨hi', fun e he => ?_⟩
  obtain ⟨hkey, hmem⟩ := hk.specials e he
  unfold special at hkey hmem ⊢
  rw [hlasts.core]
  refine ⟨hkeys e.2 _ hkey (Heap.isLive_of_get? (hlasts.kept rfl
    (Heap.get?_of_string? (hi.lookupKey.1 hkey).2) (.inl ?_))), hmem⟩
  have hmem' : (s.core.key e.1).handle ∈ s.core.specials.toList.map (·.handle) :=
    List.mem_map_of_mem hmem
  simp only [roots, List.mem_append, List.mem_cons]
  exact .inr (.inr (.inr hmem'))

/-- Changes that leave texts and the core alone. -/
theorem Keyed.of_texts (hk : s.Keyed) (ht : Texts s.heap t.heap) (hcore : t.core = s.core) :
    t.Keyed := by
  obtain ⟨hi', hkeys⟩ := ht
  refine ⟨hi', fun e he => ?_⟩
  unfold special
  rw [hcore, hkeys]
  exact hk.specials e he

/-- What lasts leaves core classes and their methods alone, since the machine holds the classes. -/
theorem Furnished.neutral (hf : s.Furnished) (hi : s.heap.Interned) (hc : s.NeutralChange t) :
    t.Furnished := by
  have hlasts := hc.lasts hi.toTidy
  obtain ⟨hi', hkeys⟩ := hc.texts hi
  have hclass : ∀ x ∈ s.core.classes, ∀ o, s.heap.get? x = some (.classObject o) →
      t.heap.get? x = some (.classObject o) := by
    intro x hx o ho
    refine hlasts.kept rfl ho (.inl ?_)
    simp [roots, hx]
  have hmember : ∀ x ∈ s.core.classes, ∀ o, s.heap.get? x = some (.classObject o) →
      ∀ y ∈ Object.tableHandles o.methods, ∀ p, p.isFixed = true → s.heap.get? y = some p →
        t.heap.get? y = some p := by
    intro x hx o ho y hy p hp hget
    refine hlasts.kept hp hget (.inr ⟨x, _, hclass x hx o ho, ?_⟩)
    simp [Object.references, hy]
  have hlive : ∀ {name : String} {k : Key}, s.heap.lookupKey name = some k →
      (∀ p, p.isFixed = true → s.heap.get? k.handle = some p → t.heap.get? k.handle = some p) →
      t.heap.lookupKey name = some k := by
    intro name k hk hkept
    have hstring := Heap.get?_of_string? (hi.lookupKey.1 hk).2
    exact hkeys name k hk (Heap.isLive_of_get? (hkept _ rfl hstring))
  obtain ⟨found, hfound⟩ := hf.methods
  refine ⟨hc.hashed hi hf.hashed, (Keyed.neutral ⟨hi, hf.specials⟩ hc).specials, found, ?_⟩
  rw [hlasts.core]
  refine hfound.mono hi hi' hclass (fun x hx o ho y hy n hn => hmember x hx o ho y hy _ rfl hn)
    fun x hx o ho name k hk hy => hlive hk (hmember x hx o ho _ hy)

/-- A machine can make an object besides those that it has. -/
theorem Furnished.exists_holding (hf : s.Furnished) (hi : s.heap.Interned) (o : Object)
    (ho : o.isLight = true) :
    ∃ (u : State) (h : Handle), u.Furnished ∧ u.heap.Interned ∧ u.heap.get? h = some o ∧
      (∀ x p, s.heap.get? x = some p → x ≠ h ∧ u.heap.get? x = some p) ∧
      u.reentrant = s.reentrant ∧ u.settings = s.settings := by
  have hneutral : s.NeutralChange { s with heap := (s.heap.insert o).1 } :=
    .hostChange (.heap (.insert o ho))
  refine ⟨_, (s.heap.insert o).2, hf.neutral hi hneutral, (hneutral.texts hi).1, ?_,
    fun x p hp => ?_, rfl, rfl⟩
  · rw [Heap.get?_insert hi.toTidy, if_pos rfl]
  · have hlive := Heap.isLive_of_get? hp
    refine ⟨?_, (Heap.get?_insert_of_live hi.toTidy o hlive).trans hp⟩
    rintro rfl
    rw [(hi.toTidy.insert_cells o).1] at hlive
    cases hlive

/-- Changes that leave texts, functions of the host and core classes alone. -/
theorem Furnished.of_kept (hf : s.Furnished) (hi : s.heap.Interned) (ht : Texts s.heap t.heap)
    (hcore : t.core = s.core) (hh : t.heap.Hashed)
    (hclass : ∀ x ∈ s.core.classes, ∀ o, s.heap.get? x = some (.classObject o) →
      t.heap.get? x = some (.classObject o))
    (hnative : ∀ x n, s.heap.get? x = some (.native n) → t.heap.get? x = some (.native n)) :
    t.Furnished := by
  obtain ⟨found, hfound⟩ := hf.methods
  refine ⟨hh, (Keyed.of_texts ⟨hi, hf.specials⟩ ht hcore).specials, found, ?_⟩
  obtain ⟨hi', hkeys⟩ := ht
  rw [hcore]
  exact hfound.mono hi hi' hclass (fun _ _ _ _ y _ n hn => hnative y n hn)
    fun _ _ _ _ name k hk _ => (hkeys name).trans hk

/-- Core classes that are retained stay furnished. -/
theorem Furnished.retains (hf : s.Furnished) (hi : s.heap.Interned) (ht : Texts s.heap t.heap)
    (h : s.Retains t) : t.Furnished :=
  hf.of_kept hi ht h.core (hf.hashed.of_old fun x text => (h.objects x (.string text) rfl).1)
    (fun x _ o => (h.objects x (.classObject o) rfl).2)
    fun x n => (h.objects x (.native n) rfl).2

/-- A turn leaves the core alone. -/
theorem Turn.core {event : Option ClassEvent} (h : Turn event s t) (hi : s.heap.Interned) :
    t.core = s.core := by
  cases event with
  | none => exact (h.retains hi.toTidy).core
  | some e => cases h <;> rfl

/-- A turn that is about no core class. -/
theorem Furnished.turn {event : Option ClassEvent} (hf : s.Furnished) (hi : s.heap.Interned)
    (h : Turn event s t) (hcore : ∀ e ∈ event, e.subject ∉ s.core.classes) : t.Furnished := by
  have htexts := h.texts hi
  cases event with
  | none => exact hf.retains hi htexts (h.retains hi.toTidy)
  | some e =>
    have hother := hcore e rfl
    -- a class changes in place
    have hchange : ∀ (c : Handle) (f : ClassObject → ClassObject), c ∉ s.core.classes →
        Texts s.heap (s.update c (Object.mapClass f)).heap →
          (s.update c (Object.mapClass f)).Furnished := by
      intro c f hc htexts
      refine hf.of_kept hi htexts rfl ((hf.hashed.update c fun o _ text ho => ?_).resize c)
        (fun x hx o ho => ?_) fun x n hn => ?_
      · cases o <;> first | exact ho | cases ho
      · rw [get?_update, if_neg, ho]
        rintro rfl
        exact hc hx
      · rw [get?_update, hn]
        split <;> rfl
    cases h with
    | made text =>
      have hold : ∀ x o, s.heap.get? x = some o → _ = some o := fun x o ho =>
        (Heap.get?_insert_of_live hi.toTidy (.classObject ⟨text, none, .empty, false⟩)
          (Heap.isLive_of_get? ho)).trans ho
      exact hf.of_kept hi htexts rfl (hf.hashed.insert hi.toTidy nofun) (fun x _ o => hold x _)
        fun x n => hold x _
    | inherits hc hp hb => exact hchange _ _ hother htexts
    | defines method hc hn => exact hchange _ _ hother htexts

end State

/-- The names the machine looks up keep their keys, whatever is done to classes. -/
theorem kept_keyed : Kept fun _ s => s.Keyed where
  neutral _ h hc := h.neutral hc
  turn hi h ht := h.of_texts (ht.texts hi) (ht.core hi)
  alike hi h ha := h.of_texts (ha.texts hi) ha.core

/-- They have their keys in all states of all runs. -/
theorem Hosted.keyed {settings : Settings} {log log' : List ClassEvent} {s : State}
    (h : Hosted (.create settings) log s) {name : String} {module : Bytecode.Module} {m : Machine}
    (hd : (Act.evalModule name module s).During log' m) : m.state.Keyed :=
  kept_keyed.throughout (h.during hd).2 (State.fresh_create settings).1.interned
    (State.fresh_create settings).1.toEquipped.keyed

/-- Core classes stay furnished as long as nothing is done to them. -/
theorem kept_furnished : Kept fun log s =>
    (∀ e ∈ log, e.subject ∉ s.core.classes) → s.Furnished where
  neutral hi h hc hlog := (h ((hc.lasts hi.toTidy).core ▸ hlog)).neutral hi hc
  turn {log s t event} hi h ht hlog := by
    rw [ht.core hi] at hlog
    exact (h fun e he => hlog e (List.mem_append_left _ he)).turn hi ht fun e he =>
      hlog e (List.mem_append_right _ (by simpa using he))
  alike hi h ha hlog := (h (ha.core ▸ hlog)).retains hi (ha.texts hi) ha.retains

/-- They are furnished in all states of all runs in which nothing is done to them. -/
theorem Hosted.furnished {settings : Settings} {log log' : List ClassEvent} {s : State}
    (h : Hosted (.create settings) log s) {name : String} {module : Bytecode.Module} {m : Machine}
    (hd : (Act.evalModule name module s).During log' m)
    (hcore : ∀ e ∈ log ++ log', e.subject ∉ m.state.core.classes) : m.state.Furnished :=
  kept_furnished.throughout (h.during hd).2 (State.fresh_create settings).1.interned
    (fun _ => State.furnished_create settings) hcore

end ScriptEngine
