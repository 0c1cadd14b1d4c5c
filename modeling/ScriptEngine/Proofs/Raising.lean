import ScriptEngine.Proofs.Configuration

/-!
# Raising exceptions

A new exception takes three allocations, before each of which garbage may be collected. What can be
reached from the machine's own handles outlives them: the core classes, the names the machine looks
up, and the loaded modules with their globals. The exception itself stays because it stands on the
stack. Nobody catches an exception of the core, and its report names its class and the line of the
instruction that raised it.
-/

namespace ScriptEngine

open Bytecode Reference

/-- The octets of a text decode to the text. -/
theorem lossy_octets (text : String) : Text.lossy (Text.octets text) = text := by
  have hvalid : (Text.octets text).IsValidUTF8 := text.isValidUTF8
  unfold Text.lossy String.fromUTF8?
  rw [dif_pos hvalid]
  rfl

namespace Heap

variable {heap heap' heap'' : Heap} {anchors more : List Handle} {except : Handle → Prop}

/-- What is kept beside more anchors is kept beside fewer. -/
theorem Keeps.mono (h : Keeps more heap heap') (hsub : anchors ⊆ more) :
    Keeps anchors heap heap' where
  interned := h.interned
  objects x o hr := h.objects x o (hr.mono hsub)
  keys name k hr := h.keys name k (hr.mono hsub)
  ceiling := h.ceiling

/-- A change of an object that was not reached. -/
theorem Keeps.grows (h : Keeps anchors heap heap') (hg : Grows except heap' heap'')
    (hx : ∀ x, Reaches heap.cells anchors x → heap.isLive x = true → ¬ except x) :
    Keeps anchors heap heap'' where
  interned := hg.interned
  objects x o hr ho := hg.objects x o (h.objects x o hr ho) (hx x hr (isLive_of_get? ho))
  keys name k hr hk := hg.keys name k (h.keys name k hr hk)
  ceiling := hg.ceiling.trans h.ceiling

/-- The keys of bound texts are among the handles of a table, and so are the values. -/
theorem Binds.mem_tableHandles {t : NameTable} {g : String → Option Value} (hb : Binds heap t g)
    (hi : Interned heap) {name : String} {k : Key} {v : Value} (hk : heap.lookupKey name = some k)
    (hv : g name = some v) :
    k.handle ∈ Object.tableHandles t ∧ ∀ x, v = .object x → x ∈ Object.tableHandles t := by
  obtain ⟨m, hr, -, hm, -⟩ := hb
  have hmem : (k, v) ∈ t.toList := hr.mem_toList.2 ⟨(hi.hash_lookupKey hk).1, (hm name k hk).trans hv⟩
  unfold Object.tableHandles
  refine ⟨List.mem_flatMap.2 ⟨(k, v), hmem, List.mem_cons_self⟩, ?_⟩
  rintro x rfl
  exact List.mem_flatMap.2 ⟨(k, .object x), hmem, List.mem_cons_of_mem _ (List.mem_singleton_self x)⟩

/-- A table that is reached as a whole binds the same texts afterwards. -/
theorem Keeps.binds (h : Keeps anchors heap heap') (hi : Interned heap) {t : NameTable}
    {g : String → Option Value} (hb : Binds heap t g)
    (hr : ∀ x ∈ Object.tableHandles t, Reaches heap.cells anchors x) : Binds heap' t g :=
  hb.mono hi h.interned fun name k hk hs => by
    obtain ⟨v, hv⟩ := Option.isSome_iff_exists.1 hs
    exact h.keys name k (hr _ (hb.mem_tableHandles hi hk hv).1) hk

/-- A class that is reached stays one. -/
theorem Keeps.isClass (h : Keeps anchors heap heap') (hi : Interned heap) {x : Handle}
    {name : String} {methods : List String} (hc : heap.IsClass x name methods)
    (hr : Reaches heap.cells anchors x) : heap'.IsClass x name methods := by
  obtain ⟨c, g, hget, hname, hb, hg⟩ := hc
  have hstring := h.objects c.name _ (hr.reference hget List.mem_cons_self) (get?_of_string? hname)
  refine ⟨c, g, h.objects x _ hr hget, ?_, h.binds hi hb fun y hy => ?_, hg⟩
  · unfold Heap.string?
    rw [hstring]
  · exact hr.reference hget (List.mem_cons_of_mem _ (List.mem_append_right _ hy))

end Heap

namespace State

variable {s s' : State} {p : Proto} {i : Image} {k : Config}

/-- The handles that do not depend on what runs: the modules and the core module. -/
def anchors (s : State) : List Handle :=
  Object.tableHandles s.modules ++
    s.core.module :: (s.core.classes.toList ++ s.core.specials.toList.map (·.handle))

/-- The machine's own handles are among the roots. -/
theorem anchors_subset (s : State) : s.anchors ⊆ s.roots := by
  intro x hx
  unfold anchors at hx
  unfold roots
  simp only [List.mem_append, List.mem_cons] at hx ⊢
  tauto

/-- The classes of the core are among the machine's own handles. -/
theorem Equipped.mem_anchors_class (he : s.Equipped) {c : CoreClass} {e : String × List String}
    (hc : classLayout[c.index]? = some e) : s.coreClass c ∈ s.anchors :=
  List.mem_append_right _ (List.mem_cons_of_mem _
    (List.mem_append_left _ (he.classes c e hc).2))

/-- A machine whose strings are interned, and the names it looks up among them. -/
structure Keyed (s : State) : Prop where
  /-- Strings are interned. -/
  interned : Heap.Interned s.heap
  /-- The names the machine looks up have keys. -/
  specials : ∀ e ∈ Special.table, s.heap.lookupKey e.2 = some (s.special e.1) ∧
    s.special e.1 ∈ s.core.specials.toList

/-- An equipped machine has its names interned. -/
theorem Equipped.keyed (he : s.Equipped) : s.Keyed := ⟨he.interned, he.specials⟩

/-- The names the machine looks up are among its own handles. -/
theorem Keyed.mem_anchors_special (hk : s.Keyed) {e : Special × String}
    (hx : e ∈ Special.table) : (s.special e.1).handle ∈ s.anchors :=
  List.mem_append_right _ (List.mem_cons_of_mem _ (List.mem_append_right _
    (List.mem_map_of_mem (hk.specials e hx).2)))

/-- The names keep their keys in a heap that keeps what the machine holds of itself. -/
theorem Keyed.lookupKey (hk : s.Keyed) {heap : Heap} (hkeep : Heap.Keeps s.anchors s.heap heap)
    {e : Special × String} (hx : e ∈ Special.table) :
    heap.lookupKey e.2 = some (s.special e.1) :=
  hkeep.keys _ _ (.root (hk.mem_anchors_special hx)) (hk.specials e hx).1

/-! ## Making the exception -/

/-- Setting a field of an instance changes that instance and adds the key. -/
theorem setInstanceField_run (hi : Heap.Interned s.heap) {h owner : Handle} {fields : NameTable}
    (hget : s.heap.get? h = some (.instanceOf owner fields)) (key : Key) (v : Value) :
    ∃ heap, s.setInstanceField h key v = { s with heap := heap } ∧
      Heap.Grows (· = h) s.heap heap ∧
      heap.get? h = some (.instanceOf owner (fields.insert key v)) := by
  obtain ⟨hgrow, hget'⟩ := Heap.grows_update (h := h)
    (f := Object.mapFields fun fields => fields.insert key v) hi (by rw [hget]; rintro _ ⟨⟩)
  rw [hget] at hget'
  exact ⟨_, rfl, hgrow, hget'⟩

/-- The fields of a new exception. -/
def exceptionFields (s : State) (text trace : Handle) : NameTable :=
  ((NameTable.empty.insert (s.special .err) (.object text)).insert (s.special .cause) .null).insert
    (s.special .stacktrace) (.object trace)

/-- What a machine holds it holds also when a value has been pushed, along with the value. -/
theorem roots_push (s : State) (heap : Heap) (v : Value) :
    v.handle?.toList ++ s.roots ⊆
      ({ s with heap := heap, stack := s.stack.push v } : State).roots := by
  intro x hx
  unfold roots Object.handlesOf at hx ⊢
  simp only [Array.toList_push, List.filterMap_append, List.mem_append, List.mem_cons] at hx ⊢
  cases v with
  | object h =>
    have : List.filterMap Value.handle? [.object h] = [h] := rfl
    simp only [Value.handle?, Option.toList_some, this] at hx ⊢
    tauto
  | _ => simp_all [Value.handle?]

/-- Recording the trace of an exception the machine holds. What was reached in an earlier heap, where
the exception was not there yet, stays, and so does what the exception refers to. -/
theorem recordTrace_ends {heap₀ : Heap} {anchors : List Handle} {h owner : Handle}
    {fields : NameTable} (hkeep : Heap.Keeps anchors heap₀ s.heap)
    (hsub : h :: anchors ⊆ s.roots)
    (hapart : ∀ x, Heap.Reaches heap₀.cells anchors x → heap₀.isLive x = true → x ≠ h)
    (hget : s.heap.get? h = some (.instanceOf owner fields)) :
    (Act.recordTrace h s).Capped s.heap ∨
      ∃ heap trace, Act.recordTrace h s = .done () { s with heap := heap } ∧
        Heap.Keeps anchors heap₀ heap ∧
        heap.get? h =
          some (.instanceOf owner (fields.insert (s.special .stacktrace) (.object trace))) ∧
        heap.get? trace = some (.stackTrace s.trace) ∧
        ∀ x o, x ∈ Object.tableHandles fields → x ≠ h → s.heap.get? x = some o →
          heap.get? x = some o := by
  unfold Act.recordTrace
  simp only [Act.bind_run, Act.gets_run, Proc.bind_done, Act.alloc_eq]
  obtain hcapped | ⟨heap₁, trace, hrun₁, hkeep₁, htrace, hother⟩ := Act.allocIn_ends
    hkeep.interned hsub (Object.estimatedBytes (.stackTrace s.trace))
    (Object.references (.stackTrace s.trace)) (.stackTrace s.trace)
  · exact .inl (hcapped.bind _)
  have hroot : Heap.Reaches s.heap.cells (h :: anchors) h := .root List.mem_cons_self
  have hget₁ := hkeep₁.objects h _ hroot hget
  have hne : h ≠ trace := hother h hroot (Heap.isLive_of_get? hget)
  obtain ⟨heap₂, hrun₂, hgrow₂, hget₂⟩ := setInstanceField_run
    (s := { s with heap := heap₁ }) hkeep₁.interned hget₁ (s.special .stacktrace) (.object trace)
  refine .inr ⟨heap₂, trace, ?_, ?_, hget₂, hgrow₂.objects _ _ htrace (Ne.symm hne), ?_⟩
  · simp only [hrun₁, Proc.bind_done, Act.modify_run]
    exact congrArg (Proc.done ()) hrun₂
  · exact (hkeep.trans (hkeep₁.mono (List.subset_cons_self _ _))).grows hgrow₂ hapart
  · intro x o hx hxh ho
    have hreach := hroot.reference hget (List.mem_cons_of_mem _ hx)
    exact hgrow₂.objects x o (hkeep₁.objects x o hreach ho) hxh

/-- The message is among what a new exception refers to before its trace is recorded. -/
theorem Keyed.text_mem_fields (hk : s.Keyed) {heap : Heap}
    (hkeep : Heap.Keeps s.anchors s.heap heap) (text : Handle) :
    text ∈ Object.tableHandles
      ((NameTable.empty.insert (s.special .err) (.object text)).insert (s.special .cause) .null) := by
  have herr := hk.lookupKey hkeep (e := (.err, "_err")) (by decide)
  have hcause := hk.lookupKey hkeep (e := (.cause, "_cause")) (by decide)
  have hb := ((Heap.binds_empty heap).insert hkeep.interned herr (.object text)).insert
    hkeep.interned hcause .null
  exact (hb.mem_tableHandles hkeep.interned herr (by rfl)).2 text rfl

/-- A new exception stands on top of the stack, with its message, and what the machine held before
is as it was. -/
theorem failWith_ends (hk : s.Keyed) (owner : Handle) (message : String) :
    (∀ α, ((Act.failWith owner message : Act α) s).Capped s.heap) ∨
      ∃ heap h text trace records,
        (∀ α, (Act.failWith owner message : Act α) s =
          .raised { s with heap := heap, stack := s.stack.push (.object h) }) ∧
        Heap.Keeps s.roots s.heap heap ∧
        heap.get? h = some (.instanceOf owner (s.exceptionFields text trace)) ∧
        heap.get? text =
          some (.string ⟨Text.octets message, Text.fnv1a (Text.octets message), false⟩) ∧
        heap.get? trace = some (.stackTrace records) ∧
        records.map (·.line) = s.frames.toList.reverse.map Frame.line? := by
  unfold Act.failWith
  simp only [Act.bind_run, Act.newString_eq]
  -- the message
  obtain hcapped | ⟨heap₁, text, hrun₁, hkeep₁, htext₁, -⟩ := Act.allocIn_ends hk.interned
    (List.Subset.refl s.roots) (Text.octets message).size []
    (.string ⟨Text.octets message, Text.fnv1a (Text.octets message), false⟩)
  · exact .inl fun _ => hcapped.bind _
  simp only [hrun₁, Proc.bind_done, Act.push_run, State.push, Act.alloc_eq]
  -- the instance
  have hsub₁ := roots_push s heap₁ (.object text)
  obtain hcapped | ⟨heap₂, h, hrun₂, hkeep₂, hget₂, hnew⟩ := Act.allocIn_ends
    (s := { s with heap := heap₁, stack := s.stack.push (.object text) }) hkeep₁.interned hsub₁
    (Object.estimatedBytes (.instanceOf owner .empty)) (Object.references (.instanceOf owner .empty))
    (.instanceOf owner .empty)
  · exact .inl fun _ => (hcapped.bind _).of_ceiling hkeep₁.ceiling
  simp only [hrun₂, Proc.bind_done, Act.replaceTop, Act.dropMany, Act.bind_run, Act.modify_run,
    State.drop, Act.pure_run, Act.push_run, State.push, Array.pop_push]
  simp only at hkeep₂ hnew
  have hapart : ∀ x, Heap.Reaches s.heap.cells s.roots x → s.heap.isLive x = true → x ≠ h := by
    intro x hr hlive
    obtain ⟨o, ho⟩ := Option.isSome_iff_exists.1 hlive
    have hr₁ := (hkeep₁.reaches hr).mono (List.subset_append_right [text] _)
    exact hnew x hr₁ (Heap.isLive_of_get? (hkeep₁.objects x o hr ho))
  have htext : Heap.Reaches heap₁.cells ([text] ++ s.roots) text := .root List.mem_cons_self
  have htext₂ := hkeep₂.objects text _ htext htext₁
  have hne : text ≠ h := hnew text htext (Heap.isLive_of_get? htext₁)
  -- its fields; the instance stands on the stack by now
  obtain ⟨heap₃, hrun₃, hgrow₃, hget₃⟩ := setInstanceField_run
    (s := { s with heap := heap₂, stack := s.stack.push (.object h) }) hkeep₂.interned hget₂
    (s.special .err) (.object text)
  obtain ⟨heap₄, hrun₄, hgrow₄, hget₄⟩ := setInstanceField_run
    (s := { s with heap := heap₃, stack := s.stack.push (.object h) }) hgrow₃.interned hget₃
    (s.special .cause) .null
  have hkeep₄ : Heap.Keeps s.roots s.heap heap₄ :=
    ((hkeep₁.trans (hkeep₂.mono (List.subset_append_right [text] _))).grows hgrow₃ hapart).grows
      hgrow₄ hapart
  have htext₄ := hgrow₄.objects text _ (hgrow₃.objects text _ htext₂ hne) hne
  obtain hcapped | ⟨heap₅, trace, hrun₅, hkeep₅, hget₅, htrace, hfields⟩ := recordTrace_ends
    (s := { s with heap := heap₄, stack := s.stack.push (.object h) }) hkeep₄
    (roots_push s heap₄ (.object h)) hapart hget₄
  · refine .inl fun _ => ?_
    simp only [State.special] at hrun₃ hrun₄ ⊢
    simp only [hrun₃, hrun₄]
    exact (hcapped.bind _).of_ceiling hkeep₄.ceiling
  refine .inr ⟨heap₅, h, text, trace, _, fun α => ?_, hkeep₅, hget₅, ?_, htrace, ?_⟩
  · simp only [State.special] at hrun₃ hrun₄ ⊢
    simp only [hrun₃, hrun₄, hrun₅, Proc.bind_done, Act.raise_run]
  · exact hfields text _ (hk.text_mem_fields (hkeep₄.mono s.anchors_subset) text) hne htext₄
  · simp [State.trace]

/-- Without a ceiling a new exception always comes to stand on the stack. -/
theorem failWith_run (he : s.Equipped) (hceiling : s.heap.maxBytes = none) (owner : Handle)
    (message : String) :
    ∃ heap h text trace records,
      (∀ α, (Act.failWith owner message : Act α) s =
        .raised { s with heap := heap, stack := s.stack.push (.object h) }) ∧
      Heap.Keeps s.anchors s.heap heap ∧
      heap.get? h = some (.instanceOf owner (s.exceptionFields text trace)) ∧
      heap.get? trace = some (.stackTrace records) ∧
      records.map (·.line) = s.frames.toList.reverse.map Frame.line? := by
  obtain hcapped | ⟨heap, h, text, trace, records, hrun, hkeep, hget, -, htrace, hlines⟩ :=
    failWith_ends he.keyed owner message
  · exact absurd hceiling (hcapped Unit).ceiling
  · exact ⟨heap, h, text, trace, records, hrun, hkeep.mono s.anchors_subset, hget, htrace, hlines⟩

/-! ## What the host sees -/

/-- A global of a module, by their names. -/
def globalNamed? (s : State) (module name : String) : Option Value := do
  let moduleKey ← s.heap.lookupKey module
  let key ← s.heap.lookupKey name
  let h ← s.loadedModule? moduleKey
  s.global? h key

/-- A machine whose main module is registered and has the given own globals. -/
structure Exposes (s : State) (module : Handle) (values : String → Option Value) : Prop where
  interned : Heap.Interned s.heap
  registered : ∃ g, Heap.Binds s.heap s.modules g ∧ g Act.mainModule = some (.object module)
  own : ∃ name t g, s.heap.get? module = some (.module name t) ∧ Heap.Binds s.heap t g ∧
    ∀ x, isOwnName x = true → g x = values x

section Exposes

variable {module : Handle} {values : String → Option Value}

/-- What a host sees of a machine that runs code is the values of its globals. -/
theorem Hosts.exposes (h : s.Hosts p i values) : s.Exposes i.module values :=
  ⟨h.interned, h.registered, h.own⟩

/-- What a host sees depends on heap and modules alone. -/
theorem Exposes.congr (h : s.Exposes module values) (hheap : s'.heap = s.heap)
    (hmodules : s'.modules = s.modules) : s'.Exposes module values :=
  ⟨hheap ▸ h.interned, hheap ▸ hmodules ▸ h.registered, hheap ▸ h.own⟩

/-- The main module is registered by its name. -/
theorem Exposes.mainKey (h : s.Exposes module values) :
    ∃ g key, Heap.Binds s.heap s.modules g ∧ g Act.mainModule = some (.object module) ∧
      s.heap.lookupKey Act.mainModule = some key := by
  obtain ⟨g, hb, hg⟩ := h.registered
  cases hkey : s.heap.lookupKey Act.mainModule with
  | some key => exact ⟨g, key, hb, hg, rfl⟩
  | none =>
    obtain ⟨m, -, -, -, hnone⟩ := hb
    rw [hnone _ hkey] at hg
    cases hg

/-- The host finds the own globals of the main module. -/
theorem Exposes.globalNamed? (h : s.Exposes module values) {x : String} (hx : isOwnName x = true) :
    s.globalNamed? Act.mainModule x = values x := by
  obtain ⟨g, key, hb, hg, hkey⟩ := h.mainKey
  obtain ⟨name, t, g', hget, hb', hg'⟩ := h.own
  have hmodule : s.loadedModule? key = some module := by
    unfold loadedModule?
    rw [hb.get? h.interned hkey, hg]
    rfl
  unfold State.globalNamed?
  rw [hkey]
  cases hkey' : s.heap.lookupKey x with
  | none =>
    obtain ⟨m, -, -, -, hnone⟩ := hb'
    rw [← hg' x hx, hnone x hkey']
    rfl
  | some key' =>
    have hglobal : s.global? module key' = values x := by
      unfold State.global? State.module?
      rw [hget]
      exact (hb'.get? h.interned hkey').trans (hg' x hx)
    simp only [Option.bind_eq_bind, Option.bind_some, hmodule, hglobal]

/-- Loaded modules outlive a collection, with their globals. -/
theorem Exposes.keeps (h : s.Exposes module values) (hk : Heap.Keeps s.anchors s.heap s'.heap)
    (hmodules : s'.modules = s.modules) : s'.Exposes module values := by
  have hroot : ∀ x ∈ Object.tableHandles s.modules, Heap.Reaches s.heap.cells s.anchors x :=
    fun x hx => .root (List.mem_append_left _ hx)
  obtain ⟨g, key, hb, hg, hkey⟩ := h.mainKey
  obtain ⟨name, t, g', hget, hb', hg'⟩ := h.own
  have hmodule := hroot module ((hb.mem_tableHandles h.interned hkey hg).2 module rfl)
  refine ⟨hk.interned, ⟨g, hmodules ▸ hk.binds h.interned hb hroot, hg⟩, name, t, g',
    hk.objects _ _ hmodule hget, hk.binds h.interned hb' fun x hx => ?_, hg'⟩
  exact hmodule.reference hget (List.mem_cons_of_mem _ hx)

end Exposes

/-- The report on an instance of a class. -/
theorem report_instance {h owner : Handle} {fields : NameTable} {name : String}
    {methods : List String} (hget : s.heap.get? h = some (.instanceOf owner fields))
    (hclass : s.heap.IsClass owner name methods) :
    (s.report (.object h)).className = name ∧ (s.report (.object h)).trace =
      ((fields.get? (s.special .stacktrace)).map s.traceRecords).getD [] := by
  obtain ⟨c, g, hc, hname, -⟩ := hclass
  constructor
  · have hkind : s.classOf? (.object h) = some owner := by
      simp only [classOf?, hget, Option.map_some]
    simp only [report, kindOf, hkind, className, class?, hc, textOf, hname, Heap.internedString]
    exact lossy_octets name
  · simp only [report, exceptionField, instanceOf?, hget]

/-- The message and the trace of a new exception are found under their names. -/
theorem Keyed.get?_exceptionFields (hk : s.Keyed) {heap : Heap}
    (hkeep : Heap.Keeps s.anchors s.heap heap) (text trace : Handle) :
    (s.exceptionFields text trace).get? (s.special .err) = some (.object text) ∧
      (s.exceptionFields text trace).get? (s.special .stacktrace) = some (.object trace) := by
  have herr := hk.lookupKey hkeep (e := (.err, "_err")) (by decide)
  have hcause := hk.lookupKey hkeep (e := (.cause, "_cause")) (by decide)
  have htrace := hk.lookupKey hkeep (e := (.stacktrace, "_stacktrace")) (by decide)
  have hb := (((Heap.binds_empty heap).insert hkeep.interned herr (.object text)).insert
    hkeep.interned hcause .null).insert hkeep.interned htrace (.object trace)
  exact ⟨(hb.get? hkeep.interned herr).trans (by rfl),
    (hb.get? hkeep.interned htrace).trans (if_pos rfl)⟩

/-- The report on a new exception has its message. -/
theorem Keyed.report_message (hk : s.Keyed) {t : State} {h owner text trace : Handle}
    {message : String} (hkeep : Heap.Keeps s.anchors s.heap t.heap) (hcore : t.core = s.core)
    (hget : t.heap.get? h = some (.instanceOf owner (s.exceptionFields text trace)))
    (htext : t.heap.get? text =
      some (.string ⟨Text.octets message, Text.fnv1a (Text.octets message), false⟩)) :
    (t.report (.object h)).message = message := by
  have hspecial : t.special .err = s.special .err := by
    rw [State.special, hcore]
    rfl
  have hfield : t.exceptionField (.object h) .err = some (.object text) := by
    simp only [exceptionField, instanceOf?, hget, hspecial, (hk.get?_exceptionFields hkeep _ _).1]
  simp only [report, hfield, Option.bind_some, string?, Heap.string?, htext]
  exact lossy_octets message

/-- An exception raised at a configuration: its report has the name of its class and the line of the
instruction, and the globals are as they were. -/
theorem At.fail (h : s.At p i k) {c : CoreClass} {e : String × List String}
    (hc : classLayout[c.index]? = some e) (message : String) :
    ∃ heap x, (∀ α, (Act.fail c message : Act α) s =
        .raised { s with heap := heap, stack := s.stack.push (.object x) }) ∧
      ∀ s' : State, s'.heap = heap → s'.modules = s.modules → s'.core = s.core →
        s'.Exposes i.module (globalValues k.globals) ∧
        (s'.report (.object x)).className = e.1 ∧
        (s'.report (.object x)).trace.map (·.line) = [p.chunk.lineAt? (k.pc - 1)] := by
  obtain ⟨heap, x, text, trace, records, hrun, hk, hget, htrace, hlines⟩ :=
    failWith_run h.toEquipped h.ceiling (s.coreClass c) message
  refine ⟨heap, x, hrun, ?_⟩
  rintro s' rfl hmodules hcore
  have hclass := hk.isClass h.interned (h.classes c e hc).1 (.root (h.mem_anchors_class hc))
  obtain ⟨hname, htrace'⟩ := report_instance hget hclass
  refine ⟨h.exposes.keeps hk hmodules, hname, ?_⟩
  have hspecial : s'.special .stacktrace = s.special .stacktrace := by
    rw [State.special, hcore]
    rfl
  rw [htrace', hspecial, (h.toEquipped.keyed.get?_exceptionFields hk _ _).2]
  simp only [Option.map_some, Option.getD_some, traceRecords, htrace, hlines, h.frames]
  rfl

end State

end ScriptEngine
