import ScriptEngine.Host.Evaluate
import ScriptEngine.Proofs.CodeSafety

/-!
# Runs of code that has passed the checks

Every step of a machine keeps code together, and so does everything a host does with a machine. In
all machines of all runs, each frame therefore runs code that has passed the structural checks, goes
on somewhere in that code, and has the captured variables that the code refers to. There are two
gaps. The checks let a forward jump go just past the last instruction, and they let top-level code
count captured variables although nothing captures any for it.

A method that is called by name may be held by nothing while further arguments are packed into a
tuple, which may collect. If such a method takes further arguments, runs are considered as long as
the machine still reaches it. The host may ask for an interrupt at any time.
-/

namespace ScriptEngine

open Bytecode

namespace Machine

/-- A method that is about to be called and packs further arguments is reached from the roots. -/
def Held (m : Machine) : Prop :=
  ∀ h argc, m.control = .enter (some (.object h)) argc → Act.Holds m.state h

/-- Calls began one after the other, and what waits for them leaves code alone. -/
structure Nested (call : Call) (waiting : List Waiting) : Prop where
  depths : (call.depth :: waiting.map (·.call.depth)).Pairwise (· ≥ ·)
  leavesCode : ∀ w ∈ waiting, ∀ ok u, (w.resume ok u).LeavesCode true u

/-- The code of a machine fits together. -/
structure Sound (top : Proto → Prop) (m : Machine) : Prop extends Nested m.call m.waiting where
  ready : m.state.Ready top m.call.depth
  /-- An instruction is executed in a frame of the innermost call. -/
  next : m.control = .next → m.call.depth < m.state.frames.size

end Machine

/-- The code of a machine fits together after a step. -/
def Status.Sound (top : Proto → Prop) : Status → Prop
  | .running m => m.Sound top
  | .ended _ s => s.AllLand top
  | .fault _ => True

namespace Machine

variable {top : Proto → Prop} {s : State} {call : Call} {waiting : List Waiting}

/-! ## Steps -/

/-- Counting nested calls has nothing to do with code. -/
theorem ready_reentrant {depth : Nat} (h : s.Ready top depth) (count : Nat) :
    { s with reentrant := count : State }.Ready top depth :=
  ⟨⟨⟨h.tidy, h.objects, h.frames, h.importable⟩, h.lands⟩, h.depth_le⟩

/-- A call that starts is sound, as long as it starts behind those that wait for it. -/
theorem sound_start (h : s.AllLand top) (method : Option Value) (argc : Nat)
    (hdepths : ∀ w ∈ waiting, w.call.depth ≤ s.frames.size)
    (hwaiting : (waiting.map (·.call.depth)).Pairwise (· ≥ ·))
    (hleaves : ∀ w ∈ waiting, ∀ ok u, (w.resume ok u).LeavesCode true u) :
    (start s method argc waiting).Sound top := by
  unfold start
  split
  · refine ⟨⟨List.pairwise_cons.2 ⟨?_, hwaiting⟩, hleaves⟩, ⟨h, Nat.le_refl _⟩, ?_⟩
    · intro d hd
      obtain ⟨w, hw, rfl⟩ := List.mem_map.1 hd
      exact hdepths w hw
    · intro hnext
      simp only at hnext
      split at hnext <;> cases hnext
  · trivial

/-- What becomes of an action that keeps code together is sound. -/
theorem sound_absorb (hn : Nested call waiting) {p : Proc Control}
    (hp : p.Safe top call.depth true fun _ t => t.Ready top call.depth) :
    (absorb call waiting p).Sound top := by
  cases p with
  | done control s =>
    cases control with
    | next =>
      simp only [absorb]
      split
      · exact ⟨hn, hp, nofun⟩
      · next hne =>
        have hlt : call.depth < s.frames.size := Nat.lt_of_le_of_ne hp.depth_le (Ne.symm hne)
        split
        · exact ⟨hn, hp, fun _ => hlt⟩
        · exact ⟨⟨hn.depths, hn.leavesCode⟩, ready_reentrant hp _, fun _ => hlt⟩
    | _ => exact ⟨hn, hp, nofun⟩
  | raised s =>
    obtain ⟨hland, hle, hlt⟩ := hp.unwind
    simp only [absorb]
    generalize s.unwind call.depth = r at hland hle hlt
    obtain ⟨t, found⟩ := r
    cases found with
    | true => exact ⟨hn, ⟨hland, hle⟩, fun _ => hlt rfl⟩
    | false => exact ⟨hn, ⟨hland.dataChanges (t.data_settle _), hle⟩, nofun⟩
  | fault e => trivial
  | call s method argc resume =>
    obtain ⟨-, hland, hle, hleaves⟩ := hp
    refine sound_start hland method argc ?_ hn.depths ?_
    · intro w hw
      rcases List.mem_cons.1 hw with rfl | hw
      · exact hle
      · exact ((List.pairwise_cons.1 hn.depths).1 _ (List.mem_map_of_mem hw)).trans hle
    · intro w hw
      rcases List.mem_cons.1 hw with rfl | hw
      · exact hleaves
      · exact hn.leavesCode w hw

/-- An instruction is fetched: only past a return may there be no code. -/
theorem safe_next {depth : Nat} (h : s.Ready top depth) (hd : depth < s.frames.size) :
    (action .next s).Safe top depth true fun _ t => t.Ready top depth := by
  change ((Act.fetch s).bind fun op t => Act.execute op t).Safe top depth true _
  unfold Act.fetch
  cases hx : s.frame? with
  | none => trivial
  | some x =>
    have hmem := State.mem_frames_of_frame? hx
    have hruns := h.frames x hmem
    dsimp only
    cases hop : x.proto.chunk.code[x.ip]? with
    | none => trivial
    | some op =>
      have hruns' : { x with ip := x.ip + 1 : Frame }.RunsCode s.heap :=
        ⟨hruns.backs, hruns.handlers, hruns.generator⟩
      refine Act.safe_execute ⟨State.frame?_modifyFrame hx _, x.ip, rfl, hop⟩
        (h.outerLand.modifyFrame hx hruns') (by rwa [State.size_modifyFrame]) fun hne => ?_
      exact h.outerLand.landed hx hruns' (.inl ((h.fits hmem).lt_of_ne_return hop hne))

/-- The action of a control keeps code together. -/
theorem safe_action {m : Machine} (h : m.Sound top) (hheld : m.Held)
    (hleave : ∀ returned, m.control ≠ .leave returned) :
    (action m.control m.state).Safe top m.call.depth true fun _ t => t.Ready top m.call.depth := by
  cases hcontrol : m.control with
  | next => exact safe_next h.ready (h.next hcontrol)
  | enter method argc =>
    cases method with
    | none => exact Act.safe_enterValue h.ready argc
    | some v =>
      refine Act.safe_enterMethod h.ready (fun y hy => ?_) argc
      subst hy
      exact hheld y argc hcontrol
  | spread v iter next => exact (Act.within_spreadElement v iter next).leavesCode.ready h.ready
  | refuse => exact (Act.within_overflow (α := Control)).leavesCode.ready h.ready
  | leave returned => exact absurd hcontrol (hleave returned)

/-- A step keeps code together. -/
theorem Sound.step {m : Machine} (h : m.Sound top) (hheld : m.Held) : m.step.Sound top := by
  obtain ⟨s, control, call, waiting⟩ := m
  cases control with
  | leave returned =>
    have hleft : (if call.entered then s.leaveScript else s).Ready top call.depth := by
      split
      · exact ready_reentrant h.ready _
      · exact h.ready
    unfold Machine.step
    dsimp only
    cases waiting with
    | nil => exact hleft.toAllLand
    | cons w rest =>
      have hdepths := List.pairwise_cons.1 h.depths
      have hle : w.call.depth ≤ call.depth := hdepths.1 _ (List.mem_cons_self ..)
      have hready : (if call.entered then s.leaveScript else s).Ready top w.call.depth :=
        ⟨hleft.toAllLand, hle.trans hleft.depth_le⟩
      refine sound_absorb ⟨hdepths.2, fun w' hw' => h.leavesCode w' (List.mem_cons_of_mem _ hw')⟩ ?_
      exact ((h.leavesCode w (List.mem_cons_self ..) returned _).safe hready).imp fun _ _ ht => ht.1
  | _ => exact sound_absorb h.toNested (safe_action h hheld nofun)

/-- The machine after its host has set or cleared the flag that asks for an interrupt. -/
def withInterrupt (m : Machine) (asked : Bool) : Machine :=
  { m with state := { m.state with interrupt := asked } }

/-- The flag has nothing to do with code. -/
theorem Sound.withInterrupt {m : Machine} (h : m.Sound top) (asked : Bool) :
    (m.withInterrupt asked).Sound top :=
  ⟨h.toNested, ⟨h.ready.toAllLand.dataChanges
    (State.DataChange.host m.state.apiBase asked m.state.output).dataChanges, h.ready.depth_le⟩,
    h.next⟩

/-- One step of a machine that holds on to the method it is about to call, if that method packs
further arguments. Between two steps the host may set and clear the flag that asks for an
interrupt. -/
inductive HeldStep (m : Machine) : Machine → Prop
  | step {m' : Machine} (hheld : m.Held) (hs : m.step = .running m') : HeldStep m m'
  | interrupt (asked : Bool) : HeldStep m (m.withInterrupt asked)

/-- So do any number of steps. -/
theorem Sound.heldSteps {m m' : Machine} (h : m.Sound top)
    (hl : Relation.ReflTransGen HeldStep m m') :
    m'.Sound top := by
  induction hl with
  | refl => exact h
  | tail _ hstep ih =>
    cases hstep with
    | step hheld hs =>
      have hsound := ih.step hheld
      rwa [hs] at hsound
    | interrupt asked => exact ih.withInterrupt asked

end Machine

/-! ## What a host does -/

namespace Proc

variable {α : Type} {top : Proto → Prop}

/-- The machines that run while an action of the host waits for its calls. -/
inductive Runs : Proc α → Machine → Prop
  | now {s : State} {method : Option Value} {argc : Nat} {resume : Bool → State → Proc α}
    {m m' : Machine} (hs : Machine.start s method argc [] = .running m)
    (hm : Relation.ReflTransGen Machine.HeldStep m m') : Runs (.call s method argc resume) m'
  | later {s t : State} {method : Option Value} {argc : Nat} {resume : Bool → State → Proc α}
    {m m' m'' : Machine} {ok : Bool} (hs : Machine.start s method argc [] = .running m)
    (hm : Relation.ReflTransGen Machine.HeldStep m m') (hheld : m'.Held)
    (hend : m'.step = .ended ok t) (hr : Runs (resume ok t) m'') :
    Runs (.call s method argc resume) m''

/-- The state that an action of the host ends in with a result. -/
inductive Leaves : Proc α → State → Prop
  | done (a : α) (s : State) : Leaves (.done a s) s
  | call {s t u : State} {method : Option Value} {argc : Nat} {resume : Bool → State → Proc α}
    {m m' : Machine} {ok : Bool} (hs : Machine.start s method argc [] = .running m)
    (hm : Relation.ReflTransGen Machine.HeldStep m m') (hheld : m'.Held)
    (hend : m'.step = .ended ok t) (hl : Leaves (resume ok t) u) :
    Leaves (.call s method argc resume) u

/-- The machine of a call that a host makes. -/
theorem sound_call {s : State} (h : s.AllLand top) {method : Option Value} {argc : Nat}
    {m m' : Machine} (hs : Machine.start s method argc [] = .running m)
    (hm : Relation.ReflTransGen Machine.HeldStep m m') : m'.Sound top := by
  have hstart : (Machine.start s method argc []).Sound top :=
    Machine.sound_start h method argc nofun .nil nofun
  rw [hs] at hstart
  exact Machine.Sound.heldSteps hstart hm

/-- When a call has ended, the host can go on. -/
theorem allLand_ended {m : Machine} (h : m.Sound top) (hheld : m.Held) {ok : Bool} {t : State}
    (hend : m.step = .ended ok t) : t.Ready top 0 := by
  have hland := h.step hheld
  rw [hend] at hland
  exact ⟨hland, Nat.zero_le _⟩

/-- The machines that an action of the host runs are sound. -/
theorem Safe.runs {p : Proc α} {m : Machine} (hr : p.Runs m)
    (hp : p.Safe top 0 true fun _ t => t.Ready top 0) : m.Sound top := by
  induction hr with
  | now hs hm => exact sound_call hp.2.1 hs hm
  | later hs hm hheld hend _ ih =>
    refine ih (((hp.2.2.2 _ _).safe ?_).imp fun _ _ ht => ht.1)
    exact allLand_ended (sound_call hp.2.1 hs hm) hheld hend

/-- The state it ends in has all frames in their code. -/
theorem Safe.leaves {p : Proc α} {t : State} (hl : p.Leaves t)
    (hp : p.Safe top 0 true fun _ t => t.Ready top 0) : t.AllLand top := by
  induction hl with
  | done a s => exact hp.toAllLand
  | call hs hm hheld hend _ ih =>
    refine ih (((hp.2.2.2 _ _).safe ?_).imp fun _ _ ht => ht.1)
    exact allLand_ended (sound_call hp.2.1 hs hm) hheld hend

end Proc

/-! ## The core module -/

/-- Whether an object is neither code nor a place in code. -/
def Object.isInert : Object → Bool
  | .function _ | .closure _ _ | .generator _ => false
  | _ => true

/-- A heap without code. -/
structure Heap.Codeless (heap : Heap) : Prop where
  tidy : heap.Tidy
  inert : ∀ h o, heap.get? h = some o → o.isInert = true

namespace Heap

variable {heap : Heap}

/-- A new object without code. -/
theorem Codeless.insert (h : heap.Codeless) {o : Object} (ho : o.isInert = true) :
    (heap.insert o).1.Codeless := by
  refine ⟨h.tidy.insert o, fun x o' hx => ?_⟩
  rw [get?_insert h.tidy] at hx
  split at hx
  · cases hx
    exact ho
  · exact h.inert x o' hx

/-- A text. -/
theorem Codeless.intern (h : heap.Codeless) (data : ByteArray) :
    (heap.intern data).1.Codeless := by
  refine ⟨h.tidy.intern data, ?_⟩
  unfold Heap.intern
  dsimp only
  split
  · exact h.inert
  · exact (h.insert (o := .string ⟨data, Text.fnv1a data, true⟩) rfl).inert

/-- A change in place that makes no code. -/
theorem Codeless.update (h : heap.Codeless) (x : Handle) {f : Object → Object}
    (hf : ∀ o, (f o).isInert = o.isInert) : ((heap.update x f).resize x).Codeless := by
  refine ⟨(h.tidy.update x f).resize x, fun y o hy => ?_⟩
  rw [get?_resize, get?_update] at hy
  split at hy
  · obtain ⟨o', ho', rfl⟩ := Option.map_eq_some_iff.1 hy
    rw [hf]
    exact h.inert y o' ho'
  · exact h.inert y o hy

end Heap

namespace Core

open Installation

/-- A function of the host is no code. -/
theorem codeless_addNative {i : Installation} (h : i.heap.Codeless) (s : CoreSignature) :
    (i.addNative s).1.heap.Codeless :=
  (h.intern (Text.octets s.name)).insert rfl

/-- Neither is a method. -/
theorem codeless_addMethod {i : Installation} (h : i.heap.Codeless) (owner : Handle)
    (s : CoreSignature) : (addMethod owner i s).heap.Codeless := by
  have hnative := codeless_addNative h s
  exact hnative.update (f := Object.mapClass fun c => { c with
    methods := c.methods.insert (i.addNative s).2.1 (.object (i.addNative s).2.2) }) owner
    fun o => by cases o <;> rfl

/-- Neither are several methods. -/
theorem codeless_addMethods {i : Installation} (h : i.heap.Codeless) (owner : Handle)
    (methods : List CoreSignature) : (methods.foldl (addMethod owner) i).heap.Codeless := by
  induction methods generalizing i with
  | nil => exact h
  | cons s methods ih => exact ih (codeless_addMethod h owner s)

/-- Neither are classes. -/
theorem codeless_addClasses {i : Installation} (h : i.heap.Codeless) (decls : List CoreClassDecl) :
    (decls.foldl addClass i).heap.Codeless := by
  induction decls generalizing i with
  | nil => exact h
  | cons d decls ih =>
    refine ih (codeless_addMethods ?_ _ d.methods)
    exact (h.intern (Text.octets d.name)).insert rfl

/-- Neither are the functions of the core module. -/
theorem codeless_addFunctions {i : Installation} (h : i.heap.Codeless)
    (functions : List CoreSignature) : (functions.foldl addFunction i).heap.Codeless := by
  induction functions generalizing i with
  | nil => exact h
  | cons s functions ih => exact ih (codeless_addNative h s)

/-- Neither are the names of special methods. -/
theorem codeless_internKeys {heap : Heap} (h : heap.Codeless) (names : List String) :
    (internKeys heap names).1.Codeless := by
  unfold internKeys
  refine List.foldlRecOn (motive := fun r : Heap × Array Key => r.1.Codeless) _ _ h ?_
  exact fun r hr name _ => hr.intern (Text.octets name)

/-- A core module has no code: its functions are functions of the host. -/
theorem codeless_installFrom {heap : Heap} (h : heap.Codeless) (names : List String)
    (decls : List CoreClassDecl) (functions : List CoreSignature) :
    (installFrom names decls functions heap).1.Codeless := by
  have hkeys := codeless_internKeys h names
  unfold installFrom
  generalize internKeys heap names = r at hkeys
  obtain ⟨heap₁, specials⟩ := r
  have hname := hkeys.intern (Text.octets moduleName)
  dsimp only
  generalize heap₁.intern (Text.octets moduleName) = r at hname
  obtain ⟨heap₂, name⟩ := r
  have hmodule := hname.insert (o := .module name .empty) rfl
  dsimp only
  generalize heap₂.insert (.module name .empty) = r at hmodule
  obtain ⟨heap₃, module⟩ := r
  have htexts := (hmodule.intern (Text.octets "")).intern (Text.octets "Assertion failed")
  dsimp only
  generalize heap₃.intern (Text.octets "") = r at htexts
  obtain ⟨heap₄, emptyText⟩ := r
  dsimp only at htexts ⊢
  generalize heap₄.intern (Text.octets "Assertion failed") = r at htexts
  obtain ⟨heap₅, assertionText⟩ := r
  have hstart : (⟨heap₅, module, .empty, #[], emptyText, assertionText⟩ :
    Installation).heap.Codeless := htexts
  have hdone := codeless_addFunctions (codeless_addClasses hstart decls) functions
  dsimp only
  generalize functions.foldl addFunction _ = done at hdone
  exact hdone.update module fun o => by cases o <;> rfl

end Core

/-! ## Sessions -/

/-- An object without code fits together with any code. -/
theorem Object.codeChecked_of_isInert {top : Proto → Prop} {heap : Heap} {o : Object}
    (h : o.isInert = true) : o.CodeChecked top heap := by
  cases o with
  | function f => cases h
  | closure f upvalues => cases h
  | generator g => cases h
  | _ => trivial

/-- The core module has no code. -/
theorem Core.codeless_install (settings : Settings) : (Core.install (Heap.create
    settings.firstGcThreshold settings.heapGrowRate settings.maxHeapBytes)).1.Codeless := by
  have hempty : (Heap.create settings.firstGcThreshold settings.heapGrowRate
      settings.maxHeapBytes).Codeless :=
    ⟨(Heap.Made.create _ _ _).tidy, fun h o ho => by cases ho⟩
  have hcore := Core.codeless_installFrom hempty (Special.table.map (·.2)) CoreClassDecl.schedule
    coreFunctions
  rwa [← Core.install_eq] at hcore

/-- A machine that has run nothing holds no code. -/
theorem State.allLand_withCore (top : Proto → Prop) (settings : Settings) {heap : Heap}
    (h : heap.Codeless) (core : Core) :
    (State.withCore settings heap core).AllLand top ∧
      (State.withCore settings heap core).heap.Codeless := by
  have hname : (heap.internKey Core.moduleName).1.Codeless := h.intern _
  unfold State.withCore
  generalize heap.internKey Core.moduleName = r at hname
  obtain ⟨heap', name⟩ := r
  exact ⟨⟨⟨hname.tidy, fun y o ho => Object.codeChecked_of_isInert (hname.inert y o ho), nofun,
    nofun⟩,
    nofun⟩, hname⟩

/-- A machine that has been created has none, and no frames. -/
theorem State.allLand_create (top : Proto → Prop) (settings : Settings) :
    (State.create settings).AllLand top ∧ (State.create settings).heap.Codeless := by
  rw [State.create_eq]
  exact State.allLand_withCore top settings (Core.codeless_install settings) _

/-- The machines of a host that evaluates modules and leaves code alone in between. All modules it
evaluates or lets scripts import have top-level code of some kind. -/
inductive Session (top : Proto → Prop) : State → Prop
  | create (settings : Settings) : Session top (.create settings)
  | register {s : State} (h : Session top s) (name : NativeName) (f : HostFunction) :
    Session top (s.register name f)
  | offer {s : State} (h : Session top s) (modules : List (String × Bytecode.Module))
    (hm : ∀ e ∈ modules, top e.2.main) : Session top { s with importable := modules }
  | act {s t : State} (h : Session top s) {α : Type} {x : Act α} (hx : Act.LeavesCode true x)
    (hl : (x s).Leaves t) : Session top t
  | eval {s t : State} (h : Session top s) (name : String) {m : Bytecode.Module}
    (hm : top m.main) (hl : (Act.evalModule name m s).Leaves t) : Session top t

/-- Evaluating a module keeps code together. -/
theorem Act.safe_evalModule {top : Proto → Prop} {s : State} (h : s.AllLand top) (name : String)
    {m : Bytecode.Module} (hm : top m.main) :
    (evalModule name m s).Safe top 0 true fun _ t => t.Ready top 0 := by
  unfold evalModule
  cases hverify : m.main.verify with
  | error e => exact ⟨h, Nat.zero_le _⟩
  | ok u =>
    refine Proc.Safe.bind ((within_internKey name).leavesCode.ready ⟨h, Nat.zero_le _⟩)
      fun key t ht => ?_
    refine Proc.Safe.bind (keepsReady_load key hverify hm t ht) fun closure u hu => ?_
    refine LeavesCode.ready (Within.leavesCode ?_) hu
    repeat' first | with_reducible refine Within.bind ?_ fun _ => ?_ | split
    all_goals simp [height]

/-- In all states of a host every frame goes on in its code. -/
theorem Session.allLand {top : Proto → Prop} {s : State} (h : Session top s) : s.AllLand top := by
  induction h with
  | create settings => exact (State.allLand_create top settings).1
  | register _ name f ih =>
    exact ⟨⟨ih.tidy, ih.objects, ih.frames, ih.importable⟩, ih.lands⟩
  | offer _ modules hm ih => exact ⟨⟨ih.tidy, ih.objects, ih.frames, hm⟩, ih.lands⟩
  | act _ hx hl ih => exact Proc.Safe.leaves hl (hx.ready ⟨ih, Nat.zero_le _⟩)
  | eval _ name hm hl ih => exact Proc.Safe.leaves hl (Act.safe_evalModule ih name hm)

/-! ## Code and captured variables -/

/-- Jumps of code that has passed the checks land in it, unless one goes just past its end; and in
every run of such code, every frame with such a prototype has an instruction to go on with. -/
theorem Session.runs_within_code {s : State} (hs : Session (fun _ => True) s) (name : String)
    {m : Bytecode.Module} (hm : m.main.verify = .ok ()) :
    (∀ p, m.main.Nested p → ¬ p.Overruns → ∀ (offset : Nat) (op : Op),
      p.chunk.code[offset]? = some op →
        (∀ target, op.forwardTarget? offset = some target → target < p.chunk.code.size) ∧
        ∀ distance, op = .loop distance → distance.toNat ≤ offset + 1 ∧
          offset + 1 - distance.toNat < p.chunk.code.size) ∧
    ∀ machine, (Act.evalModule name m s).Runs machine → ∀ f ∈ machine.state.frames,
      ¬ f.proto.Overruns → ∃ op, f.proto.chunk.code[f.ip]? = some op := by
  constructor
  · intro p hp hno offset op hop
    have hfits := verify_iff.1 hm p hp
    refine ⟨fun target ht => ?_, ?_⟩
    · exact (hfits.lands_forward hop ht).resolve_right fun h => hno h.2
    · rintro distance rfl
      refine ⟨(hfits.code offset _ hop).backward distance rfl, ?_⟩
      exact Nat.lt_of_le_of_lt (Nat.sub_le _ _) (hfits.lt_of_ne_return hop nofun)
  · intro machine hr f hf hno
    have hsound := Proc.Safe.runs hr (Act.safe_evalModule hs.allLand name trivial)
    have hlt := (hsound.ready.lands f hf).resolve_right fun h => hno h.2
    exact ⟨_, Array.getElem?_eq_getElem hlt⟩

/-- If top-level code counts no captured variables, then in every run every frame has a closure with
as many captured variables as its prototype counts, and its code refers to none but these. -/
theorem Session.captures_known {s : State} (hs : Session (·.upvalueCount = 0) s) (name : String)
    {m : Bytecode.Module} (hm : m.main.upvalueCount = 0) {machine : Machine}
    (hr : (Act.evalModule name m s).Runs machine) {f : Frame} (hf : f ∈ machine.state.frames) :
    ∃ upvalues, machine.state.heap.get? f.closure = some (.closure f.function upvalues) ∧
      upvalues.size = f.proto.upvalueCount.toNat ∧
      ∀ (offset : Nat) (op : Op), f.proto.chunk.code[offset]? = some op →
        (∀ i, op = .getUpvalue i ∨ op = .setUpvalue i → i.toNat < upvalues.size) ∧
        ∀ i captures, op = .closure i captures →
          ∀ c ∈ captures, c.isLocal = false → c.index.toNat < upvalues.size := by
  have hsound := Proc.Safe.runs hr (Act.safe_evalModule hs.allLand name hm)
  have hready := hsound.ready
  obtain ⟨⟨upvalues, hclosure⟩, hfun⟩ := (hready.frames f hf).backs
  obtain ⟨hverify, hcount⟩ := hready.closure hclosure hfun
  have hsize : upvalues.size = f.proto.upvalueCount.toNat := by
    rcases hcount with hcount | ⟨hempty, hnone⟩
    · exact hcount
    · rw [hempty, hnone]
      rfl
  refine ⟨upvalues, hclosure, hsize, fun offset op hop => ?_⟩
  have hfits := (verify_eq_ok.1 hverify).1.code offset op hop
  rw [hsize]
  exact ⟨hfits.upvalue, hfits.captures⟩

/-- In all states of all runs the machine can go on. -/
theorem Session.ready_runs {top : Proto → Prop} {s : State} (hs : Session top s) (name : String)
    {m : Bytecode.Module} (hm : top m.main) {machine : Machine}
    (hr : (Act.evalModule name m s).Runs machine) :
    machine.state.Ready top machine.call.depth :=
  (Proc.Safe.runs hr (Act.safe_evalModule hs.allLand name hm)).ready

/-- In every run a function that some closure calls has no more defaults than parameters, so that the
fewest arguments it takes are its parameters without a default. -/
theorem Session.defaults_fit {s : State} (hs : Session (fun _ => True) s) (name : String)
    {m : Bytecode.Module} {machine : Machine} (hr : (Act.evalModule name m s).Runs machine)
    {closure function : Handle} {upvalues : Array Handle} {f : FunctionObject}
    (hc : machine.state.heap.get? closure = some (.closure function upvalues))
    (hf : machine.state.heap.get? function = some (.function f)) :
    f.signature.defaults.size ≤ f.signature.arity ∧
      f.signature.least + f.signature.defaults.size = f.signature.arity := by
  have hready := hs.ready_runs name trivial hr
  obtain ⟨hverify, -⟩ := hready.closure hc ⟨f, hf, rfl⟩
  have hdefaults : f.signature.defaults.size ≤ f.signature.arity := by
    change f.defaults.size ≤ f.proto.arity.toNat
    rw [(hready.objects _ _ hf).1]
    exact (verify_eq_ok.1 hverify).1.defaults
  exact ⟨hdefaults, Nat.sub_add_cancel hdefaults⟩

/-! ## A run with two frames -/

namespace Machine

/-- Whether a machine is not about to call a method by name. -/
def isDirect (m : Machine) : Bool :=
  match m.control with
  | .enter (some _) _ => false
  | _ => true

/-- A machine that calls no method by its name holds whatever it is about to call. -/
theorem held_of_isDirect {m : Machine} (h : m.isDirect = true) : m.Held := by
  intro y argc hcontrol
  rw [isDirect, hcontrol] at h
  cases h

/-- The machine after a number of steps, none of which calls a method by name. -/
def advance : Nat → Machine → Option Machine
  | 0, m => some m
  | steps + 1, m =>
    match m.isDirect, m.step with
    | true, .running m' => advance steps m'
    | _, _ => none

/-- Steps that call no method by its name. -/
theorem heldSteps_of_advance {steps : Nat} {m m' : Machine} (h : m.advance steps = some m') :
    Relation.ReflTransGen HeldStep m m' := by
  induction steps generalizing m with
  | zero =>
    cases h
    exact .refl
  | succ steps ih =>
    unfold advance at h
    split at h
    · next m₁ hdirect hstep => exact .head (.step (held_of_isDirect hdirect) hstep) (ih h)
    · cases h

end Machine

/-- The machine of a host's call after a number of steps. -/
def Proc.machineAfter {α : Type} (steps : Nat) : Proc α → Option Machine
  | .call s method argc _ =>
    match Machine.start s method argc [] with
    | .running m => m.advance steps
    | _ => none
  | _ => none

/-- A machine after some steps of the first call runs. -/
theorem Proc.runs_of_machineAfter {α : Type} {steps : Nat} {p : Proc α} {m : Machine}
    (h : p.machineAfter steps = some m) : p.Runs m := by
  unfold machineAfter at h
  split at h
  · split at h
    · next hs => exact .now hs (Machine.heldSteps_of_advance h)
    · cases h
  · cases h

/-- Top-level code that calls a function with a captured variable and then jumps over an
instruction. -/
def capturingModule : Bytecode.Module where
  file := ""
  main :=
    { name := ""
      arity := 0
      defaults := #[]
      vararg := false
      upvalueCount := 0
      chunk :=
        { code := #[.null, .closure 0 [⟨true, 1⟩], .callShort 0, .jump 1, .pop, .return]
          constants := #[.function
            { name := "inner"
              arity := 0
              defaults := #[]
              vararg := false
              upvalueCount := 1
              chunk := ⟨#[.getUpvalue 0, .return], #[], ⟨#[⟨1, 2⟩]⟩⟩ }]
          lines := ⟨#[⟨1, 6⟩]⟩ } }

/-- Six steps on, the top-level code waits for the function. -/
theorem exists_machine_capturingModule : ∃ machine,
    (Act.evalModule Act.mainModule capturingModule (.create .default)).Runs machine ∧
      machine.state.frames.toList.map
        (fun f => (f.proto.chunk.code, f.proto.upvalueCount, f.ip)) =
        [(capturingModule.main.chunk.code, 0, 3), (#[.getUpvalue 0, .return], 1, 1)] := by
  have hframes :
      ((Act.evalModule Act.mainModule capturingModule (.create .default)).machineAfter 6).map
        (fun m => m.state.frames.toList.map
          fun f => (f.proto.chunk.code, f.proto.upvalueCount, f.ip)) =
        some [(capturingModule.main.chunk.code, 0, 3), (#[.getUpvalue 0, .return], 1, 1)] := by
    decide +kernel
  obtain ⟨machine, hm, hframes⟩ := Option.map_eq_some_iff.1 hframes
  exact ⟨machine, Proc.runs_of_machineAfter hm, hframes⟩

/-- Both frames have an instruction to go on with. -/
theorem Session.runs_within_capturingModule : ∃ machine,
    (Act.evalModule Act.mainModule capturingModule (.create .default)).Runs machine ∧
      machine.state.frames.size = 2 ∧
      ∀ f ∈ machine.state.frames, ∃ op, f.proto.chunk.code[f.ip]? = some op := by
  obtain ⟨machine, hr, hframes⟩ := exists_machine_capturingModule
  refine ⟨machine, hr, by simpa using congrArg List.length hframes, fun f hf => ?_⟩
  refine (Session.runs_within_code (.create .default) _ ?_).2 machine hr f hf ?_
  · rfl
  · have hmem := List.mem_map_of_mem (f := fun f => (f.proto.chunk.code, f.proto.upvalueCount, f.ip))
      (Array.mem_toList_iff.2 hf)
    rw [hframes] at hmem
    rw [Proto.overruns_iff]
    rcases List.mem_pair.1 hmem with heq | heq
    all_goals
      rw [show f.proto.chunk.code = _ from (Prod.ext_iff.1 heq).1]
      decide

/-- The function is called with no more defaults than parameters. -/
theorem Session.defaults_fit_capturingModule : ∃ machine closure function upvalues f,
    (Act.evalModule Act.mainModule capturingModule (.create .default)).Runs machine ∧
      machine.state.heap.get? closure = some (.closure function upvalues) ∧
      machine.state.heap.get? function = some (.function f) ∧
      f.signature.defaults.size ≤ f.signature.arity ∧
      f.signature.least + f.signature.defaults.size = f.signature.arity := by
  obtain ⟨machine, hr, hframes⟩ := exists_machine_capturingModule
  have hs : Session (fun _ => True) (.create .default) := .create .default
  have hsize : machine.state.frames.size = 2 := by simpa using congrArg List.length hframes
  obtain ⟨x, hx⟩ : ∃ x, x ∈ machine.state.frames := ⟨machine.state.frames[1], Array.getElem_mem _⟩
  obtain ⟨⟨upvalues, hc⟩, f, hf, -⟩ := ((hs.ready_runs _ True.intro hr).frames x hx).backs
  exact ⟨machine, _, _, upvalues, f, hr, hc, hf, hs.defaults_fit _ hr hc hf⟩

/-- The frame of the function has the one captured variable. -/
theorem Session.captures_capturingModule : ∃ machine,
    (Act.evalModule Act.mainModule capturingModule (.create .default)).Runs machine ∧
      machine.state.frames.toList.map (·.proto.upvalueCount) = [0, 1] ∧
      ∀ f ∈ machine.state.frames, ∃ upvalues,
        machine.state.heap.get? f.closure = some (.closure f.function upvalues) ∧
          upvalues.size = f.proto.upvalueCount.toNat := by
  obtain ⟨machine, hr, hframes⟩ := exists_machine_capturingModule
  refine ⟨machine, hr, ?_, fun f hf => ?_⟩
  · have := congrArg (List.map fun e => e.2.1) hframes
    rwa [List.map_map] at this
  · obtain ⟨upvalues, hclosure, hsize, -⟩ :=
      Session.captures_known (.create .default) _ (m := capturingModule) rfl hr hf
    exact ⟨upvalues, hclosure, hsize⟩

end ScriptEngine
