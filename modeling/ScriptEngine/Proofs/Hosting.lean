import ScriptEngine.Proofs.Turning
import ScriptEngine.Proofs.VerifiedRuns

/-!
# Runs of a host in turns

Every step of a machine is a turn, and waiting actions go on without one. So what no turn and no
change that concerns neither generators nor classes breaks holds in every state of every run, of
everything that a host runs one after the other. A run is kept together with what it has done to
classes so far, so that what holds may depend on that.
-/

namespace ScriptEngine

open Bytecode

/-! ## Strings stay interned -/

namespace State

variable {s t : State} {event : Option ClassEvent}

/-- Strings are interned in a heap, and texts have the keys that they have in another one. -/
def Texts (heap heap' : Heap) : Prop :=
  heap'.Interned ∧ ∀ name, heap'.lookupKey name = heap.lookupKey name

/-- Heaps that keep the keys of texts, one after the other. -/
theorem Texts.trans {heap heap' heap'' : Heap} (h : Texts heap heap') (h' : Texts heap' heap'') :
    Texts heap heap'' :=
  ⟨h'.1, fun name => (h'.2 name).trans (h.2 name)⟩

/-- A change in place that leaves strings alone. -/
theorem texts_update (hi : s.heap.Interned) (h : Handle) {f : Object → Object}
    (hf : ∀ text, f (.string text) = .string text) : Texts s.heap (s.update h f).heap := by
  have hchange : Texts s.heap (s.heap.update h f) := by
    by_cases hs : ∃ text, s.heap.get? h = some (.string text)
    · obtain ⟨text, htext⟩ := hs
      refine texts_update_shell hi fun o ho => ?_
      rw [htext] at ho
      cases ho
      rw [hf text]
    · exact hi.update fun text htext => hs ⟨text, htext⟩
  exact hchange.trans (hchange.1.resize h)

/-- Leaving a frame keeps the keys of texts. -/
theorem Leave.texts (h : s.Leave t) (hi : s.heap.Interned) : Texts s.heap t.heap := by
  obtain ⟨f, -, ha⟩ := h
  have hrest : ∀ u : State, Texts s.heap u.heap → (u.closeUpvalues f.base).Alike t →
      Texts s.heap t.heap :=
    fun u hu ha => hu.trans (((alike_closeUpvalues u f.base).trans ha).texts hu.1)
  unfold leaveFrame at ha
  cases hg : f.generator with
  | none =>
    rw [hg] at ha
    exact hrest s.dropFrame ⟨hi, fun _ => rfl⟩ ha
  | some g =>
    rw [hg] at ha
    exact hrest _ (texts_update (s := s.dropFrame) hi g fun _ => rfl) ha

/-- So does leaving frames. -/
theorem texts_leaves (h : Relation.ReflTransGen Leave s t) (hi : s.heap.Interned) :
    Texts s.heap t.heap := by
  induction h with
  | refl => exact ⟨hi, fun _ => rfl⟩
  | tail _ hl ih => exact ih.trans (hl.texts ih.1)

/-- A turn keeps the keys of texts. -/
theorem Turn.texts (h : Turn event s t) (hi : s.heap.Interned) : Texts s.heap t.heap := by
  cases h with
  | leave h => exact texts_leaves h hi
  | make o ho h =>
    have hmade : Texts s.heap _ := hi.insert (.generator o)
    exact hmade.trans (texts_leaves h hmade.1)
  | @resume _ g o f hg ho hf =>
    rw [heap_awaken]
    exact hi.update (by rw [hg]; nofun)
  | suspend hf hg change hc => exact texts_update (s := s.dropFrame) hi _ fun _ => rfl
  | close hf hg => exact texts_update hi _ fun _ => rfl
  | made text => exact hi.insert _
  | inherits hc hp hb => exact texts_update hi _ fun _ => rfl
  | defines method hc hn => exact texts_update hi _ fun _ => rfl

/-- After a turn strings are interned. -/
theorem Turn.interned (h : Turn event s t) (hi : s.heap.Interned) : t.heap.Interned := (h.texts hi).1

/-- After a move strings are interned. -/
theorem Moves.interned (h : Moves event s t) (hi : s.heap.Interned) : t.heap.Interned := by
  obtain ⟨u, v, hu, hturn, hv⟩ := h
  exact hv.interned (hturn.interned (hu.interned hi))

end State

/-! ## Steps -/

namespace Machine

variable {m : Machine} {call : Call} {waiting : List Waiting} {event : Option ClassEvent}
  {s t : State}

/-- What the next step does to a class. -/
def declared (m : Machine) : Option ClassEvent :=
  match m.control with
  | .next => (Act.fetch m.state).announces Act.declared
  | _ => none

/-- Actions that wait go on without a turn. -/
def Waits (waiting : List Waiting) : Prop :=
  ∀ w ∈ waiting, ∀ ok u, (w.resume ok u).Within State.NeutralChange true u

/-- Fetching an instruction concerns neither generators nor classes. -/
theorem neutral_fetch {r : State → State → Prop} [AdmitsNeutralChanges r] {calls : Bool} :
    Act.Within r calls Act.fetch := by
  intro s
  unfold Act.fetch
  split
  · trivial
  · split
    · trivial
    · exact .single (AdmitsNeutralChanges.frames s _ (s.keepsBodies_modifyFrame fun _ => rfl))

/-- What a machine does next is a turn. -/
theorem turns_action (hi : m.state.heap.Interned) :
    (action m.control m.state).Turns m.declared m.state := by
  unfold declared
  cases m.control with
  | next =>
    exact Proc.Turns.bind_announces (neutral_fetch m.state) fun op t hop =>
      Act.turns_execute ((Act.neutral_done neutral_fetch hop).interned hi) op
  | enter method argc =>
    cases method with
    | none => exact Act.turns_enterValue argc m.state
    | some method => exact Proc.Within.turns (Act.neutral_enterMethod method argc m.state)
  | spread v iter next => exact Proc.Within.turns (Act.within_spreadElement v iter next m.state)
  | refuse => exact Proc.Within.turns (Act.within_overflow (α := Control) m.state)
  | leave returned => exact Proc.Within.turns (Act.within_pure _ m.state)

end Machine

/-- A status that a turn leads to, with actions waiting that go on without one. -/
def Status.Follows (event : Option ClassEvent) (s : State) : Status → Prop
  | .running m => State.Moves event s m.state ∧ Machine.Waits m.waiting
  | .ended _ t => event = none ∧ s.NeutralChanges t
  | .fault _ => True

namespace Machine

variable {m : Machine} {call : Call} {waiting : List Waiting} {event : Option ClassEvent}
  {s t : State}

/-- A call starts without a turn. -/
theorem follows_start (h : s.NeutralChanges t) (method : Option Value) (argc : Nat)
    (hw : Waits waiting) : (start t method argc waiting).Follows none s := by
  unfold start
  split
  · exact ⟨h.moves, hw⟩
  · trivial

/-- What becomes of an action. -/
theorem follows_absorb {p : Proc Control} (hp : p.Turns event s) (hw : Waits waiting) :
    (absorb call waiting p).Follows event s := by
  cases p with
  | done control t =>
    cases control with
    | next =>
      rw [absorb]
      split
      · exact ⟨hp, hw⟩
      split
      · exact ⟨hp, hw⟩
      · exact ⟨hp.alike (State.alike_of_heap rfl rfl rfl), hw⟩
    | _ => exact ⟨hp, hw⟩
  | raised t =>
    obtain ⟨rfl, ht⟩ := hp
    have hunwind := State.moves_unwind ht call.depth
    rw [absorb]
    split
    · next u hu =>
      rw [hu] at hunwind
      exact ⟨hunwind, hw⟩
    · next u hu =>
      rw [hu] at hunwind
      exact ⟨hunwind.alike (State.alike_settle _ _), hw⟩
  | fault e => trivial
  | call t method argc resume =>
    obtain ⟨rfl, ht, hresume⟩ := hp
    exact follows_start ht method argc (List.forall_mem_cons.2 ⟨hresume, hw⟩)

/-- Every step is a turn. -/
theorem follows_step (hi : m.state.heap.Interned) (hw : Waits m.waiting) :
    m.step.Follows m.declared m.state := by
  have haction := turns_action hi
  obtain ⟨s, control, call, waiting⟩ := m
  cases control with
  | leave returned =>
    unfold step
    dsimp only
    have hleft : s.NeutralChanges (if call.entered then s.leaveScript else s) := by
      split
      · exact s.neutral_reentrant _
      · exact .refl
    cases waiting with
    | nil => exact ⟨rfl, hleft⟩
    | cons w rest =>
      obtain ⟨hhead, hrest⟩ := List.forall_mem_cons.1 hw
      exact follows_absorb (.of_neutralChanges hleft (hhead returned _).turns) hrest
  | _ => exact follows_absorb haction hw

/-- What a machine that runs for a host keeps to. -/
structure Steady (m : Machine) : Prop where
  interned : m.state.heap.Interned
  waits : Waits m.waiting

/-- A step is a move. -/
theorem Steady.moves {m' : Machine} (h : m.Steady) (hs : m.step = .running m') :
    State.Moves m.declared m.state m'.state := by
  have hstep := follows_step h.interned h.waits
  rw [hs] at hstep
  exact hstep.1

/-- A machine that is steady stays so. -/
theorem Steady.step {m' : Machine} (h : m.Steady) (hs : m.step = .running m') : m'.Steady := by
  have hstep := follows_step h.interned h.waits
  rw [hs] at hstep
  exact ⟨hstep.1.interned h.interned, hstep.2⟩

/-- A machine that ends does nothing to classes. -/
theorem Steady.ended {ok : Bool} (h : m.Steady) (hs : m.step = .ended ok t) :
    m.declared = none ∧ m.state.NeutralChanges t := by
  have hstep := follows_step h.interned h.waits
  rwa [hs] at hstep

/-- Asking for an interrupt is something that host-side code may do. -/
theorem hostChange_withInterrupt (m : Machine) (asked : Bool) :
    m.state.HostChange (m.withInterrupt asked).state :=
  .host m.state.apiBase asked m.state.output

/-- A machine that is steady stays so when its host asks for an interrupt. -/
theorem Steady.withInterrupt (h : m.Steady) (asked : Bool) : (m.withInterrupt asked).Steady :=
  ⟨h.interned, h.waits⟩

/-- A machine that starts is steady. -/
theorem steady_start {method : Option Value} {argc : Nat} (hi : s.heap.Interned)
    (hs : start s method argc [] = .running m) : m.Steady ∧ m.state = s := by
  unfold start at hs
  split at hs
  · cases hs
    exact ⟨⟨hi, nofun⟩, rfl⟩
  · cases hs

/-! ## Runs -/

/-- The machines that a machine becomes, each with what has been done to classes until then. Between
two steps the host may set and clear the flag that asks for an interrupt. -/
inductive Logs (m : Machine) : List ClassEvent → Machine → Prop
  | refl : Logs m [] m
  | step {log : List ClassEvent} {m' m'' : Machine} (h : Logs m log m')
    (hs : m'.step = .running m'') : Logs m (log ++ m'.declared.toList) m''
  | interrupt {log : List ClassEvent} {m' : Machine} (h : Logs m log m') (asked : Bool) :
    Logs m log (m'.withInterrupt asked)

/-- A step before a run. -/
theorem Logs.of_step {log : List ClassEvent} {m' m'' : Machine} (hs : m.step = .running m')
    (h : Logs m' log m'') : Logs m (m.declared.toList ++ log) m'' := by
  induction h with
  | refl => simpa using Logs.step .refl hs
  | step _ hs' ih =>
    rw [← List.append_assoc]
    exact ih.step hs'
  | interrupt _ asked ih => exact ih.interrupt asked

/-- The machine after a number of steps, with what has been done to classes until then. -/
def trace : Nat → Machine → Option (List ClassEvent × Machine)
  | 0, m => some ([], m)
  | steps + 1, m =>
    match m.step with
    | .running m' => (trace steps m').map fun (log, m'') => (m.declared.toList ++ log, m'')
    | _ => none

/-- A run that is computed. -/
theorem logs_of_trace {steps : Nat} {log : List ClassEvent} {m' : Machine}
    (h : m.trace steps = some (log, m')) : m.Logs log m' := by
  induction steps generalizing m log with
  | zero =>
    cases h
    exact .refl
  | succ steps ih =>
    unfold trace at h
    split at h
    · next m₁ hs =>
      obtain ⟨⟨log', m₂⟩, hrest, heq⟩ := Option.map_eq_some_iff.1 h
      cases heq
      exact (ih hrest).of_step hs
    · cases h

end Machine

namespace Proc

variable {α : Type}

/-- The machines that run while an action of the host waits for its calls. -/
inductive During : Proc α → List ClassEvent → Machine → Prop
  | now {s : State} {method : Option Value} {argc : Nat} {resume : Bool → State → Proc α}
    {log : List ClassEvent} {m m' : Machine} (hs : Machine.start s method argc [] = .running m)
    (hm : m.Logs log m') : During (.call s method argc resume) log m'
  | later {s t : State} {method : Option Value} {argc : Nat} {resume : Bool → State → Proc α}
    {log log' : List ClassEvent} {m m' m'' : Machine} {ok : Bool}
    (hs : Machine.start s method argc [] = .running m) (hm : m.Logs log m')
    (hend : m'.step = .ended ok t) (hd : During (resume ok t) log' m'') :
    During (.call s method argc resume) (log ++ log') m''

/-- The machine of a host's call after a number of steps, with what has been done to classes until
then. -/
def trace (steps : Nat) : Proc α → Option (List ClassEvent × Machine)
  | .call s method argc _ =>
    match Machine.start s method argc [] with
    | .running m => m.trace steps
    | _ => none
  | _ => none

/-- A run of a host's call that is computed. -/
theorem during_of_trace {steps : Nat} {p : Proc α} {log : List ClassEvent} {m : Machine}
    (h : p.trace steps = some (log, m)) : p.During log m := by
  unfold trace at h
  split at h
  · split at h
    · next hs => exact .now hs (Machine.logs_of_trace h)
    · cases h
  · cases h

/-- The states that an action of the host ends in. -/
inductive After : Proc α → List ClassEvent → State → Prop
  | done (a : α) (s : State) : After (.done a s) [] s
  | raised (s : State) : After (.raised s) [] s
  | call {s t u : State} {method : Option Value} {argc : Nat} {resume : Bool → State → Proc α}
    {log log' : List ClassEvent} {m m' : Machine} {ok : Bool}
    (hs : Machine.start s method argc [] = .running m) (hm : m.Logs log m')
    (hend : m'.step = .ended ok t) (ha : After (resume ok t) log' u) :
    After (.call s method argc resume) (log ++ log') u

end Proc

/-- The states of a host, from a first one on, that evaluates modules and does what hosts do in
between, each with what has been done to classes until then. -/
inductive Hosted (first : State) : List ClassEvent → State → Prop
  | start : Hosted first [] first
  | register {log : List ClassEvent} {s : State} (h : Hosted first log s) (name : NativeName)
    (f : HostFunction) : Hosted first log (s.register name f)
  | offer {log : List ClassEvent} {s : State} (h : Hosted first log s)
    (modules : List (String × Bytecode.Module)) : Hosted first log { s with importable := modules }
  | act {log log' : List ClassEvent} {s t : State} (h : Hosted first log s) {α : Type} {x : Act α}
    (hx : Act.Within State.HostChange true x) (ha : (x s).After log' t) :
    Hosted first (log ++ log') t
  | eval {log log' : List ClassEvent} {s t : State} (h : Hosted first log s) (name : String)
    (m : Bytecode.Module) (ha : (Act.evalModule name m s).After log' t) :
    Hosted first (log ++ log') t

/-- Evaluating a module loads code and calls it. -/
theorem Act.neutral_evalModule {r : State → State → Prop} [AdmitsLoading r] {s : State}
    (hi : s.heap.Interned) (name : String) (m : Bytecode.Module) :
    (evalModule name m s).Within r true s := by
  unfold evalModule
  cases m.main.verify with
  | error e => exact .refl
  | ok u =>
    obtain ⟨hgrows, hkey⟩ := Heap.grows_internKey hi name
    obtain ⟨-, hstring⟩ := hgrows.interned.lookupKey.1 hkey
    have hnames : Names { s with heap := (s.heap.internKey name).1 } (s.heap.internKey name).2 :=
      ⟨_, hstring, (hgrows.interned.hash_lookupKey hkey).2.symm⟩
    refine Proc.Within.of_steps (State.steps_heap (.intern _))
      ((neutral_load hnames m).bind fun closure t => ?_)
    refine Within.bind within_height (fun height => .bind (within_push _) fun _ => ?_) t
    refine .bind (within_callSync 0).attempt fun returned => ?_
    split
    · exact (within_truncate _).bind fun _ => within_pure _
    · exact (within_gets _).bind fun _ => (within_truncate _).bind fun _ => within_pure _

/-! ## What a run does to a state -/

/-- What becomes of a state, with what is done to classes meanwhile. -/
inductive State.Becomes (s : State) : List ClassEvent → State → Prop
  | refl : Becomes s [] s
  | neutral {log : List ClassEvent} {t u : State} (h : Becomes s log t) (hc : t.NeutralChange u) :
    Becomes s log u
  | turn {log : List ClassEvent} {t u : State} {event : Option ClassEvent} (h : Becomes s log t)
    (ht : State.Turn event t u) : Becomes s (log ++ event.toList) u
  | alike {log : List ClassEvent} {t u : State} (h : Becomes s log t) (ha : t.Alike u) :
    Becomes s log u

section Becomes

variable {log log' : List ClassEvent} {s t u : State} {m m' : Machine} {α : Type} {p : Proc α}

namespace State

/-- What becomes of a state, and then of that. -/
theorem Becomes.trans (h : s.Becomes log t) (h' : t.Becomes log' u) :
    s.Becomes (log ++ log') u := by
  induction h' with
  | refl => rwa [List.append_nil]
  | neutral _ hc ih => exact ih.neutral hc
  | turn _ ht ih =>
    rw [← List.append_assoc]
    exact ih.turn ht
  | alike _ ha ih => exact ih.alike ha

/-- Strings stay interned. -/
theorem Becomes.interned (h : s.Becomes log t) (hi : s.heap.Interned) : t.heap.Interned := by
  induction h with
  | refl => exact hi
  | neutral _ hc ih => exact hc.interned ih
  | turn _ ht ih => exact ht.interned ih
  | alike _ ha ih => exact ha.interned ih

/-- Changes that concern neither generators nor classes do nothing to classes. -/
theorem NeutralChanges.becomes (h : s.NeutralChanges t) : s.Becomes [] t := by
  induction h with
  | refl => exact .refl
  | tail _ hc ih => exact ih.neutral hc

/-- A move does to classes what its turn does. -/
theorem Moves.becomes {event : Option ClassEvent} (h : Moves event s t) :
    s.Becomes event.toList t := by
  obtain ⟨u, v, hu, hturn, hv⟩ := h
  exact (Becomes.turn (NeutralChanges.becomes hu) hturn).alike hv

end State

/-- The machines of a run. -/
theorem Machine.Logs.becomes (h : m.Logs log m') (hs : m.Steady) :
    m'.Steady ∧ m.state.Becomes log m'.state := by
  induction h with
  | refl => exact ⟨hs, .refl⟩
  | step _ hstep ih => exact ⟨ih.1.step hstep, ih.2.trans (ih.1.moves hstep).becomes⟩
  | interrupt _ asked ih =>
    exact ⟨ih.1.withInterrupt asked, ih.2.neutral (.hostChange (hostChange_withInterrupt _ asked))⟩

namespace Proc

/-- The machine of a call that a host makes. -/
theorem becomes_call {method : Option Value} {argc : Nat} (hi : s.heap.Interned)
    (hs : Machine.start s method argc [] = .running m) (hl : m.Logs log m') :
    m'.Steady ∧ s.Becomes log m'.state := by
  obtain ⟨hsteady, rfl⟩ := Machine.steady_start hi hs
  exact hl.becomes hsteady

/-- The state when a call that a host makes has ended. -/
theorem becomes_ended {method : Option Value} {argc : Nat} (hi : s.heap.Interned)
    (hs : Machine.start s method argc [] = .running m) (hl : m.Logs log m') {ok : Bool}
    (hend : m'.step = .ended ok t) : s.Becomes log t := by
  obtain ⟨hsteady, hbecomes⟩ := becomes_call hi hs hl
  simpa using hbecomes.trans (hsteady.ended hend).2.becomes

/-- The machines that an action of the host runs. -/
theorem During.becomes (hd : p.During log m) (hi : s.heap.Interned)
    (hp : p.Within State.NeutralChange true s) : m.Steady ∧ s.Becomes log m.state := by
  induction hd generalizing s with
  | now hs hm =>
    have hfirst : s.Becomes [] _ := State.NeutralChanges.becomes hp.2.1
    obtain ⟨hsteady, hthen⟩ := becomes_call (hfirst.interned hi) hs hm
    exact ⟨hsteady, hfirst.trans hthen⟩
  | later hs hm hend _ ih =>
    have hfirst : s.Becomes [] _ := State.NeutralChanges.becomes hp.2.1
    have hcall := hfirst.trans (becomes_ended (hfirst.interned hi) hs hm hend)
    obtain ⟨hsteady, hthen⟩ := ih (hcall.interned hi) (hp.2.2 _ _)
    exact ⟨hsteady, hcall.trans hthen⟩

/-- The states that it ends in. -/
theorem After.becomes (ha : p.After log t) (hi : s.heap.Interned)
    (hp : p.Within State.NeutralChange true s) : s.Becomes log t := by
  induction ha generalizing s with
  | done a u => exact State.NeutralChanges.becomes hp
  | raised u => exact State.NeutralChanges.becomes hp
  | call hs hm hend _ ih =>
    have hfirst : s.Becomes [] _ := State.NeutralChanges.becomes hp.2.1
    have hcall := hfirst.trans (becomes_ended (hfirst.interned hi) hs hm hend)
    exact hcall.trans (ih (hcall.interned hi) (hp.2.2 _ _))

end Proc

/-- The states of a host. -/
theorem Hosted.becomes {first : State} (h : Hosted first log s) (hi : first.heap.Interned) :
    first.Becomes log s := by
  induction h with
  | start => exact .refl
  | register _ name f ih => exact ih.alike (State.alike_of_heap rfl rfl rfl)
  | offer _ modules ih => exact ih.alike (State.alike_of_heap rfl rfl rfl)
  | act _ hx ha ih =>
    exact ih.trans (ha.becomes (ih.interned hi) ((hx _).mono (fun _ _ hs => .hostChange hs) id))
  | eval _ name m ha ih =>
    exact ih.trans (ha.becomes (ih.interned hi) (Act.neutral_evalModule (ih.interned hi) name m))

/-- The machines of a module that a host evaluates. -/
theorem Hosted.during {settings : Settings} (h : Hosted (.create settings) log s) {name : String}
    {module : Bytecode.Module} (hd : (Act.evalModule name module s).During log' m) :
    m.Steady ∧ (State.create settings).Becomes (log ++ log') m.state := by
  have hfirst := h.becomes (State.fresh_create settings).1.interned
  obtain ⟨hsteady, hthen⟩ := hd.becomes (hfirst.interned (State.fresh_create settings).1.interned)
    (Act.neutral_evalModule (hfirst.interned (State.fresh_create settings).1.interned) name module)
  exact ⟨hsteady, hfirst.trans hthen⟩

end Becomes

/-! ## What holds throughout -/

/-- What no change breaks, given what has been done to classes. -/
structure Kept (holds : List ClassEvent → State → Prop) : Prop where
  neutral {log : List ClassEvent} {s t : State} (hi : s.heap.Interned) (h : holds log s)
    (hc : s.NeutralChange t) : holds log t
  turn {log : List ClassEvent} {s t : State} {event : Option ClassEvent} (hi : s.heap.Interned)
    (h : holds log s) (ht : State.Turn event s t) : holds (log ++ event.toList) t
  alike {log : List ClassEvent} {s t : State} (hi : s.heap.Interned) (h : holds log s)
    (ha : s.Alike t) : holds log t

/-- It holds of whatever becomes of a state that it holds of. -/
theorem Kept.becomes {holds : List ClassEvent → State → Prop} (hk : Kept holds)
    {log log' : List ClassEvent} {s t : State} (hb : s.Becomes log' t) (hi : s.heap.Interned)
    (h : holds log s) : holds (log ++ log') t := by
  induction hb with
  | refl => rwa [List.append_nil]
  | neutral hb hc ih => exact hk.neutral (hb.interned hi) ih hc
  | turn hb ht ih =>
    rw [← List.append_assoc]
    exact hk.turn (hb.interned hi) ih ht
  | alike hb ha ih => exact hk.alike (hb.interned hi) ih ha

/-- The same from a state before which nothing has been done to classes. -/
theorem Kept.throughout {holds : List ClassEvent → State → Prop} (hk : Kept holds)
    {log : List ClassEvent} {s t : State} (hb : s.Becomes log t) (hi : s.heap.Interned)
    (h : holds [] s) : holds log t := hk.becomes hb hi h

end ScriptEngine
