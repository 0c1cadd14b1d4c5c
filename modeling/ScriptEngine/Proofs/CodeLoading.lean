import ScriptEngine.Proofs.CodeMoves

/-!
# Loading code

Loading a module makes a function for each prototype in it, and the constants of each function are
the functions of the prototypes nested in it. Nothing is collected meanwhile, so that what has been
made stays. The closure of top-level code captures nothing, whatever its prototype counts.
-/

namespace ScriptEngine

open Bytecode

/-- A value of a constant, as far as code is concerned. -/
def Heap.HoldsCode (heap : Heap) (c : Constant) (v : Value) : Prop :=
  ∀ q, c = .function q → ∃ h, v = .object h ∧ heap.HasFunction h q

namespace Act

variable {α β : Type} {top : Proto → Prop} {s t u : State}

/-! ## Making objects while nothing is collected -/

/-- One state has become another by making objects. -/
structure Grown (top : Proto → Prop) (s t : State) : Prop where
  sound : t.Sound top
  frames : t.frames = s.frames
  disabled : t.heap.disabled = s.heap.disabled
  objects : ∀ y o, s.heap.get? y = some o → t.heap.get? y = some o

/-- Nothing has been made. -/
theorem Grown.refl (h : s.Sound top) : Grown top s s := ⟨h, rfl, rfl, fun _ _ => id⟩

/-- Objects made one after the other. -/
theorem Grown.trans (h : Grown top s t) (h' : Grown top t u) : Grown top s u :=
  ⟨h'.sound, h'.frames.trans h.frames, h'.disabled.trans h.disabled,
    fun y o ho => h'.objects y o (h.objects y o ho)⟩

/-- Functions stay. -/
theorem Grown.hasFunction (h : Grown top s t) {y : Handle} {p : Proto}
    (hp : s.heap.HasFunction y p) : t.heap.HasFunction y p := by
  obtain ⟨f, hf, rfl⟩ := hp
  exact ⟨f, h.objects y _ hf, rfl⟩

/-- Code that is held stays held. -/
theorem Grown.holdsCode (h : Grown top s t) {c : Constant} {v : Value}
    (hc : s.heap.HoldsCode c v) : t.heap.HoldsCode c v := by
  intro q hq
  obtain ⟨y, hy, hfun⟩ := hc q hq
  exact ⟨y, hy, h.hasFunction hfun⟩

/-- What is left of an action that only makes objects: it gives a result, or there is no room. -/
def Made (top : Proto → Prop) (s : State) (post : α → Heap → Prop) : Proc α → Prop
  | .done a t => Grown top s t ∧ post a t.heap
  | .fault _ => True
  | _ => False

/-- An action that only makes objects, as long as collection is forbidden. -/
def Makes (top : Proto → Prop) (y : Act α) (post : α → Heap → Prop) : Prop :=
  ∀ s, s.Sound top → s.heap.collectionEnabled = false → Made top s post (y s)

section Makes

variable {post : α → Heap → Prop} {post' : β → Heap → Prop} {p : Proc α}

/-- One action after another: the second one begins where the first one has made something. -/
theorem Made.bind {f : α → State → Proc β} (hp : Made top s post p)
    (hq : s.heap.collectionEnabled = false)
    (hf : ∀ a t, Grown top s t → t.heap.collectionEnabled = false → post a t.heap →
      Made top t post' (f a t)) : Made top s post' (p.bind f) := by
  cases p with
  | done a t =>
    have hq' : t.heap.collectionEnabled = false := by
      rw [Heap.collectionEnabled, hp.1.disabled]
      exact hq
    have hmade := hf a t hp.1 hq' hp.2
    rw [Proc.bind_done]
    cases hrun : f a t with
    | done b u =>
      rw [hrun] at hmade
      exact ⟨hp.1.trans hmade.1, hmade.2⟩
    | fault e => trivial
    | raised u =>
      rw [hrun] at hmade
      exact hmade
    | call u method argc resume =>
      rw [hrun] at hmade
      exact hmade
  | fault e => trivial
  | raised t => exact hp
  | call t method argc resume => exact hp

/-- What holds in the end may be weakened. -/
theorem Made.imp (hp : Made top s post p) {post' : α → Heap → Prop}
    (h : ∀ a t, Grown top s t → post a t.heap → post' a t.heap) : Made top s post' p := by
  cases p with
  | done a t => exact ⟨hp.1, h a t hp.1 hp.2⟩
  | fault e => trivial
  | raised t => exact hp
  | call t method argc resume => exact hp

/-- A value without making anything. -/
theorem makes_pure {a : α} (h : ∀ heap, post a heap) : Makes top (pure a) post :=
  fun s hs _ => ⟨.refl hs, h s.heap⟩

/-- A value that is changed on the way. -/
theorem Makes.map {y : Act α} (hy : Makes top y post) (f : α → β)
    (h : ∀ a heap, post a heap → post' (f a) heap) : Makes top (do return f (← y)) post' :=
  fun s hs hq => (hy s hs hq).bind hq fun a t hst _ ha => ⟨.refl hst.sound, h a t.heap ha⟩

/-- Making an object does not allow collections. -/
theorem disabled_insert (heap : Heap) (o : Object) :
    (heap.insert o).1.disabled = heap.disabled := by
  obtain ⟨cells, free, strings, bytes, next, first, rate, limit, disabled, stats, clear⟩ := heap
  cases free <;> rfl

/-- A new object that fits together. -/
theorem grown_insert (h : s.Sound top) {o : Object} (ho : o.CodeChecked top s.heap) :
    Grown top s { s with heap := (s.heap.insert o).1 } := by
  refine ⟨h.insert ho, rfl, disabled_insert s.heap o, fun y o' ho' => ?_⟩
  exact (Heap.get?_insert_of_live h.tidy o (Heap.isLive_of_get? ho')).trans ho'

/-- It is made, without a collection. -/
theorem made_alloc (h : s.Sound top) (hq : s.heap.collectionEnabled = false) {o : Object}
    (ho : o.CodeChecked top s.heap) :
    Made top s (fun y heap => heap.get? y = some o) (alloc o s) := by
  unfold alloc
  rw [bind_run]
  rcases reserve_disabled hq o.estimatedBytes o.references with hr | hr
  · rw [hr]
    trivial
  · rw [hr]
    exact ⟨grown_insert h ho, (Heap.get?_insert h.tidy o _).trans (if_pos rfl)⟩

/-- A text. -/
theorem grown_intern (h : s.Sound top) (data : ByteArray) :
    Grown top s { s with heap := (s.heap.intern data).1 } := by
  refine ⟨h.intern data, rfl, ?_, fun y o ho => ?_⟩
  · unfold Heap.intern
    dsimp only
    split
    · rfl
    · exact disabled_insert _ _
  · unfold Heap.intern
    dsimp only
    split
    · exact ho
    · exact (grown_insert h (o := .string ⟨data, Text.fnv1a data, true⟩) trivial).objects y o ho

/-- A text is interned. -/
theorem makes_intern (data : ByteArray) : Makes top (intern data) fun _ _ => True := by
  intro s h hq
  unfold intern
  rw [bind_run, gets_run, Proc.bind_done]
  cases s.heap.findInterned data (Text.fnv1a data) with
  | some y => exact ⟨.refl h, trivial⟩
  | none =>
    change Made top s _ ((reserve data.size [] s).bind _)
    rcases reserve_disabled hq data.size [] with hr | hr
    · rw [hr]
      trivial
    · rw [hr]
      exact ⟨grown_intern h data, trivial⟩

end Makes

/-! ## Functions of prototypes -/

mutual

/-- A constant, which is a function if it is made of a prototype. -/
theorem makes_constantValue (module : Handle) : (c : Constant) →
    Makes top (constantValue module c) fun v heap => heap.HoldsCode c v
  | .number _ | .bool _ | .null | .native _ => makes_pure nofun
  | .string t => (makes_intern (Text.octets t)).map _ nofun
  | .function p => by
    rw [constantValue]
    refine (makes_materialize module p).map _ fun y heap hy q hq => ?_
    cases hq
    exact ⟨y, rfl, hy⟩

/-- A function of a prototype, with its constants. -/
theorem makes_materialize (module : Handle) : (p : Proto) →
    Makes top (materialize module p) fun y heap => heap.HasFunction y p
  | ⟨name, arity, defaults, vararg, upvalueCount, ⟨code, constants, lines⟩⟩ => by
    intro s hs hq
    rw [materialize]
    refine (makes_constantValues module constants s hs hq).bind hq fun pool t hst hqt hpool => ?_
    refine (makes_constantValues module defaults t hst.sound hqt).bind hqt
      fun values u htu hqu hvalues => ?_
    refine (made_alloc htu.sound hqu ?_).imp fun y _ _ hy => ⟨_, hy, rfl⟩
    refine ⟨hvalues.1, fun i q hi => ?_⟩
    obtain ⟨y, hy, hfun⟩ := hpool.2 i q hi
    exact ⟨y, hy, htu.hasFunction hfun⟩

/-- Constants, each in its place. -/
theorem makes_constantValues (module : Handle) : (constants : Array Constant) →
    Makes top (constantValues module constants) fun values heap =>
      values.size = constants.size ∧
        ∀ (i : Nat) (q : Proto), constants[i]? = some (.function q) →
          ∃ h, values[i]? = some (.object h) ∧ heap.HasFunction h q
  | ⟨constants⟩ => by
    intro s hs hq
    rw [constantValues]
    refine (makes_constantList module #[] constants s hs hq).imp fun values t _ hvalues => ?_
    obtain ⟨new, rfl, hnew⟩ := hvalues
    refine ⟨by simp [hnew.length_eq], fun i q hi => ?_⟩
    rw [List.getElem?_toArray] at hi
    obtain ⟨hlt, hget⟩ := List.getElem?_eq_some_iff.1 hi
    have hlt' : i < new.length := hnew.length_eq ▸ hlt
    obtain ⟨y, hy, hfun⟩ := hnew.get hlt hlt' q hget
    refine ⟨y, ?_, hfun⟩
    rw [← hy]
    simp

/-- Constants one after another. -/
theorem makes_constantList (module : Handle) (before : Array Value) : (constants : List Constant) →
    Makes top (constantList module before constants) fun values heap =>
      ∃ new : List Value, values = before ++ new ∧ List.Forall₂ heap.HoldsCode constants new
  | [] => makes_pure fun _ => ⟨[], by simp, .nil⟩
  | c :: rest => by
    intro s hs hq
    rw [constantList]
    refine (makes_constantValue module c s hs hq).bind hq fun v t hst hqt hv => ?_
    refine (makes_constantList module (before.push v) rest t hst.sound hqt).imp ?_
    rintro values u htu ⟨new, rfl, hnew⟩
    exact ⟨v :: new, by simp, .cons (htu.holdsCode hv) hnew⟩

end

/-! ## Modules -/

/-- What makes objects while nothing is collected keeps code together. -/
theorem safe_withoutCollection {y : Act α} {post : α → Heap → Prop} {depth : Nat} {calls : Bool}
    (hy : Makes top y post) (h : s.Ready top depth) :
    (withoutCollection y s).Safe top depth calls fun _ t =>
      t.Ready top depth ∧ t.frames = s.frames := by
  have hoff := h.toSound.heapChange (.disable (s.heap.disabled + 1))
  have hmade := hy { s with heap := s.heap.disableCollection } hoff rfl
  unfold withoutCollection
  rw [bind_run, modify_run, Proc.bind_done, bind_run]
  cases hrun : y { s with heap := s.heap.disableCollection } with
  | done a t =>
    rw [hrun] at hmade
    have hframes : t.frames = s.frames := hmade.1.frames
    have hon := hmade.1.sound.heapChange (.disable (t.heap.disabled - 1))
    refine ⟨⟨⟨hon, ?_⟩, ?_⟩, hframes⟩
    · exact fun f hf => h.lands f (hframes ▸ hf)
    · change depth ≤ t.frames.size
      rw [hframes]
      exact h.depth_le
  | fault e => trivial
  | raised t =>
    rw [hrun] at hmade
    exact hmade.elim
  | call t method argc resume =>
    rw [hrun] at hmade
    exact hmade.elim

/-- A module object. -/
theorem makes_moduleNamed (name : Key) : Makes top (moduleNamed name) fun _ _ => True := by
  intro s hs hq
  unfold moduleNamed
  rw [bind_run, gets_run, Proc.bind_done]
  cases s.loadedModule? name with
  | some y => exact ⟨.refl hs, trivial⟩
  | none =>
    change Made top s _ ((alloc (.module name.handle _) s).bind _)
    refine (made_alloc hs hq (Object.codeChecked_of_isPlain rfl)).bind hq fun y u htu hqu _ => ?_
    exact ⟨⟨⟨htu.sound.tidy, htu.sound.objects, htu.sound.frames, htu.sound.importable⟩, rfl, rfl,
      fun _ _ => id⟩, trivial⟩

/-- Loading a module whose top-level code has passed the checks. -/
theorem safe_load {depth : Nat} {calls : Bool} (h : s.Ready top depth) (name : Key)
    {m : Bytecode.Module} (hverify : m.main.verify = .ok ()) (htop : top m.main) :
    (load name m s).Safe top depth calls fun _ t => t.Ready top depth ∧ t.frames = s.frames := by
  have hmakes : Makes top (do
      let module ← moduleNamed name
      let function ← materialize module m.main
      alloc (.closure function #[])) fun _ _ => True := by
    intro s hs hq
    refine (makes_moduleNamed name s hs hq).bind hq fun module t hst hqt _ => ?_
    refine (makes_materialize module m.main t hst.sound hqt).bind hqt
      fun function u htu hqu hfun => ?_
    refine (made_alloc htu.sound hqu ?_).imp fun _ _ _ _ => trivial
    exact ⟨m.main, hfun, hverify, .inr ⟨rfl, htop⟩⟩
  exact safe_withoutCollection hmakes h

end Act

end ScriptEngine
