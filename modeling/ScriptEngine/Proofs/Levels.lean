import ScriptEngine.Bytecode.Chunk
import ScriptEngine.Heap.Object

/-!
# Levels of code

What every instruction does to the height of its frame and to the handlers installed in it, as far
as that can be told without running it. A level is what is known at an offset: the number of slots,
the installed handlers, and the `try` statements with an `ensure` part that have been entered and
not left. Code is typed by giving every offset a level such that each instruction carries its own
level to the levels of its successors.

`Disciplined` is the part of a typing that speaks of numbers only: heights and handler counts. It is
what a machine needs that never looks below its frame and never removes a handler it did not set.
-/

namespace ScriptEngine.Bytecode

/-! ## Effects of instructions -/

namespace Op

/-- How many values an instruction takes from the stack, and how many stand in their place when the
next instruction is reached. A call counts until it has returned, and a `yield` until it is
resumed. -/
def effect : Op → Nat × Nat
  | .constant _ | .null | .true | .false | .getLocal _ | .getGlobal _ | .getUpvalue _
  | .closure _ _ | .native _ | .getObject | .newClass _ | .importFrom _ | .importName _ _ => (0, 1)
  | .pop | .closeUpvalue | .defineGlobal _ | .jumpIfFalse _ | .jumpIfTrue _ | .return
  | .raise => (1, 0)
  | .dup => (1, 2)
  | .dup2 => (2, 4)
  | .setLocal _ | .setGlobal _ | .setUpvalue _ | .getField _ | .negate | .invert | .not
  | .listToTuple | .nativeMethod _ | .yield => (1, 1)
  | .setField _ | .getSubscript | .add | .subtract | .multiply | .divide | .modulo | .power
  | .bitAnd | .bitOr | .xor | .shiftLeft | .shiftRight | .equal | .less | .lessEqual | .greater
  | .greaterEqual | .is | .callUnpack | .invokeUnpack _ | .superBind _ | .appendList
  | .extendList | .defMethod _ => (2, 1)
  | .setSubscript | .superUnpack _ => (3, 1)
  | .callShort n => (n.val + 1, 1)
  | .callLong n => (n.toNat + 1, 1)
  | .invokeShort n _ => (n.val + 1, 1)
  | .invokeLong n _ => (n.toNat + 1, 1)
  | .superCall n _ => (n.toNat + 2, 1)
  | .newList n | .newTuple n => (n.toNat, 1)
  | .newTable n => (n.toNat * 2, 1)
  | .unpack n => (1, n.toNat)
  | .subclass | .endHandler => (2, 2)
  | .forPrep => (2, 4)
  | .forIter => (4, 5)
  | .forNext _ => (5, 5)
  | .importModule _ => (0, 2)
  | .jump _ | .loop _ | .setupExcept _ | .setupEnsure _ | .popHandler | .generator
  | .generatorClose | .importAll _ => (0, 0)

/-- Values taken from the stack. -/
abbrev pops (op : Op) : Nat := op.effect.1

/-- Values put in their place. -/
abbrev pushes (op : Op) : Nat := op.effect.2

/-- Whether control can reach the next instruction. -/
def fallsThrough : Op → Bool
  | .jump _ | .loop _ | .return | .raise => Bool.false
  | _ => Bool.true

/-- The slot a local variable is read from or written to. -/
def slot? : Op → Option UInt16
  | .getLocal i | .setLocal i => some i
  | _ => none

/-- Where an instruction at an offset can jump to. A handler counts: it is where the instruction
that installs it sends an exception. -/
def jumpTarget? (op : Op) (pc : Nat) : Option Nat :=
  match op with
  | .loop d => some (pc + 1 - d.toNat)
  | op => op.forwardTarget? pc

/-- How the height differs at the target of a jump: a loop over a value drops the last state, and a
handler finds the exception and the cause. -/
def heightAtTarget : Op → Nat → Nat
  | .jumpIfFalse _, n | .jumpIfTrue _, n | .forNext _, n => n - 1
  | .setupExcept _, n | .setupEnsure _, n => n + 2
  | _, n => n

/-- An instruction that touches neither handlers nor local variables and always falls through. -/
def isPlain : Op → Bool
  | .jump _ | .loop _ | .return | .raise | .jumpIfFalse _ | .jumpIfTrue _ | .forNext _
  | .setupExcept _ | .setupEnsure _ | .popHandler | .getLocal _ | .setLocal _ => Bool.false
  | _ => Bool.true

end Op

/-! ## Heights and handler counts -/

/-- Slots of a frame in use and handlers installed in it. -/
structure Depth where
  /-- Slots in use, slot zero included. -/
  height : Nat
  /-- Installed handlers. -/
  handlers : Nat
  deriving DecidableEq, Repr

namespace Op

/-- The handler count when the next instruction is reached. -/
def handlersAfter : Op → Nat → Nat
  | .setupExcept _, k | .setupEnsure _, k => k + 1
  | .popHandler, k => k - 1
  | _, k => k

/-- The successors of an instruction, each with the depth that the instruction carries there. -/
def successors (op : Op) (pc : Nat) (d : Depth) : List (Nat × Depth) :=
  (if op.fallsThrough then
      [(pc + 1, ⟨d.height - op.pops + op.pushes, op.handlersAfter d.handlers⟩)]
    else []) ++
    ((op.jumpTarget? pc).map fun t => (t, ⟨op.heightAtTarget d.height, d.handlers⟩)).toList

end Op

/-- The depth at which a function is entered. -/
def Proto.entryDepth (p : Proto) : Depth := ⟨1 + p.arity.toNat + p.vararg.toNat, 0⟩

/-- An assignment of depths to the offsets of a prototype is sound: the code is entered at the depth
a call makes, no instruction takes slot zero from the stack, no handler is removed where none is
installed, local variables are read and written below the height, and every instruction carries its
depth to all its successors, which are offsets of the code. -/
structure Disciplined (p : Proto) (depth : Nat → Depth) : Prop where
  /-- The depth of the first instruction. -/
  entry : depth 0 = p.entryDepth
  /-- Slot zero stays. -/
  keepsZero : ∀ (pc : Nat) (op : Op), p.chunk.code[pc]? = some op → op.pops < (depth pc).height
  /-- A handler that is removed was there. -/
  hasHandler : ∀ pc : Nat, p.chunk.code[pc]? = some .popHandler → 0 < (depth pc).handlers
  /-- Local variables lie within the frame. -/
  slots : ∀ (pc : Nat) (op : Op) (i : UInt16), p.chunk.code[pc]? = some op →
    op.slot? = some i → i.toNat < (depth pc).height
  /-- Every path into an offset agrees on its depth. -/
  flow : ∀ (pc : Nat) (op : Op), p.chunk.code[pc]? = some op →
    ∀ e ∈ op.successors pc (depth pc), e.1 < p.chunk.code.size ∧ depth e.1 = e.2

/-- The prototypes of the functions nested in a prototype, itself included. -/
inductive Proto.Nested (p : Proto) : Proto → Prop
  | self : p.Nested p
  | inner {q r : Proto} : p.Nested q → .function r ∈ q.chunk.constants → p.Nested r

/-! ## Levels -/

/-- An installed handler, known by the instruction that installed it. -/
structure Guard where
  /-- What it serves. -/
  kind : HandlerKind
  /-- Offset of the instruction. -/
  setup : Nat
  deriving DecidableEq, Repr

/-- A `try` statement with an `ensure` part that has been entered and not left. -/
structure Entry where
  /-- Offset of the instruction that installed its handler. -/
  setup : Nat
  /-- Whether its `ensure` part has been started. -/
  started : Bool
  deriving DecidableEq, Repr

/-- What is known at an offset. -/
@[ext]
structure Level where
  /-- Slots in use. -/
  height : Nat
  /-- Installed handlers, innermost first. -/
  guards : List Guard
  /-- Entered `try` statements with an `ensure` part, innermost first. -/
  entries : List Entry
  deriving DecidableEq, Repr

/-- How entries change along an edge: an `ensure` part starts, or a `try` statement whose `ensure`
part was started is left. -/
inductive Progress : List Entry → List Entry → Prop
  | refl (es : List Entry) : Progress es es
  | start {es : List Entry} {t : Nat} {rest : List Entry} :
      Progress es (⟨t, false⟩ :: rest) → Progress es (⟨t, true⟩ :: rest)
  | leave {es : List Entry} {t : Nat} {rest : List Entry} :
      Progress es (⟨t, true⟩ :: rest) → Progress es rest

theorem Progress.trans {a b c : List Entry} (h : Progress a b) (h' : Progress b c) :
    Progress a c := by
  induction h' with
  | refl => exact h
  | start _ ih => exact .start ih
  | leave _ ih => exact .leave ih

namespace Level

/-- The level with more values on the stack. -/
def push (L : Level) (n : Nat) : Level := { L with height := L.height + n }

/-- The level with fewer values on the stack. -/
def drop (L : Level) (n : Nat) : Level := { L with height := L.height - n }

/-- The numbers of a level. -/
def depth (L : Level) : Depth := ⟨L.height, L.guards.length⟩

/-- The level at which a function is entered. -/
def ofHeight (n : Nat) : Level := ⟨n, [], []⟩

@[simp] theorem push_height (L : Level) (n : Nat) : (L.push n).height = L.height + n := rfl
@[simp] theorem push_guards (L : Level) (n : Nat) : (L.push n).guards = L.guards := rfl
@[simp] theorem push_entries (L : Level) (n : Nat) : (L.push n).entries = L.entries := rfl
@[simp] theorem push_zero (L : Level) : L.push 0 = L := rfl

@[simp] theorem drop_height (L : Level) (n : Nat) : (L.drop n).height = L.height - n := rfl
@[simp] theorem drop_guards (L : Level) (n : Nat) : (L.drop n).guards = L.guards := rfl
@[simp] theorem drop_entries (L : Level) (n : Nat) : (L.drop n).entries = L.entries := rfl
@[simp] theorem drop_zero (L : Level) : L.drop 0 = L := rfl

/-- Dropping slots twice drops them altogether. -/
theorem drop_drop (L : Level) (m n : Nat) : (L.drop m).drop n = L.drop (m + n) := by
  ext1 <;> simp [Nat.sub_sub]

/-- Dropping what was pushed gives the level back. -/
theorem drop_push (L : Level) (n : Nat) : (L.push n).drop n = L := by
  ext1 <;> simp

/-- Pushing slots twice pushes them altogether. -/
theorem push_push (L : Level) (m n : Nat) : (L.push m).push n = L.push (m + n) := by
  ext1 <;> simp [Nat.add_assoc]

/-- Edges lead from a level to itself up to progress of the entries. Heights are compared only where
they are `exact`. -/
def Flows (exact : Bool) (L L' : Level) : Prop :=
  (exact = true → L.height = L'.height) ∧ L.guards = L'.guards ∧ Progress L.entries L'.entries

theorem Flows.refl (exact : Bool) (L : Level) : L.Flows exact L :=
  ⟨fun _ => rfl, rfl, .refl _⟩

theorem Flows.trans {exact : Bool} {a b c : Level} (h : a.Flows exact b) (h' : b.Flows exact c) :
    a.Flows exact c :=
  ⟨fun he => (h.1 he).trans (h'.1 he), h.2.1.trans h'.2.1, h.2.2.trans h'.2.2⟩

/-- The setups of the installed `ensure` handlers. -/
def ensureGuards (L : Level) : List Nat :=
  (L.guards.filter (·.kind = .ensure)).map (·.setup)

/-- The entries whose `ensure` part has not been started. -/
def pending (L : Level) : List Nat := (L.entries.filter (!·.started)).map (·.setup)

/-- Every `ensure` part that has not been started has its handler installed, so that neither an
exception nor a return can pass it by. -/
def Covered (L : Level) : Prop := L.ensureGuards = L.pending

/-- The handler of the innermost entry is gone and its `ensure` part has not been started; all
others are covered. -/
def Exposed (L : Level) : Prop := ∃ t, t :: L.ensureGuards = L.pending

/-- Pushing slots does not matter for the handlers and entries of a level. -/
theorem covered_push {L : Level} {n : Nat} : (L.push n).Covered ↔ L.Covered := Iff.rfl

end Level

namespace Op

/-- The installed handlers when the next instruction is reached. -/
def guardsAfter (op : Op) (pc : Nat) (guards : List Guard) : List Guard :=
  match op with
  | .setupExcept _ => ⟨.except, pc⟩ :: guards
  | .setupEnsure _ => ⟨.ensure, pc⟩ :: guards
  | .popHandler => guards.tail
  | _ => guards

/-- The number of handlers after an instruction depends on their number before it alone. -/
theorem length_guardsAfter (op : Op) (pc : Nat) (guards : List Guard) :
    (op.guardsAfter pc guards).length = op.handlersAfter guards.length := by
  cases op with
  | popHandler => exact List.length_tail
  | _ => rfl

/-- The entries when the next instruction is reached. -/
def entriesAfter (op : Op) (pc : Nat) (entries : List Entry) : List Entry :=
  match op with
  | .setupEnsure _ => ⟨pc, Bool.false⟩ :: entries
  | _ => entries

/-- The entries at the target of a jump: an `ensure` handler starts its `ensure` part. -/
def entriesAtTarget (op : Op) (pc : Nat) (entries : List Entry) : List Entry :=
  match op with
  | .setupEnsure _ => ⟨pc, Bool.true⟩ :: entries
  | _ => entries

/-- The level an instruction carries to the next one. -/
def next (op : Op) (pc : Nat) (L : Level) : Level :=
  ⟨L.height - op.pops + op.pushes, op.guardsAfter pc L.guards, op.entriesAfter pc L.entries⟩

/-- The level an instruction carries to the target of its jump. -/
def landing (op : Op) (pc : Nat) (L : Level) : Level :=
  ⟨op.heightAtTarget L.height, L.guards, op.entriesAtTarget pc L.entries⟩

/-- The instructions that may stand where an `ensure` part is exposed. -/
def mayExpose : Op → Bool
  | .null | .jump _ => Bool.true
  | _ => Bool.false

/-- What an instruction demands of its level. The demands on heights hold where these are exact. -/
structure Safe (exact : Bool) (op : Op) (L : Level) : Prop where
  /-- Slot zero is not taken. -/
  operands : exact = Bool.true → op.pops < L.height
  /-- Local variables lie within the frame. -/
  slot : exact = Bool.true → ∀ i, op.slot? = some i → i.toNat < L.height
  /-- A handler that is removed is there. -/
  handler : op = .popHandler → L.guards ≠ []
  /-- No `ensure` part is exposed, or the instruction is one that may stand there. -/
  covered : L.Covered ∨ L.Exposed ∧ op.mayExpose = Bool.true

/-- An instruction that only moves values changes the height by its effect and nothing else. -/
theorem next_plain {op : Op} {p q : Nat} (hp : op.isPlain = Bool.true) (he : op.effect = (p, q))
    (pc : Nat) (L : Level) : op.next pc (L.push p) = L.push q := by
  have hg : op.guardsAfter pc L.guards = L.guards := by cases op <;> first | rfl | cases hp
  have hn : op.entriesAfter pc L.entries = L.entries := by cases op <;> first | rfl | cases hp
  ext1
  · simp only [next, pops, pushes, he, Level.push_height]
    omega
  · exact hg
  · exact hn

/-- An instruction that only moves values jumps nowhere. -/
theorem jumpTarget?_of_isPlain {op : Op} (hp : op.isPlain = Bool.true) (pc : Nat) :
    op.jumpTarget? pc = none := by
  cases op <;> first | rfl | cases hp

/-- An instruction that only moves values names no slot of its frame. -/
theorem slot?_of_isPlain {op : Op} (hp : op.isPlain = Bool.true) : op.slot? = none := by
  cases op <;> first | rfl | cases hp

/-- An instruction that needs neither a slot nor a handler is safe where its operands lie above slot
zero and nothing is exposed. -/
theorem safe_covered {exact : Bool} {op : Op} {L : Level} (hs : op.slot? = none)
    (hn : op ≠ .popHandler) (hp : op.pops < L.height) (hc : L.Covered) : op.Safe exact L where
  operands _ := hp
  slot _ i hi := by
    rw [hs] at hi
    cases hi
  handler h := absurd h hn
  covered := .inl hc

/-- A plain instruction is safe where its operands lie above slot zero. -/
theorem safe_plain {exact : Bool} {op : Op} {p q : Nat} {L : Level} (hp : op.isPlain = Bool.true)
    (he : op.effect = (p, q)) (h1 : 1 ≤ L.height) (hc : L.Covered) :
    op.Safe exact (L.push p) := by
  refine safe_covered (slot?_of_isPlain hp) ?_ ?_ hc
  · rintro rfl
    cases hp
  · simp only [pops, he, Level.push_height]
    omega

@[simp] theorem isPlain_call (argc : UInt8) : (call argc).isPlain = Bool.true := by
  unfold call
  split <;> rfl

@[simp] theorem effect_call (argc : UInt8) : (call argc).effect = (argc.toNat + 1, 1) := by
  unfold call
  split <;> rfl

@[simp] theorem isPlain_invoke (argc : UInt8) (name : UInt16) :
    (invoke argc name).isPlain = Bool.true := by
  unfold invoke
  split <;> rfl

@[simp] theorem effect_invoke (argc : UInt8) (name : UInt16) :
    (invoke argc name).effect = (argc.toNat + 1, 1) := by
  unfold invoke
  split <;> rfl

/-- A forward jump with another distance has the same effects and lands there. -/
theorem retarget?_spec {op : Op} (h : op.forwardDistance?.isSome = Bool.true) (d : UInt16) :
    ∃ op', op.retarget? d = some op' ∧ op'.fallsThrough = op.fallsThrough ∧
      (∀ exact L, op.Safe exact L → op'.Safe exact L) ∧
      (∀ pc L, op'.next pc L = op.next pc L) ∧
      (∀ pc L, op'.landing pc L = op.landing pc L) ∧
      (∀ pc, op'.jumpTarget? pc = some (pc + 1 + d.toNat)) ∧
      op'.forwardDistance?.isSome = Bool.true := by
  have keep : ∀ {op op' : Op}, op'.pops = op.pops → op'.slot? = op.slot? → op' ≠ .popHandler →
      op'.mayExpose = op.mayExpose → ∀ exact L, op.Safe exact L → op'.Safe exact L :=
    fun hp hs hn hm _ _ h =>
      ⟨fun he => hp ▸ h.operands he, fun he i hi => h.slot he i (hs ▸ hi), fun hh => absurd hh hn,
        hm ▸ h.covered⟩
  cases op with
  | jump _ =>
    exact ⟨.jump d, rfl, rfl, keep rfl rfl nofun rfl, fun _ _ => rfl, fun _ _ => rfl,
      fun _ => rfl, rfl⟩
  | jumpIfFalse _ =>
    exact ⟨.jumpIfFalse d, rfl, rfl, keep rfl rfl nofun rfl, fun _ _ => rfl, fun _ _ => rfl,
      fun _ => rfl, rfl⟩
  | jumpIfTrue _ =>
    exact ⟨.jumpIfTrue d, rfl, rfl, keep rfl rfl nofun rfl, fun _ _ => rfl, fun _ _ => rfl,
      fun _ => rfl, rfl⟩
  | setupExcept _ =>
    exact ⟨.setupExcept d, rfl, rfl, keep rfl rfl nofun rfl, fun _ _ => rfl, fun _ _ => rfl,
      fun _ => rfl, rfl⟩
  | setupEnsure _ =>
    exact ⟨.setupEnsure d, rfl, rfl, keep rfl rfl nofun rfl, fun _ _ => rfl, fun _ _ => rfl,
      fun _ => rfl, rfl⟩
  | forNext _ =>
    exact ⟨.forNext d, rfl, rfl, keep rfl rfl nofun rfl, fun _ _ => rfl, fun _ _ => rfl,
      fun _ => rfl, rfl⟩
  | _ => cases h

end Op

/-! ## Typed code -/

/-- Levels for the offsets of code under construction, and the levels promised to the targets of
forward jumps that have not been patched. -/
structure Typing where
  /-- The level of an offset. -/
  level : Nat → Level
  /-- The level promised to the target of the jump at an offset. -/
  owed : Nat → Option Level

/-- The instruction at an offset is safe and keeps its promises. -/
structure SoundAt (exact : Bool) (size : Nat) (τ : Typing) (pc : Nat) (op : Op) : Prop where
  /-- It may stand at its level. -/
  safe : op.Safe exact (τ.level pc)
  /-- It carries its level to the next instruction. -/
  falls : op.fallsThrough = true → (op.next pc (τ.level pc)).Flows exact (τ.level (pc + 1))
  /-- It carries its level to the target of its jump. -/
  lands : ∀ t, τ.owed pc = none → op.jumpTarget? pc = some t →
    t ≤ size ∧ (op.landing pc (τ.level pc)).Flows exact (τ.level t)
  /-- A promise can be kept. -/
  owes : ∀ X, τ.owed pc = some X →
    op.forwardDistance?.isSome = true ∧ (op.landing pc (τ.level pc)).Flows exact X

/-- A finished prototype is typed: it has levels for all its offsets. -/
def Proto.Typed (exact : Bool) (p : Proto) : Prop :=
  ∃ level : Nat → Level, level 0 = .ofHeight p.entryDepth.height ∧
    ∀ pc op, p.chunk.code[pc]? = some op →
      op.Safe exact (level pc) ∧
      (op.fallsThrough = true →
        pc + 1 < p.chunk.code.size ∧ (op.next pc (level pc)).Flows exact (level (pc + 1))) ∧
      ∀ t, op.jumpTarget? pc = some t →
        t < p.chunk.code.size ∧ (op.landing pc (level pc)).Flows exact (level t)

/-- A prototype and all functions nested in it are typed. -/
def Proto.AllTyped (exact : Bool) (p : Proto) : Prop := ∀ q, p.Nested q → q.Typed exact

/-- Typed code under construction, with the level of the next offset. -/
structure At (exact : Bool) (c : Chunk) (τ : Typing) (L : Level) : Prop where
  /-- Every instruction is sound. -/
  sound : ∀ pc op, c.code[pc]? = some op → SoundAt exact c.code.size τ pc op
  /-- Only jumps that have been emitted owe anything. -/
  bound : ∀ pc, c.code.size ≤ pc → τ.owed pc = none
  /-- The level of the next offset. -/
  here : τ.level c.code.size = L
  /-- Nested functions are typed. -/
  pool : ∀ q, .function q ∈ c.constants → q.AllTyped exact

/-- Code is typed at every depth if it is typed and the prototypes among its constants are so at
every depth. -/
theorem Proto.AllTyped.of_pool {exact : Bool} {p : Proto} (hp : p.Typed exact)
    (hq : ∀ q, .function q ∈ p.chunk.constants → q.AllTyped exact) : p.AllTyped exact := by
  have key : ∀ r, p.Nested r → r.Typed exact ∧
      ∀ q, .function q ∈ r.chunk.constants → q.AllTyped exact := by
    intro r hr
    induction hr with
    | self => exact ⟨hp, hq⟩
    | inner _ hm ih =>
      have hall := ih.2 _ hm
      exact ⟨hall _ .self, fun q hmq q' hq' => hall q' (by
        clear ih hall
        induction hq' with
        | self => exact .inner .self hmq
        | inner _ hm' ih' => exact .inner ih' hm')⟩
  exact fun r hr => (key r hr).1

/-- The numbers of a typing with exact heights are a sound assignment of depths. -/
theorem Proto.Typed.disciplined {p : Proto} (h : p.Typed true) :
    ∃ depth, Disciplined p depth := by
  obtain ⟨level, h0, hs⟩ := h
  refine ⟨fun pc => (level pc).depth, ?_, ?_, ?_, ?_, ?_⟩
  · simp only [h0]
    rfl
  · intro pc op hop
    exact (hs pc op hop).1.operands rfl
  · intro pc hop
    exact List.length_pos_iff.2 ((hs pc _ hop).1.handler rfl)
  · intro pc op i hop hi
    exact (hs pc op hop).1.slot rfl i hi
  · intro pc op hop e he
    obtain ⟨-, hfall, hjump⟩ := hs pc op hop
    rcases List.mem_append.1 he with he | he
    · split at he
      · next hf =>
        obtain rfl := List.mem_singleton.1 he
        obtain ⟨hlt, hh, hg, -⟩ := hfall hf
        refine ⟨hlt, ?_⟩
        simp only [Level.depth, ← hh rfl, ← hg, Op.next, Op.length_guardsAfter]
      · cases he
    · obtain ⟨t, ht, rfl⟩ := Option.map_eq_some_iff.1 (Option.mem_toList.1 he)
      obtain ⟨hlt, hh, hg, -⟩ := hjump t ht
      refine ⟨hlt, ?_⟩
      simp only [Level.depth, ← hh rfl, ← hg, Op.landing]

end ScriptEngine.Bytecode
