import ScriptEngine.Proofs.Conforming
import ScriptEngine.Proofs.Lexical

/-!
# Instructions that touch variables

An instruction touches a variable of its function's own frame by slot, a captured one by an index into
the captures of the function, and a global by name. `follow` goes from capture to capture, outward,
to the frame and slot an index stands for. `Touch.RenderedAll` relates the instructions of a function
that touch variables to touches: they come in the same order, and each reaches the place of its touch.

Resolving a name while code is generated finds the same place as looking it up among the binders in
sight: the locals of a function under construction stand for the binders on its frame, apart from
those whose initial value is still being computed, which no accepted program names.
-/

namespace ScriptEngine.Bytecode

open Source

/-! ## Captures -/

/-- Where an index into the captures of a function leads, given the captures of the functions around,
innermost first: how many functions outward, not counting the next one, and the slot there. -/
def follow : List (List Capture) → Nat → Option (Nat × Nat)
  | [], _ => none
  | captures :: rest, i =>
    match captures[i]? with
    | none => none
    | some ⟨true, slot⟩ => some (0, slot.toNat)
    | some ⟨false, j⟩ => (follow rest j.toNat).map fun (levels, slot) => (levels + 1, slot)

/-- An index leads to a local of the next function or to where an index there leads. -/
theorem follow_cons {captures : List Capture} {rest : List (List Capture)} {i : Nat}
    {v : Nat × Nat} :
    follow (captures :: rest) i = some v ↔
      (∃ slot, captures[i]? = some ⟨true, slot⟩ ∧ v = (0, slot.toNat)) ∨
      ∃ j levels slot, captures[i]? = some ⟨false, j⟩ ∧ follow rest j.toNat = some (levels, slot) ∧
        v = (levels + 1, slot) := by
  rw [follow]
  split
  · next h => simp [h]
  · next slot h =>
    simp only [h, Option.some.injEq, Capture.mk.injEq, true_and, Bool.true_eq_false, false_and,
      exists_false, or_false, exists_eq_left']
    exact eq_comm
  · next j h =>
    simp only [h, Option.map_eq_some_iff, Option.some.injEq, Capture.mk.injEq, Bool.false_eq_true,
      false_and, exists_false, false_or, true_and, Prod.exists]
    constructor
    · rintro ⟨levels, slot, hj, rfl⟩
      exact ⟨j, levels, slot, rfl, hj, rfl⟩
    · rintro ⟨j, levels, slot, rfl, hj, rfl⟩
      exact ⟨levels, slot, hj, rfl⟩

/-- What stands at an index of a list stands there in every list that begins with it. -/
theorem getElem?_of_isPrefix {α : Type} {xs ys : List α} (h : xs <+: ys) {i : Nat} {x : α}
    (hx : xs[i]? = some x) : ys[i]? = some x := by
  obtain ⟨more, rfl⟩ := h
  rw [List.getElem?_append_left (List.getElem?_eq_some_iff.1 hx).1, hx]

/-- Indices lead where they led when captures are added. -/
theorem follow_mono {chain chain' : List (List Capture)}
    (h : List.Forall₂ (· <+: ·) chain chain') {i : Nat} {v : Nat × Nat}
    (hv : follow chain i = some v) : follow chain' i = some v := by
  induction h generalizing i v with
  | nil => exact hv
  | cons hcs _ ih =>
    rw [follow_cons] at hv ⊢
    obtain ⟨slot, hc, rfl⟩ | ⟨j, levels, slot, hc, hj, rfl⟩ := hv
    · exact .inl ⟨slot, getElem?_of_isPrefix hcs hc, rfl⟩
    · exact .inr ⟨j, levels, slot, getElem?_of_isPrefix hcs hc, ih hj, rfl⟩

/-- Where no function captures a variable twice, different indices lead to different places. -/
theorem follow_injective {chain : List (List Capture)} (h : ∀ cs ∈ chain, cs.Nodup) {i j : Nat}
    {v : Nat × Nat} (hi : follow chain i = some v) (hj : follow chain j = some v) : i = j := by
  induction chain generalizing i j v with
  | nil => cases hi
  | cons cs rest ih =>
    obtain ⟨hcs, hrest⟩ := List.forall_mem_cons.1 h
    have same : ∀ c, cs[i]? = some c → cs[j]? = some c → i = j := fun c hc hd =>
      (List.getElem?_inj (List.getElem?_eq_some_iff.1 hc).1 hcs).1 (hc.trans hd.symm)
    rw [follow_cons] at hi hj
    obtain ⟨slot, hc, rfl⟩ | ⟨k, levels, slot, hc, hk, rfl⟩ := hi
    · obtain ⟨slot', hd, heq⟩ | ⟨_, _, _, -, -, heq⟩ := hj
      · rw [Prod.mk.injEq, UInt16.toNat_inj] at heq
        exact same _ hc (heq.2 ▸ hd)
      · cases heq
    · obtain ⟨_, -, heq⟩ | ⟨k', levels', slot', hd, hk', heq⟩ := hj
      · cases heq
      · cases heq
        exact same _ hc (UInt16.toNat_inj.1 (ih hrest hk hk') ▸ hd)

/-! ## Touches in code -/

/-- How an instruction names a variable. -/
inductive Route where
  | slot (index : UInt16)
  | upvalue (index : UInt16)
  /-- A global, by the constant that holds its name. -/
  | global (name : UInt16)

/-- How an instruction names the variable it reads. -/
def Op.reads? : Op → Option Route
  | .getLocal i => some (.slot i)
  | .getUpvalue i => some (.upvalue i)
  | .getGlobal i => some (.global i)
  | _ => none

/-- How an instruction names the variable it writes. -/
def Op.writes? : Op → Option Route
  | .setLocal i => some (.slot i)
  | .setUpvalue i => some (.upvalue i)
  | .setGlobal i => some (.global i)
  | _ => none

/-- Whether an instruction reads or writes a variable or makes a closure. -/
def Op.touches : Op → Bool
  | .getLocal _ | .getUpvalue _ | .getGlobal _ | .setLocal _ | .setUpvalue _ | .setGlobal _
  | .closure _ _ => Bool.true
  | _ => Bool.false

/-- The instructions of some code that touch variables. -/
def Chunk.touching (c : Chunk) : List Op := c.code.toList.filter Op.touches

/-- Whether an instruction that names a variable in this way touches the one at a place. -/
def Route.Reaches (chain : List (List Capture)) (pool : Array Constant) : Route → Place → Prop
  | .slot i, .own n => i.toNat = n
  | .upvalue i, .outer levels n => follow chain i.toNat = some (levels, n)
  | .global i, .global name => pool[i.toNat]? = some (.string name)
  | _, _ => False

/-- A route goes on leading to its place while captures and constants are added. -/
theorem Route.Reaches.mono {chain chain' : List (List Capture)} {pool pool' : Array Constant}
    {r : Route} {place : Place} (h : r.Reaches chain pool place)
    (hc : List.Forall₂ (· <+: ·) chain chain') (hp : PoolKept pool pool') :
    r.Reaches chain' pool' place := by
  cases r <;> cases place
  case slot.own => exact h
  case upvalue.outer => exact follow_mono hc h
  case global.global => exact hp _ _ h
  all_goals cases h

end ScriptEngine.Bytecode

namespace ScriptEngine.Source

open Bytecode

mutual

/-- Whether an instruction of a function does what a touch says, given the constants of the function,
its captures and those of the functions around. A closure is made with captures of different
variables, and the code of its function does what the touches in it say. -/
def Touch.Rendered (chain : List (List Capture)) (pool : Array Constant) (op : Op) : Touch → Prop
  | .read place => ∃ r, op.reads? = some r ∧ r.Reaches chain pool place
  | .write place => ∃ r, op.writes? = some r ∧ r.Reaches chain pool place
  | .closure body => ∃ i cs p, op = .closure i cs ∧ pool[i.toNat]? = some (.function p) ∧
      cs.Nodup ∧ Touch.RenderedAll (cs :: chain) p.chunk.constants p.chunk.touching body

/-- Whether instructions do what touches say, one after another. -/
def Touch.RenderedAll (chain : List (List Capture)) (pool : Array Constant) :
    List Op → List Touch → Prop
  | ops, [] => ops = []
  | ops, t :: ts => ∃ op rest, ops = op :: rest ∧ t.Rendered chain pool op ∧
      Touch.RenderedAll chain pool rest ts

end

section

variable {chain chain' : List (List Capture)} {pool pool' : Array Constant}

mutual

/-- An instruction does what it did when captures and constants are added. -/
theorem Touch.Rendered.mono {op : Op} : ∀ {t : Touch} {chain chain' : List (List Capture)}
    {pool pool' : Array Constant}, t.Rendered chain pool op →
    List.Forall₂ (· <+: ·) chain chain' → PoolKept pool pool' → t.Rendered chain' pool' op
  | .read _, _, _, _, _, ⟨r, hr, h⟩, hc, hp => ⟨r, hr, Route.Reaches.mono h hc hp⟩
  | .write _, _, _, _, _, ⟨r, hr, h⟩, hc, hp => ⟨r, hr, Route.Reaches.mono h hc hp⟩
  | .closure _, _, _, _, _, ⟨i, cs, p, hop, hi, hcs, h⟩, hc, hp =>
    ⟨i, cs, p, hop, hp _ _ hi, hcs, h.mono (.cons (List.prefix_refl cs) hc) (.refl _)⟩

/-- Code goes on rendering its touches while captures and constants are added. -/
theorem Touch.RenderedAll.mono : ∀ {ts : List Touch} {ops : List Op}
    {chain chain' : List (List Capture)} {pool pool' : Array Constant},
    Touch.RenderedAll chain pool ops ts → List.Forall₂ (· <+: ·) chain chain' →
      PoolKept pool pool' →
      Touch.RenderedAll chain' pool' ops ts
  | [], _, _, _, _, _, h, _, _ => h
  | _ :: _, _, _, _, _, _, ⟨op, rest, heq, hop, h⟩, hc, hp =>
    ⟨op, rest, heq, hop.mono hc hp, h.mono hc hp⟩

end

/-- Code put together renders the touches put together. -/
theorem Touch.RenderedAll.append {ops ops' : List Op} {ts ts' : List Touch}
    (h : Touch.RenderedAll chain pool ops ts) (h' : Touch.RenderedAll chain pool ops' ts') :
    Touch.RenderedAll chain pool (ops ++ ops') (ts ++ ts') := by
  induction ts generalizing ops with
  | nil =>
    obtain rfl : ops = [] := h
    exact h'
  | cons t ts ih =>
    obtain ⟨op, rest, rfl, hop, hrest⟩ := h
    exact ⟨op, rest ++ ops', rfl, hop, ih hrest⟩

theorem Touch.RenderedAll.nil : Touch.RenderedAll chain pool [] [] := rfl

/-- One instruction that renders a touch is code for that touch alone. -/
theorem Touch.Rendered.alone {op : Op} {t : Touch} (h : t.Rendered chain pool op) :
    Touch.RenderedAll chain pool [op] [t] := ⟨op, [], rfl, h, rfl⟩

/-- A closure instruction among rendered ones makes a closure of a function whose code is rendered. -/
theorem Touch.RenderedAll.closure {ops : List Op} {ts : List Touch}
    (h : Touch.RenderedAll chain pool ops ts) {i : UInt16} {cs : List Capture}
    (hmem : .closure i cs ∈ ops) :
    ∃ p body, pool[i.toNat]? = some (.function p) ∧ cs.Nodup ∧
      Touch.RenderedAll (cs :: chain) p.chunk.constants p.chunk.touching body := by
  induction ts generalizing ops with
  | nil =>
    obtain rfl : ops = [] := h
    cases hmem
  | cons t ts ih =>
    obtain ⟨op, rest, rfl, hop, hrest⟩ := h
    rcases List.mem_cons.1 hmem with rfl | hmem
    · cases t with
      | read place =>
        obtain ⟨r, hr, -⟩ := hop
        cases hr
      | write place =>
        obtain ⟨r, hr, -⟩ := hop
        cases hr
      | closure body =>
        obtain ⟨j, ds, p, heq, hp, hds, hbody⟩ := hop
        cases heq
        exact ⟨p, body, hp, hds, hbody⟩
    · exact ih hrest hmem

end

/-! ## Frames -/

/-- Whether a binder is what a local of this name stands for. -/
def Binder.Names : Binder → String → Prop
  | .named x, name => name = x ∧ isOrdinary x = true
  | .receiver, name => name = "this"
  | .superclass, name => name = "super"
  | .hidden, name => isHidden name = true

/-- A name that means a binder means no other. -/
theorem Binder.Names.eq_iff {b c : Binder} {x y : String} (hb : b.Names x) (hc : c.Names y)
    (hb' : b ≠ .hidden) : y = x ↔ c = b := by
  have this_ordinary : isOrdinary "this" = false := rfl
  have super_ordinary : isOrdinary "super" = false := rfl
  have this_hidden : isHidden "this" = false := rfl
  have super_hidden : isHidden "super" = false := rfl
  have both : ∀ z, isOrdinary z = true → isHidden z = true → False := by
    intro z hz hz'
    simp [isOrdinary, hz'] at hz
  cases b <;> cases c <;> simp_all [Binder.Names] <;> grind

end ScriptEngine.Source

namespace ScriptEngine.Compile

open Bytecode Source

/-- A local whose value is there stands for a binder. -/
def Usable (b : Binder) (l : String × Option Nat) : Prop := b.Names l.1 ∧ l.2.isSome = true

/-- The locals of a function stand for the binders on its frame. Those with a value still to come are
innermost and stand for nothing yet. -/
def Frame (bs : List Binder) (ls : List (String × Option Nat)) : Prop :=
  ∃ pending usable, ls = pending ++ usable ∧ (∀ l ∈ pending, l.2 = none) ∧
    List.Forall₂ Usable bs usable

/-- A function under construction with these binders on its frame. -/
structure Framed (bs : List Binder) (f : FunctionState) : Prop where
  /-- Its locals stand for the binders. -/
  locals : Frame bs (shapes f.locals)
  /-- Slots fit. -/
  slots : f.locals.length ≤ FunctionState.maxLocals
  /-- Indices of captures fit. -/
  indices : f.upvalues.size ≤ FunctionState.maxUpvalues
  /-- Captures are different. -/
  distinct : f.upvalues.toList.Nodup

/-- A function gains captures and changes in nothing else but which locals are captured. -/
structure Gains (f g : FunctionState) : Prop extends Alike f g where
  /-- Captures are only added. -/
  upvalues : f.upvalues.toList <+: g.upvalues.toList

theorem Gains.refl (f : FunctionState) : Gains f f := ⟨.refl f, List.prefix_refl _⟩

theorem Gains.trans {f g h : FunctionState} (a : Gains f g) (b : Gains g h) : Gains f h :=
  ⟨a.toAlike.trans b.toAlike, a.upvalues.trans b.upvalues⟩

/-- Marking captured locals gains nothing. -/
theorem gains_capture (f : FunctionState) (captures : Array Capture) :
    Gains f (f.capture captures) := ⟨alike_capture f captures, List.prefix_refl _⟩

theorem forall₂_gains_refl (fs : List FunctionState) : List.Forall₂ Gains fs fs :=
  List.forall₂_same.2 fun f _ => .refl f

/-- Functions that gained, and gained again, gained altogether. -/
theorem forall₂_gains_trans {fs gs hs : List FunctionState} (a : List.Forall₂ Gains fs gs)
    (b : List.Forall₂ Gains gs hs) : List.Forall₂ Gains fs hs := by
  induction a generalizing hs with
  | nil =>
    cases b
    exact .nil
  | cons h _ ih =>
    cases b with
    | cons h' t => exact .cons (h.trans h') (ih t)

section

variable {b : Binder} {bs : List Binder} {name : String} {pos : Position}

/-- A slot found for a name lies among the bindings. -/
theorem slotOf_lt_length {slot : Nat} (h : slotOf b bs = some slot) : slot < bs.length := by
  induction bs with
  | nil => cases h
  | cons c bs ih =>
    rw [slotOf] at h
    split at h
    · cases h
      exact Nat.lt_succ_self _
    · exact Nat.lt_succ_of_lt (ih h)

/-- A frame has a local for every binding. -/
theorem Frame.length_le {ls : List (String × Option Nat)} (h : Frame bs ls) :
    bs.length ≤ ls.length := by
  obtain ⟨pending, usable, rfl, -, hu⟩ := h
  rw [List.length_append, hu.length_eq]
  exact Nat.le_add_left _ _

/-- Among usable locals, a name is found in the slot of the binder it means. -/
theorem findLocal_usable {ls : List Local} (h : List.Forall₂ Usable bs (shapes ls))
    (hb : b.Names name) (hb' : b ≠ .hidden) :
    findLocal name ls = none ∧ slotOf b bs = none ∨
      ∃ slot l, findLocal name ls = some (slot, l) ∧ l.depth.isNone = false ∧
        slotOf b bs = some slot := by
  induction ls generalizing bs with
  | nil =>
    cases h
    exact .inl ⟨rfl, rfl⟩
  | cons l ls ih =>
    cases h with
    | @cons c _ bs _ hl hls =>
      have hsame : l.name = name ↔ c = b := hb.eq_iff hl.1 hb'
      have hlen : bs.length = ls.length := hls.length_eq.trans (length_shapes ls)
      rw [findLocal, slotOf]
      by_cases hc : c = b
      · rw [if_pos (by simpa using hsame.2 hc), if_pos hc, hlen]
        have hd : l.depth.isSome = true := hl.2
        exact .inr ⟨ls.length, l, rfl, by simpa using hd, rfl⟩
      · rw [if_neg (by simpa using fun hn => hc (hsame.1 hn)), if_neg hc]
        exact ih hls

/-- A name is found among the usable locals, or it is that of a local with a value still to come. -/
theorem findLocal_append (name : String) {pending : List Local} (usable : List Local)
    (h : ∀ l ∈ pending, l.depth = none) :
    findLocal name (pending ++ usable) = findLocal name usable ∨
      ∃ slot l, findLocal name (pending ++ usable) = some (slot, l) ∧ l.depth = none := by
  induction pending with
  | nil => exact .inl rfl
  | cons l pending ih =>
    obtain ⟨hl, hrest⟩ := List.forall_mem_cons.1 h
    rw [List.cons_append, findLocal]
    split
    · exact .inr ⟨_, l, rfl, hl⟩
    · exact ih hrest

/-- Resolving a name among the locals of a function gives the slot of the binder it means. -/
theorem resolveLocal_frame {f : FunctionState} {found : Option UInt16}
    (h : Frame bs (shapes f.locals)) (hb : b.Names name) (hb' : b ≠ .hidden)
    (hr : f.resolveLocal name pos = .ok found) : found = (slotOf b bs).map UInt16.ofNat := by
  obtain ⟨_, _, hls, hp, hu⟩ := h
  obtain ⟨pending, usable, hsplit, rfl, rfl⟩ := List.map_eq_append_iff.1 hls
  have hp : ∀ l ∈ pending, l.depth = none := fun l hl => hp _ (List.mem_map_of_mem hl)
  unfold FunctionState.resolveLocal at hr
  rw [hsplit] at hr
  rcases findLocal_append name usable hp with hfind | ⟨slot, l, hfind, hd⟩
  · rw [hfind] at hr
    rcases findLocal_usable hu hb hb' with ⟨hn, hs⟩ | ⟨slot, l, hl, hd, hs⟩
    · rw [hn] at hr
      cases hr
      rw [hs]
      rfl
    · simp only [hl, hd, Bool.false_eq_true, if_false] at hr
      cases hr
      rw [hs]
      rfl
  · simp only [hfind, hd, Option.isNone_none, if_true] at hr
    cases hr

/-- The slot of a binding is small enough to be an operand as it is. -/
theorem Framed.toNat_slot {f : FunctionState} (h : Framed bs f) {slot : Nat}
    (hs : slotOf b bs = some slot) : (UInt16.ofNat slot).toNat = slot := by
  have hlt := slotOf_lt_length hs
  have hle := h.locals.length_le
  have hmax := h.slots
  rw [length_shapes] at hle
  exact toNat_word (Nat.lt_of_lt_of_le (Nat.lt_of_lt_of_le hlt hle) hmax)

/-- A function stays framed by the same bindings while it gains captures that differ and fit. -/
theorem Framed.gains {f g : FunctionState} (h : Framed bs f) (hg : Gains f g)
    (hi : g.upvalues.size ≤ FunctionState.maxUpvalues) (hd : g.upvalues.toList.Nodup) :
    Framed bs g :=
  ⟨hg.locals ▸ h.locals, (length_eq_of_shapes hg.locals).symm ▸ h.slots, hi, hd⟩

/-- The captures of a function are distinct and their indices fit, and stay so when one is added. -/
theorem addUpvalue_distinct {f g : FunctionState} {c : Capture} {i : UInt16}
    (hi : f.upvalues.size ≤ FunctionState.maxUpvalues) (hd : f.upvalues.toList.Nodup)
    (h : f.addUpvalue c pos = .ok (i, g)) :
    Gains f g ∧ g.upvalues.size ≤ FunctionState.maxUpvalues ∧ g.upvalues.toList.Nodup ∧
      g.upvalues.toList[i.toNat]? = some c := by
  have halike := alike_addUpvalue h
  have hget : g.upvalues.toList[i.toNat]? = some c := by
    rw [Array.getElem?_toList, getElem?_addUpvalue h hi]
  rw [FunctionState.addUpvalue_eq] at h
  split at h
  · cases h
    exact ⟨⟨halike, List.prefix_refl _⟩, hi, hd, hget⟩
  · next hn =>
    split at h
    · next hlt =>
      cases h
      have hfresh : c ∉ f.upvalues.toList := by
        intro hmem
        have := Array.findIdx?_eq_none_iff.1 hn c (Array.mem_toList_iff.1 hmem)
        simp at this
      refine ⟨⟨halike, by simp⟩, by rw [FunctionState.upvalues_push, Array.size_push]; exact hlt,
        ?_, hget⟩
      rw [FunctionState.upvalues_push, Array.toList_push]
      refine List.nodup_append.2 ⟨hd, by simp, fun a ha x hx heq => hfresh ?_⟩
      rwa [← List.mem_singleton.1 hx, ← heq]
    · cases h

/-- The captures of a function under construction and of those around it. -/
def chainOf (f : FunctionState) (fs : List FunctionState) : List (List Capture) :=
  f.upvalues.toList :: fs.map (·.upvalues.toList)

/-- The captures along a chain of functions only grow. -/
theorem chainOf_mono {f g : FunctionState} {fs gs : List FunctionState}
    (h : f.upvalues.toList <+: g.upvalues.toList) (hs : List.Forall₂ Gains fs gs) :
    List.Forall₂ (· <+: ·) (chainOf f fs) (chainOf g gs) := by
  refine .cons h ?_
  induction hs with
  | nil => exact .nil
  | cons hg _ ih => exact .cons hg.upvalues ih

/-- Resolving a name in the functions around one finds the binder it means, and records captures that
lead to its slot. -/
theorem resolveUpvalue_frames {outer : List (List Binder)} {f g : FunctionState}
    {fs gs : List FunctionState} {found : Option UInt16} (hb : b.Names name) (hb' : b ≠ .hidden)
    (hfs : List.Forall₂ Framed outer fs) (hi : f.upvalues.size ≤ FunctionState.maxUpvalues)
    (hd : f.upvalues.toList.Nodup) (h : resolveUpvalue name pos f fs = .ok (found, g, gs)) :
    Gains f g ∧ g.upvalues.size ≤ FunctionState.maxUpvalues ∧ g.upvalues.toList.Nodup ∧
      List.Forall₂ Gains fs gs ∧ List.Forall₂ Framed outer gs ∧
      (outerSlotOf b outer = none ∧ found = none ∨
        ∃ v i, outerSlotOf b outer = some v ∧ found = some i ∧
          follow (chainOf g gs) i.toNat = some v) := by
  induction hfs generalizing f g gs found with
  | nil =>
    cases h
    exact ⟨.refl f, hi, hd, .nil, .nil, .inl ⟨rfl, rfl⟩⟩
  | @cons bs next outer rest hframe hrest ih =>
    rw [resolveUpvalue] at h
    obtain ⟨slot?, hlocal, h⟩ := except_bind_ok h
    rw [FunctionState.resolveOuter_eq] at hlocal
    obtain rfl := resolveLocal_frame hframe.locals hb hb' hlocal
    rw [outerSlotOf]
    cases hslot : slotOf b bs with
    | some slot =>
      rw [hslot] at h
      obtain ⟨⟨i, g'⟩, hadd, h⟩ := except_bind_ok h
      cases h
      obtain ⟨hg, hi', hd', hget⟩ := addUpvalue_distinct hi hd hadd
      refine ⟨hg, hi', hd', forall₂_gains_refl _, .cons hframe hrest, .inr ?_⟩
      refine ⟨(0, slot), i, rfl, rfl, follow_cons.2 (.inl ⟨_, hget, ?_⟩)⟩
      rw [hframe.toNat_slot hslot]
    | none =>
      rw [hslot] at h
      obtain ⟨⟨found', next', rest'⟩, hrec, h⟩ := except_bind_ok h
      obtain ⟨hnext, hni, hnd, hgains, hframes, hfound⟩ := ih hframe.indices hframe.distinct hrec
      dsimp only at h
      have hnext' := hframe.gains hnext hni hnd
      rcases hfound with ⟨hnone, rfl⟩ | ⟨v, j, hv, rfl, hj⟩
      · cases h
        exact ⟨.refl f, hi, hd, .cons hnext hgains, .cons hnext' hframes,
          .inl ⟨by rw [hnone]; rfl, rfl⟩⟩
      · obtain ⟨⟨i, g'⟩, hadd, h⟩ := except_bind_ok h
        cases h
        obtain ⟨hg, hi', hd', hget⟩ := addUpvalue_distinct hi hd hadd
        refine ⟨hg, hi', hd', .cons hnext hgains, .cons hnext' hframes, .inr ?_⟩
        refine ⟨(v.1 + 1, v.2), i, by rw [hv]; rfl, rfl, ?_⟩
        exact follow_cons.2 (.inr ⟨j, v.1, v.2, hget, hj, rfl⟩)

end

end ScriptEngine.Compile
