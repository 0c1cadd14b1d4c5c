import ScriptEngine.Proofs.Limits
import ScriptEngine.Proofs.Siting

/-!
# Outlines of functions under construction

Whether a generator is refused depends on little of the compiler's state: of the function under
construction and of those around it, the locals apart from captures, the scope depth, the loops, and
what the code so far takes up. `Outline` keeps that much, and `Outlines` says that functions under
construction have some outlines. The pool of a function holds no more than its outline tells of, and
neither do its captures: each of them is a variable of a function around, found by its name. So where
the outlines are within the limits there is room in the functions.
-/

namespace ScriptEngine.Compile

open Bytecode Source

/-! ## Outlines -/

/-- What is known of a loop around. -/
structure LoopOutline where
  /-- An offset in front of its jumps. -/
  start : Nat
  /-- Locals on the frame where it was entered. -/
  locals : Nat
  /-- `try` statements around it. -/
  tries : Nat

/-- What the rules and the limits depend on of a function under construction. -/
structure Outline where
  /-- Locals apart from captures, innermost first. -/
  locals : List (String × Option Nat)
  /-- Scope depth. -/
  depth : Nat
  /-- The loops around. -/
  loops : List LoopOutline
  /-- What the code so far takes up. -/
  extent : Extent

namespace Outline

variable (o : Outline)

/-- Behind some code. -/
def plus (x : Extent) : Outline := { o with extent := o.extent ++ x }

/-- The offset of the next instruction. -/
def size : Nat := o.extent.size

/-- The names of the locals. -/
def names : List String := o.locals.map Prod.fst

/-- In a scope of its own. -/
def inner : Outline := { o with depth := o.depth + 1 }

/-- In a loop. -/
def loop (tries : Nat) : Outline := { o with loops := ⟨o.size, o.locals.length, tries⟩ :: o.loops }

/-- Behind the declaration of locals, the last of them innermost. -/
def bind (names : List String) : Outline :=
  { o with locals := names.reverse.map (·, some o.depth) ++ o.locals }

/-- In the initial value of locals. -/
def await (names : List String) : Outline :=
  { o with locals := names.reverse.map (·, none) ++ o.locals }

/-- Behind a declaration, which makes globals at the top level. -/
def declare (names : List String) : Outline := if o.depth = 0 then o else o.bind names

/-- Where a nested function captures some variables, those that are no locals are captured. -/
def capture (names : List String) : Outline :=
  o.plus (.captures (names.filter (· ∉ o.names)))

@[simp] theorem plus_nothing : o.plus .nothing = o := by
  simp [plus]

/-- Extents one after the other. -/
theorem plus_append (x y : Extent) : o.plus (x ++ y) = (o.plus x).plus y := by
  rw [plus, plus, plus, Extent.append_assoc]

@[simp] theorem size_plus (x : Extent) : (o.plus x).size = o.size + x.size := Extent.size_append _ _

/-- Names one after the other. -/
theorem bind_bind (xs ys : List String) : (o.bind xs).bind ys = o.bind (xs ++ ys) := by
  simp [bind]

/-- Names whose values are being computed, one after the other. -/
theorem await_await (xs ys : List String) : (o.await xs).await ys = o.await (xs ++ ys) := by
  simp [await]

@[simp] theorem declare_nil : o.declare [] = o := by
  unfold declare
  split <;> rfl

/-- Names declared one after the other. -/
theorem declare_declare (xs ys : List String) :
    (o.declare xs).declare ys = o.declare (xs ++ ys) := by
  unfold declare
  by_cases h : o.depth = 0
  · simp [h]
  · simp only [h, if_false, bind_bind, show (o.bind xs).depth = o.depth from rfl]

/-- Inside a scope declarations make locals. -/
theorem declare_inner (names : List String) : o.inner.declare names = o.inner.bind names :=
  if_neg (Nat.succ_ne_zero _)

@[simp] theorem capture_nil : o.capture [] = o := plus_nothing o

/-- Bound names are settled. -/
theorem settled_bind {o : Outline} (h : Settled o.depth o.locals) (names : List String) :
    Settled (o.bind names).depth (o.bind names).locals := by
  intro x hx
  rcases List.mem_append.1 hx with hx | hx
  · obtain ⟨name, -, rfl⟩ := List.mem_map.1 hx
    exact ⟨o.depth, Nat.le_refl _, rfl⟩
  · exact h x hx

end Outline

/-- The locals in sight, innermost first, where functions with some outlines are around. -/
def sightOf (around : List Outline) (o : Outline) : List (String × Option Nat) :=
  o.locals ++ around.flatMap Outline.locals

/-! ## Limits -/

/-- Whether the function keeps the limits, and its loops so far do. -/
def Outline.Fits (o : Outline) : Prop :=
  o.extent.within = true ∧ ∀ l ∈ o.loops, o.size - l.start ≤ Chunk.maxJump

/-- Whether the function and those around keep the limits, once they have captured what it does. -/
def Within : List Outline → Outline → Prop
  | [], o => o.Fits
  | p :: around, o => o.Fits ∧ Within around (p.capture o.extent.captured)

section Within

variable {around : List Outline} {o o' : Outline}

/-- What stays within the limits fits. -/
theorem Within.fits (h : Within around o) : o.Fits := by
  cases around with
  | nil => exact h
  | cons p around => exact h.1

/-- What fits, fits from the beginning. -/
theorem Outline.Fits.below (h : o'.Fits) (hx : o.extent.Below o'.extent) (hl : o.loops ⊆ o'.loops) :
    o.Fits := by
  refine ⟨hx.within h.1, fun l hmem => ?_⟩
  have hle := h.2 l (hl hmem)
  have hsize : o.size ≤ o'.size := hx.size
  omega

/-- Fewer captures take up less. -/
theorem captures_mono {names names' : List String} (h : names ⊆ names') (p : Outline) :
    (p.capture names).extent.Below (p.capture names').extent where
  lines := List.prefix_refl _
  literals := List.Subset.refl _
  functions := Nat.le_refl _
  captured := by
    refine List.append_subset.2 ⟨List.subset_append_left _ _, fun x hx => ?_⟩
    obtain ⟨hmem, hlocal⟩ := List.mem_filter.1 hx
    exact List.mem_append_right _ (List.mem_filter.2 ⟨h hmem, hlocal⟩)
  fits := id

/-- What is kept by a function with its captures is kept with fewer. -/
theorem Within.mono (h : Within around o') (hfits : o'.Fits → o.Fits)
    (hc : o.extent.captured ⊆ o'.extent.captured) : Within around o := by
  induction around generalizing o o' with
  | nil => exact hfits h
  | cons p around ih =>
    have hcapture := captures_mono hc p
    refine ⟨hfits h.1, ih h.2 (fun hp => ?_) hcapture.captured⟩
    exact hp.below hcapture (List.Subset.refl _)

/-- The limits are kept before where they are kept behind. -/
theorem Within.below (hx : o.extent.Below o'.extent) (hl : o.loops ⊆ o'.loops)
    (h : Within around o') : Within around o :=
  h.mono (fun hfits => hfits.below hx hl) hx.captured

/-- What stays within the limits does so from the beginning. -/
theorem Within.before {x : Extent} (h : Within around (o.plus x)) : Within around o :=
  have hx : o.extent.Below (o.plus x).extent := Extent.below_append _ _
  Within.below hx (List.Subset.refl _) h

/-- A limit that is kept. -/
theorem Within.limit {b : Bool} (h : Within around (o.plus (.limit b))) : b = true := by
  have hfits := (Extent.within_iff.1 h.fits.1).1
  exact (Bool.and_eq_true_iff.1 hfits).2

end Within

/-! ## Pools and lines -/

/-- A constant that is entered once. -/
def literalOf? : Constant → Option Literal
  | .number n => some (.number n.bits)
  | .string s => some (.text s)
  | _ => none

/-- What a constant takes up. -/
def constantExtent (c : Constant) : Extent :=
  match literalOf? c with
  | some l => .literal l
  | none => .function

/-- The constants of a pool that are entered once. -/
def literalsOf (pool : Array Constant) : List Literal := pool.toList.filterMap literalOf?

/-- A pool holds what some code takes up. -/
structure Pools (pool : Array Constant) (x : Extent) : Prop where
  /-- What is entered once is there once. -/
  distinct : (literalsOf pool).Nodup
  /-- Only what the code needs is there. -/
  known : literalsOf pool ⊆ x.literals
  /-- What is entered each time is there each time. -/
  size : pool.size = (literalsOf pool).length + x.functions

section Pools

variable {c c' : Chunk} {k : Constant} {i : UInt16} {pool : Array Constant} {x : Extent}

/-- The literals of a pool with one constant more. -/
theorem literalsOf_push (pool : Array Constant) (k : Constant) :
    literalsOf (pool.push k) = literalsOf pool ++ (literalOf? k).toList := by
  rw [literalsOf, literalsOf, Array.toList_push, List.filterMap_append]
  cases h : literalOf? k <;> simp [h]

/-- Constants are entered once exactly if they are literals. -/
theorem isShared_eq (k : Constant) : Chunk.isShared k = (literalOf? k).isSome := by
  cases k <;> rfl

/-- An entry stands for a constant if both are entered once and are the same. -/
theorem shares_iff {entry : Constant} {l : Literal} (h : literalOf? k = some l) :
    Chunk.shares entry k = true ↔ literalOf? entry = some l := by
  cases entry <;> cases k <;> cases h <;> simp [Chunk.shares, literalOf?]

/-- No entry stands for a constant that is not there. -/
theorem not_mem_literalsOf {l : Literal} (h : literalOf? k = some l)
    (hnone : pool.findIdx? (Chunk.shares · k) = none) : l ∉ literalsOf pool := by
  intro hmem
  obtain ⟨entry, hentry, heq⟩ := List.mem_filterMap.1 hmem
  have hshares := Array.findIdx?_eq_none_iff.1 hnone entry (Array.mem_toList_iff.1 hentry)
  rw [(shares_iff h).2 heq] at hshares
  cases hshares

/-- A constant that is entered. -/
theorem Pools.push (h : Pools pool x)
    (hk : ∀ l, literalOf? k = some l → l ∉ literalsOf pool) :
    Pools (pool.push k) (x ++ constantExtent k) where
  distinct := by
    rw [literalsOf_push]
    cases hl : literalOf? k with
    | none => simpa using h.distinct
    | some l => simpa [List.nodup_append] using ⟨h.distinct, fun a ha heq => hk l hl (heq ▸ ha)⟩
  known := by
    rw [literalsOf_push, Extent.literals_append, constantExtent]
    cases hl : literalOf? k with
    | none => simpa using List.subset_append_of_subset_left _ h.known
    | some l => exact List.append_subset.2 ⟨List.subset_append_of_subset_left _ h.known,
        List.subset_append_right _ _⟩
  size := by
    rw [literalsOf_push, Array.size_push, h.size, Extent.functions_append, constantExtent]
    cases literalOf? k <;> simp [Extent.literal, Extent.function, Extent.nothing] <;> omega

/-- A constant that is there already. -/
theorem Pools.shared (h : Pools pool x) {l : Literal} (hk : literalOf? k = some l) :
    Pools pool (x ++ constantExtent k) where
  distinct := h.distinct
  known := List.subset_append_of_subset_left _ h.known
  size := by
    rw [h.size, Extent.functions_append, constantExtent, hk]
    rfl

/-- The pool behind the entry of a constant. -/
theorem Pools.addConstant (h : Pools c.constants x) (hc : c.addConstant? k = some (i, c')) :
    Pools c'.constants (x ++ constantExtent k) := by
  obtain ⟨code, constants, lines⟩ := c
  simp only [Chunk.addConstant?, isShared_eq] at hc
  split at hc
  · next j hfound =>
    cases hc
    split at hfound
    · next hshared =>
      obtain ⟨l, hl⟩ := Option.isSome_iff_exists.1 hshared
      exact h.shared hl
    · cases hfound
  · next hfound =>
    split at hc
    · cases hc
      refine h.push fun l hl => ?_
      simp only [hl, Option.isSome_some, if_true] at hfound
      exact not_mem_literalsOf hl hfound
    · cases hc

/-- A pool is full only if the function does not keep the limits. -/
theorem Pools.full (h : Pools c.constants x) (hc : c.addConstant? k = none) :
    (x ++ constantExtent k).within = false := by
  obtain ⟨code, constants, lines⟩ := c
  simp only [Chunk.addConstant?, isShared_eq] at hc
  split at hc
  · cases hc
  · next hfound =>
    split at hc
    · cases hc
    · next hfull =>
      have hpush : Pools (constants.push k) (x ++ constantExtent k) := by
        refine h.push fun l hl => ?_
        simp only [hl, Option.isSome_some, if_true] at hfound
        exact not_mem_literalsOf hl hfound
      have hsize := hpush.size
      have hle : (literalsOf (constants.push k)).length ≤
          (x ++ constantExtent k).literals.dedup.length := by
        rw [← hpush.distinct.dedup]
        exact Extent.length_dedup_le hpush.known
      rw [Array.size_push] at hsize
      refine Bool.eq_false_iff.2 fun hwithin => ?_
      have hconstants := (Extent.within_iff.1 hwithin).2.1
      omega

end Pools

/-- The last run of a line table is a run at the end of some lines. -/
def Trails (t : LineTable) (lines : List UInt32) : Prop :=
  ∀ run, t.runs.back? = some run → List.replicate run.count.toNat run.line <:+ lines

section Trails

variable {t : LineTable} {lines : List UInt32} {line : Nat}

/-- No instructions leave no trail. -/
theorem trails_empty : Trails .empty [] := nofun

/-- A run that is continued. -/
theorem replicate_concat_suffix {n : Nat} {l : UInt32} (h : List.replicate n l <:+ lines) :
    List.replicate (n + 1) l <:+ lines ++ [l] := by
  obtain ⟨before, rfl⟩ := h
  exact ⟨before, by rw [List.replicate_succ', List.append_assoc]⟩

/-- One instruction more, whose line has not come too often. -/
theorem Trails.push (h : Trails t lines) (hfull : t.isFull line = false) :
    Trails (t.push line) (lines ++ [.ofNat line]) := by
  have hone : List.replicate (1 : UInt32).toNat (UInt32.ofNat line) <:+ lines ++ [.ofNat line] :=
    List.suffix_append _ _
  intro run hrun
  rw [LineTable.push] at hrun
  split at hrun
  · next last hlast =>
    split at hrun
    · next hline =>
      simp only [Array.back?_push, Option.some.injEq] at hrun
      subst hrun
      have hne : last.count + 1 ≠ 0 := by simpa [LineTable.isFull, hlast, hline] using hfull
      have hcount : (last.count + 1).toNat = last.count.toNat + 1 := by
        refine LineTable.toNat_count_succ ?_
        have hlt := last.count.toNat_lt
        by_contra hge
        refine hne (UInt32.toNat_inj.1 ?_)
        rw [UInt32.toNat_add, show last.count.toNat = 2 ^ 32 - 1 by omega]
        rfl
      rw [hcount]
      exact replicate_concat_suffix (hline ▸ h last hlast)
    · simp only [Array.back?_push, Option.some.injEq] at hrun
      subst hrun
      exact hone
  · simp only [Array.back?_push, Option.some.injEq] at hrun
    subst hrun
    exact hone

/-- A table is full only where a run is too long. -/
theorem Trails.full (h : Trails t lines) (hfull : t.isFull line = true) :
    4294967296 ≤ longestRun (lines ++ [.ofNat line]) := by
  rw [LineTable.isFull] at hfull
  obtain ⟨run, hrun, hboth⟩ := (Option.any_eq_true _ _).1 hfull
  obtain ⟨hline, hcount⟩ := Bool.and_eq_true_iff.1 hboth
  have hmax : run.count.toNat + 1 = 4294967296 := by
    have hzero := congrArg UInt32.toNat (beq_iff_eq.1 hcount)
    have hlt := run.count.toNat_lt
    rw [UInt32.toNat_add] at hzero
    change (run.count.toNat + 1) % 2 ^ 32 = 0 at hzero
    omega
  have hsuffix := replicate_concat_suffix (beq_iff_eq.1 hline ▸ h run hrun)
  rw [hmax] at hsuffix
  exact le_longestRun hsuffix

end Trails

/-! ## Captures -/

/-- A capture of the variable that a name means in the functions around. -/
inductive Links (name : String) : Capture → List FunctionState → Prop
  /-- It is a local of the next function. -/
  | here {g : FunctionState} {gs : List FunctionState} {slot : Nat} {l : Local}
    (h : findLocal name g.locals = some (slot, l)) : Links name ⟨true, .ofNat slot⟩ (g :: gs)
  /-- The next function captures it. -/
  | beyond {g : FunctionState} {gs : List FunctionState} {i : UInt16} {c : Capture}
    (hnone : findLocal name g.locals = none) (hi : g.upvalues.toList[i.toNat]? = some c)
    (hc : Links name c gs) : Links name ⟨false, i⟩ (g :: gs)

/-- The captures of a function are variables with some names of the functions around. -/
structure Captured (names : List String) (f : FunctionState) (fs : List FunctionState) : Prop where
  /-- No variable is captured twice. -/
  distinct : f.upvalues.toList.Nodup
  /-- Their indices fit. -/
  indices : f.upvalues.size ≤ FunctionState.maxUpvalues
  /-- Each has one of the names. -/
  linked : ∀ c ∈ f.upvalues.toList, ∃ name ∈ names, Links name c fs

section Captures

variable {name : String} {names names' : List String} {c d : Capture} {f g : FunctionState}
variable {fs gs : List FunctionState} {pos : Position} {i : UInt16}

/-- What is found among locals is found among locals of the same shapes. -/
theorem findLocal_congr (name : String) {ls ms : List Local} (h : shapes ms = shapes ls) :
    (findLocal name ms).map Prod.fst = (findLocal name ls).map Prod.fst := by
  induction ls generalizing ms with
  | nil =>
    rw [List.map_eq_nil_iff.1 h]
  | cons l ls ih =>
    cases ms with
    | nil => cases h
    | cons m ms =>
      obtain ⟨hshape, hrest⟩ := List.cons.inj h
      have hname : m.name = l.name := congrArg Prod.fst hshape
      rw [findLocal, findLocal, hname, length_eq_of_shapes hrest]
      split
      · rfl
      · exact ih hrest

/-- A captured variable stays linked while captures are added. -/
theorem Links.mono (h : Links name c fs) (hg : List.Forall₂ Gains fs gs) : Links name c gs := by
  induction h generalizing gs with
  | @here f fs slot l h =>
    cases hg with
    | cons hfirst hrest =>
      have hfound := findLocal_congr name hfirst.locals
      rw [h] at hfound
      obtain ⟨⟨slot', l'⟩, hl, rfl⟩ := Option.map_eq_some_iff.1 hfound
      exact .here hl
  | beyond hnone hi _ ih =>
    cases hg with
    | cons hfirst hrest =>
      have hfound := findLocal_congr name hfirst.locals
      rw [hnone] at hfound
      refine .beyond (Option.map_eq_none_iff.1 hfound) ?_ (ih hrest)
      exact getElem?_of_isPrefix hfirst.upvalues hi

/-- A name means one variable. -/
theorem Links.unique (hfs : ∀ f ∈ fs, f.upvalues.toList.Nodup) (h : Links name c fs)
    (h' : Links name d fs) : c = d := by
  induction h generalizing d with
  | here h =>
    cases h' with
    | here h' =>
      rw [h] at h'
      cases h'
      rfl
    | beyond hnone =>
      rw [h] at hnone
      cases hnone
  | beyond hnone hi _ ih =>
    cases h' with
    | here h' =>
      rw [hnone] at h'
      cases h'
    | beyond _ hj hd =>
      obtain ⟨hfirst, hrest⟩ := List.forall_mem_cons.1 hfs
      obtain rfl := ih hrest hd
      have hlt := (List.getElem?_eq_some_iff.1 hi).1
      rw [UInt16.toNat_inj.1 ((List.getElem?_inj hlt hfirst).1 (hi.trans hj.symm))]

/-- More names may be captured. -/
theorem Captured.mono (h : Captured names f fs) (hn : names ⊆ names') : Captured names' f fs where
  distinct := h.distinct
  indices := h.indices
  linked c hc :=
    have ⟨name, hname, hlink⟩ := h.linked c hc
    ⟨name, hn hname, hlink⟩

/-- Captures stay while captures are added around. -/
theorem Captured.gains (h : Captured names f fs) (hg : List.Forall₂ Gains fs gs) :
    Captured names f gs where
  distinct := h.distinct
  indices := h.indices
  linked c hc :=
    have ⟨name, hname, hlink⟩ := h.linked c hc
    ⟨name, hname, hlink.mono hg⟩

/-- Different captures have different names. -/
theorem length_le_of_links {cs : List Capture} (hcs : cs.Nodup)
    (hlinks : ∀ c ∈ cs, ∃ name ∈ names, Links name c fs)
    (hfs : ∀ f ∈ fs, f.upvalues.toList.Nodup) : cs.length ≤ names.dedup.length := by
  have hname : ∀ c : Capture, ∃ name, c ∈ cs → name ∈ names ∧ Links name c fs := by
    intro c
    by_cases hc : c ∈ cs
    · obtain ⟨name, hboth⟩ := hlinks c hc
      exact ⟨name, fun _ => hboth⟩
    · exact ⟨"", fun hmem => absurd hmem hc⟩
  choose nameOf hnameOf using hname
  have hnodup : (cs.map nameOf).Nodup := by
    refine hcs.map_on fun c hc d hd heq => ?_
    have hlink := (hnameOf c hc).2
    rw [heq] at hlink
    exact hlink.unique hfs (hnameOf d hd).2
  have hsubset : cs.map nameOf ⊆ names := by
    intro name hmem
    obtain ⟨c, hc, rfl⟩ := List.mem_map.1 hmem
    exact (hnameOf c hc).1
  calc cs.length = (cs.map nameOf).dedup.length := by rw [hnodup.dedup, List.length_map]
    _ ≤ names.dedup.length := Extent.length_dedup_le hsubset

/-- One more capture, of a variable with a name. -/
theorem Captured.addUpvalue (h : Captured names f fs) (hlink : Links name c fs)
    (hname : name ∈ names) (hadd : f.addUpvalue c pos = .ok (i, g)) :
    Gains f g ∧ Captured names g fs ∧ g.upvalues.toList[i.toNat]? = some c := by
  obtain ⟨hgains, hindices, hdistinct, hget⟩ := addUpvalue_distinct h.indices h.distinct hadd
  obtain ⟨-, -, -, hmem⟩ := addUpvalue_spec hadd h.indices
  refine ⟨hgains, ⟨hdistinct, hindices, fun d hd => ?_⟩, hget⟩
  rcases hmem d (Array.mem_toList_iff.1 hd) with hold | rfl
  · exact h.linked d (Array.mem_toList_iff.2 hold)
  · exact ⟨name, hname, hlink⟩

/-- There is no room for one more capture only if there are too many names. -/
theorem Captured.full (h : Captured names f fs) (hfs : ∀ g ∈ fs, g.upvalues.toList.Nodup)
    (hlink : Links name c fs) (hname : name ∈ names) {e : Diagnostic}
    (hadd : f.addUpvalue c pos = .error e) : FunctionState.maxUpvalues < names.dedup.length := by
  rw [FunctionState.addUpvalue_eq] at hadd
  split at hadd
  · cases hadd
  · next hn =>
    split at hadd
    · cases hadd
    · next hfull =>
      have hfresh : c ∉ f.upvalues.toList := by
        intro hmem
        have hne := Array.findIdx?_eq_none_iff.1 hn c (Array.mem_toList_iff.1 hmem)
        simp at hne
      have hlinks : ∀ d ∈ c :: f.upvalues.toList, ∃ name ∈ names, Links name d fs := by
        rintro d (_ | ⟨_, hd⟩)
        · exact ⟨name, hname, hlink⟩
        · exact h.linked d hd
      have hle := length_le_of_links (List.nodup_cons.2 ⟨hfresh, h.distinct⟩) hlinks hfs
      rw [List.length_cons, Array.length_toList] at hle
      omega

end Captures

/-! ## Functions with outlines -/

/-- A loop being compiled, and what is known of it. -/
structure LoopRecord.Shows (r : LoopRecord) (l : LoopOutline) : Prop where
  /-- The `try` statements around it. -/
  tries : r.tryDepth = l.tries
  /-- The locals where it was entered. -/
  locals : r.localCount = l.locals
  /-- `continue` lands behind its beginning. -/
  target : ∀ t, r.continueTarget = some t → l.start ≤ t
  /-- So do the jumps of `break` statements stand. -/
  breaks : ∀ j ∈ r.breakPatches, l.start ≤ j
  /-- And those of `continue` statements. -/
  continues : ∀ j ∈ r.continuePatches, l.start ≤ j

/-- A function under construction has an outline. -/
structure FunctionState.Shows (f : FunctionState) (o : Outline) : Prop where
  /-- The locals. -/
  locals : shapes f.locals = o.locals
  /-- The scope depth. -/
  depth : f.depth = o.depth
  /-- The loops. -/
  loops : List.Forall₂ LoopRecord.Shows f.loops o.loops
  /-- The instructions. -/
  size : f.chunk.size = o.size
  /-- The loops around have begun. -/
  begun : ∀ l ∈ o.loops, l.start ≤ o.size
  /-- The constants. -/
  pool : Pools f.chunk.constants o.extent
  /-- The lines are counted unless a run of them is too long. -/
  lines : longestRun o.extent.lines < 4294967296 →
    f.overflowed = false ∧ Trails f.chunk.lines o.extent.lines

/-- The function under construction and those around have some outlines. What a function captures and
is no local of the next one, the next one captures. -/
def Outlines : List Outline → Outline → FunctionState → List FunctionState → Prop
  | [], o, f, fs => f.Shows o ∧ Captured o.extent.captured f fs ∧ fs = []
  | p :: around, o, f, fs => f.Shows o ∧ Captured o.extent.captured f fs ∧
    ∃ g gs, fs = g :: gs ∧ Outlines around (p.capture o.extent.captured) g gs

/-- Where a name is found among locals, apart from captures. -/
theorem findLocal_shapes (name : String) (ls : List Local) :
    (findLocal name ls).map (·.2.depth) = (shapes ls).lookup name := by
  induction ls with
  | nil => rfl
  | cons l ls ih =>
    rw [findLocal, shapes_cons, Local.shape, List.lookup_cons]
    by_cases h : l.name = name
    · simp [h]
    · have hname : (name == l.name) = false := beq_eq_false_iff_ne.2 (Ne.symm h)
      rw [if_neg (by simpa using h), hname]
      exact ih

/-- From a computation that fails, one of the parts fails. -/
theorem except_bind_error {ε α β : Type} {x : Except ε α} {f : α → Except ε β} {e : ε}
    (h : x >>= f = .error e) : x = .error e ∨ ∃ a, x = .ok a ∧ f a = .error e := by
  cases x with
  | error e' =>
    cases h
    exact .inl rfl
  | ok a => exact .inr ⟨a, rfl, h⟩

section Shows

variable {around : List Outline} {o o' : Outline} {f g : FunctionState} {fs gs : List FunctionState}
variable {name : String} {pos : Position} {found : Option UInt16}

/-- An outline shows whatever is captured. -/
theorem FunctionState.Shows.alike (h : f.Shows o) (a : Alike f g) : g.Shows o where
  locals := a.locals.trans h.locals
  depth := a.depth.trans h.depth
  loops := a.loops ▸ h.loops
  size := a.chunk ▸ h.size
  begun := h.begun
  pool := a.chunk ▸ h.pool
  lines hrun := a.chunk ▸ a.overflowed ▸ h.lines hrun

/-- An outline that tells of more than there is. -/
theorem FunctionState.Shows.silent (h : f.Shows o) {x : Extent} (hlines : x.lines = [])
    (hfunctions : x.functions = 0) : f.Shows (o.plus x) where
  locals := h.locals
  depth := h.depth
  loops := h.loops
  size := by
    rw [h.size, Outline.size_plus, Extent.size, hlines]
    rfl
  begun l hl := by
    rw [Outline.size_plus]
    exact Nat.le_add_right_of_le (h.begun l hl)
  pool :=
    { distinct := h.pool.distinct
      known := List.subset_append_of_subset_left _ h.pool.known
      size := by
        rw [h.pool.size, Outline.plus, Extent.functions_append, hfunctions]
        rfl }
  lines := by
    rw [Outline.plus, Extent.lines_append, hlines, List.append_nil]
    exact h.lines

/-- The outline of the function under construction. -/
theorem Outlines.shows (h : Outlines around o f fs) : f.Shows o := by
  cases around with
  | nil => exact h.1
  | cons p around => exact h.1

/-- What it captures. -/
theorem Outlines.captured (h : Outlines around o f fs) : Captured o.extent.captured f fs := by
  cases around with
  | nil => exact h.2.1
  | cons p around => exact h.2.1

/-- A change of the function under construction. -/
theorem Outlines.change (h : Outlines around o f fs) (hs : g.Shows o')
    (hu : g.upvalues = f.upvalues) (hc : o'.extent.captured = o.extent.captured) :
    Outlines around o' g fs := by
  have hcaptured : Captured o'.extent.captured g fs := by
    obtain ⟨distinct, indices, linked⟩ := h.captured
    rw [← hu] at distinct indices linked
    exact ⟨distinct, indices, hc ▸ linked⟩
  cases around with
  | nil => exact ⟨hs, hcaptured, h.2.2⟩
  | cons p around => exact ⟨hs, hcaptured, hc ▸ h.2.2⟩

/-- No function around captures a variable twice. -/
theorem Outlines.distinct (h : Outlines around o f fs) : ∀ g ∈ fs, g.upvalues.toList.Nodup := by
  induction around generalizing o f fs with
  | nil =>
    rw [h.2.2]
    nofun
  | cons p around ih =>
    obtain ⟨-, -, g, gs, rfl, h⟩ := h
    exact List.forall_mem_cons.2 ⟨h.captured.distinct, ih h⟩

/-- The locals around are those of the outlines. -/
theorem Outlines.shapes (h : Outlines around o f fs) :
    fs.map (fun g => Compile.shapes g.locals) = around.map Outline.locals := by
  induction around generalizing o f fs with
  | nil =>
    rw [h.2.2]
    rfl
  | cons p around ih =>
    obtain ⟨-, -, g, gs, rfl, h⟩ := h
    rw [List.map_cons, List.map_cons, ih h, h.shows.locals]
    rfl

/-- A name is not found exactly if it is not there. -/
theorem lookup_eq_none_iff_names {ls : List (String × Option Nat)} :
    ls.lookup name = none ↔ name ∉ ls.map Prod.fst := by
  rw [List.lookup_eq_none_iff]
  simp only [List.mem_map, not_exists, not_and, bne_iff_ne]
  exact forall₂_congr fun _ _ => ne_comm

/-- A name is found among locals if it is one of their names. -/
theorem findLocal_eq_none {ls : List Local} :
    findLocal name ls = none ↔ name ∉ (Compile.shapes ls).map Prod.fst := by
  induction ls with
  | nil => simp [findLocal]
  | cons l ls ih =>
    rw [findLocal, shapes_cons, List.map_cons, List.mem_cons, Local.shape, not_or]
    split
    · next h => simp [eq_of_beq h]
    · next h => simp [ih, Ne.symm (ne_of_beq_false (Bool.eq_false_iff.2 h))]

/-- The captures of a variable that is a local of the next function end there. -/
theorem Outline.capture_concat_local {p : Outline} (h : name ∈ p.names) (names : List String) :
    p.capture (names ++ [name]) = p.capture names := by
  simp [capture, List.filter_append, h]

/-- Those of another variable go on. -/
theorem Outline.capture_concat_outer {p : Outline} (h : name ∉ p.names) (names : List String) :
    p.capture (names ++ [name]) = (p.capture names).plus (.captures [name]) := by
  rw [capture, capture, List.filter_append, ← plus_append]
  simp [h]
  rfl

/-- A local that is found is in scope. -/
theorem resolveOuter_ok {slot : Option UInt16} (h : f.resolveOuter name pos = .ok slot) :
    findLocal name f.locals = none ∧ slot = none ∨
      ∃ i l, findLocal name f.locals = some (i, l) ∧ slot = some (.ofNat i) := by
  rw [FunctionState.resolveOuter_eq, FunctionState.resolveLocal] at h
  split at h
  · next hfind =>
    cases h
    exact .inl ⟨hfind, rfl⟩
  · next i l hfind =>
    split at h
    · cases h
    · cases h
      exact .inr ⟨i, l, hfind, rfl⟩

/-- Resolving a variable of a function around captures it, here and in the functions on the way. -/
theorem Outlines.resolveUpvalue (h : Outlines around o f fs)
    (hr : resolveUpvalue name pos f fs = .ok (found, g, gs)) :
    Gains f g ∧ List.Forall₂ Gains fs gs ∧
      (name ∉ around.flatMap Outline.names ∧ found = none ∧ Outlines around o g gs ∨
        name ∈ around.flatMap Outline.names ∧ ∃ i c, found = some i ∧
          g.upvalues.toList[i.toNat]? = some c ∧ Links name c gs ∧
          Outlines around (o.plus (.captures [name])) g gs) := by
  induction around generalizing o f fs found g gs with
  | nil =>
    obtain rfl := h.2.2
    cases hr
    exact ⟨.refl f, .nil, .inl ⟨List.not_mem_nil, rfl, h⟩⟩
  | cons p around ih =>
    obtain ⟨hshows, hcaptured, next, rest, rfl, h⟩ := h
    have hnames : (Compile.shapes next.locals).map Prod.fst = p.names :=
      congrArg (List.map Prod.fst) h.shows.locals
    have hmore := hcaptured.mono (List.subset_append_left o.extent.captured [name])
    have hmem : name ∈ o.extent.captured ++ [name] := List.mem_append_right _ (List.mem_singleton.2 rfl)
    rw [Compile.resolveUpvalue] at hr
    obtain ⟨slot?, hlocal, hr⟩ := except_bind_ok hr
    rw [List.flatMap_cons, List.mem_append]
    rcases resolveOuter_ok hlocal with ⟨hnone, rfl⟩ | ⟨slot, l, hsome, rfl⟩
    · have hnot : name ∉ p.names := hnames ▸ findLocal_eq_none.1 hnone
      obtain ⟨⟨found', next', rest'⟩, hrec, hr⟩ := except_bind_ok hr
      obtain ⟨hnext, hrest, hfound⟩ := ih h hrec
      dsimp only at hr
      rcases hfound with ⟨houter, rfl, hout⟩ | ⟨houter, j, d, rfl, hget, hlink, hout⟩
      · cases hr
        refine ⟨.refl f, .cons hnext hrest, .inl ⟨by simp [hnot, houter], rfl, ?_⟩⟩
        exact ⟨hshows, hcaptured.gains (.cons hnext hrest), next', rest', rfl, hout⟩
      · obtain ⟨⟨i, f'⟩, hadd, hr⟩ := except_bind_ok hr
        cases hr
        have hnone' : findLocal name next'.locals = none := by
          rw [findLocal_eq_none, hnext.locals]
          exact findLocal_eq_none.1 hnone
        have hlinks : Links name ⟨false, j⟩ (next' :: rest') := .beyond hnone' hget hlink
        obtain ⟨hgains, hcap, hget'⟩ :=
          (hmore.gains (.cons hnext hrest)).addUpvalue hlinks hmem hadd
        refine ⟨hgains, .cons hnext hrest, .inr ⟨.inr houter, i, _, rfl, hget', hlinks, ?_⟩⟩
        refine ⟨?_, hcap, next', rest', rfl, ?_⟩
        · exact (hshows.alike hgains.toAlike).silent rfl rfl
        · rw [← Outline.capture_concat_outer hnot] at hout
          exact hout
    · have hlocal : name ∈ p.names := by
        by_contra hnot
        rw [← hnames, ← findLocal_eq_none, hsome] at hnot
        cases hnot
      obtain ⟨⟨i, f'⟩, hadd, hr⟩ := except_bind_ok hr
      cases hr
      have hlinks : Links name ⟨true, .ofNat slot⟩ (next :: rest) := .here hsome
      obtain ⟨hgains, hcap, hget⟩ := hmore.addUpvalue hlinks hmem hadd
      refine ⟨hgains, forall₂_gains_refl _, .inr ⟨.inl hlocal, i, _, rfl, hget, hlinks, ?_⟩⟩
      refine ⟨?_, hcap, next, rest, rfl, ?_⟩
      · exact (hshows.alike hgains.toAlike).silent rfl rfl
      · rwa [← Outline.capture_concat_local hlocal] at h

/-- A name that means a local whose value is still to come. -/
theorem resolveOuter_error {d : Diagnostic} (h : f.resolveOuter name pos = .error d) :
    (Compile.shapes f.locals).lookup name = some none := by
  rw [FunctionState.resolveOuter_eq, FunctionState.resolveLocal] at h
  rw [← findLocal_shapes]
  split at h
  · cases h
  · next i l hfind =>
    split at h
    · next hd =>
      rw [hfind]
      exact congrArg some (Option.isNone_iff_eq_none.1 hd)
    · cases h

/-- Captures that are too many are beyond the limits. -/
theorem not_within_of_full (h : FunctionState.maxUpvalues < o.extent.captured.dedup.length) :
    ¬ Within around o := by
  intro hwithin
  have hle := (Extent.within_iff.1 hwithin.fits.1).2.2.1
  omega

/-- A variable of a function around is resolved unless its value is still to come or too many are
captured. -/
theorem Outlines.resolveUpvalue_error (h : Outlines around o f fs) {d : Diagnostic}
    (hr : Compile.resolveUpvalue name pos f fs = .error d) :
    name ∈ around.flatMap Outline.names ∧
      ((around.flatMap Outline.locals).lookup name = some none ∨
        ¬ Within around (o.plus (.captures [name]))) := by
  induction around generalizing o f fs with
  | nil =>
    obtain rfl := h.2.2
    cases hr
  | cons p around ih =>
    have hdistinct := h.distinct
    obtain ⟨hshows, hcaptured, next, rest, rfl, h⟩ := h
    have hshape : Compile.shapes next.locals = p.locals := h.shows.locals
    have hnames : (Compile.shapes next.locals).map Prod.fst = p.names :=
      congrArg (List.map Prod.fst) hshape
    have hmore := hcaptured.mono (List.subset_append_left o.extent.captured [name])
    have hmem : name ∈ o.extent.captured ++ [name] := List.mem_append_right _ (List.mem_singleton.2 rfl)
    rw [Compile.resolveUpvalue] at hr
    rw [List.flatMap_cons, List.flatMap_cons, List.mem_append, List.lookup_append]
    rcases except_bind_error hr with hlocal | ⟨slot?, hlocal, hr⟩
    · have hpending := resolveOuter_error hlocal
      refine ⟨.inl ?_, .inl (by rw [← hshape, hpending]; rfl)⟩
      by_contra hnot
      rw [hshape, lookup_eq_none_iff_names.2 hnot] at hpending
      cases hpending
    rcases resolveOuter_ok hlocal with ⟨hnone, rfl⟩ | ⟨slot, l, hsome, rfl⟩
    · have hnot : name ∉ p.names := hnames ▸ findLocal_eq_none.1 hnone
      have hlookup : p.locals.lookup name = none := lookup_eq_none_iff_names.2 hnot
      rw [hlookup]
      rcases except_bind_error hr with hrec | ⟨⟨found', next', rest'⟩, hrec, hr⟩
      · obtain ⟨houter, hcase⟩ := ih h hrec
        refine ⟨.inr houter, hcase.imp_right fun hnot' hwithin => hnot' ?_⟩
        have houter' : Within around (p.capture (o.extent.captured ++ [name])) := hwithin.2
        rwa [Outline.capture_concat_outer hnot] at houter'
      · obtain ⟨hnext, hrest, hfound⟩ := h.resolveUpvalue hrec
        dsimp only at hr
        rcases hfound with ⟨-, rfl, -⟩ | ⟨houter, j, c, rfl, hget, hlink, hout⟩
        · cases hr
        · rcases except_bind_error hr with hadd | ⟨_, -, hr⟩
          · have hnone' : findLocal name next'.locals = none := by
              rw [findLocal_eq_none, hnext.locals]
              exact findLocal_eq_none.1 hnone
            refine ⟨.inr houter, .inr (not_within_of_full ?_)⟩
            have hdistinct' : ∀ g ∈ next' :: rest', g.upvalues.toList.Nodup :=
              List.forall_mem_cons.2 ⟨hout.captured.distinct, hout.distinct⟩
            exact (hmore.gains (.cons hnext hrest)).full hdistinct' (.beyond hnone' hget hlink)
              hmem hadd
          · cases hr
    · have hlocal : name ∈ p.names := by
        by_contra hnot
        rw [← hnames, ← findLocal_eq_none, hsome] at hnot
        cases hnot
      rcases except_bind_error hr with hadd | ⟨_, -, hr⟩
      · exact ⟨.inl hlocal, .inr (not_within_of_full (hmore.full hdistinct (.here hsome) hmem hadd))⟩
      · cases hr

end Shows

end ScriptEngine.Compile
