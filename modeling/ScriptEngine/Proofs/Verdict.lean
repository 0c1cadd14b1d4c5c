import ScriptEngine.Proofs.Acceptance
import ScriptEngine.Proofs.Addressing
import ScriptEngine.Proofs.Admitting

/-!
# Compilation accepts the valid programs

What surrounds a piece of a program in the tree, its `Standing` and its `Situation`, is what surrounds
its code: the outline of the function under construction and the context. By induction on the tree, the
code of every piece asks for just what makes the piece valid, and takes up the extent of the piece. So a
program that fits is compiled exactly if it is valid.
-/

namespace ScriptEngine.Compile

open Bytecode Source Extent

/-! ## Standings of code -/

/-- What surrounds an expression in the program tree is what surrounds it in the code. -/
structure Faces (around : List Outline) (o : Outline) (ctx : Context) (p : Standing)
    (f : Situation) : Prop where
  /-- The scoping rule is asked for. -/
  scoping : p.scoping = true
  /-- The function is of the same kind. -/
  kind : p.kind = ctx.kind
  /-- It may yield in both. -/
  yielding : p.mayYield = ctx.isGenerator
  /-- There is a method around in both. -/
  method : p.method = ctx.method.isSome
  /-- Names mean variables of which the same is known. -/
  sight : ∀ name, isOrdinary name = true →
    ((sightOf around o).lookup name).map Option.isSome = p.sight.lookup name
  /-- The other names never wait for a value. -/
  special : ∀ name, isOrdinary name = false → Known around o name
  /-- The locals on the frame have the same names. -/
  locals : f.locals = o.names
  /-- So have those of the functions around. -/
  outer : f.outer = outerNames around
  /-- A return takes up the same. -/
  generator : f.generator = ctx.isGenerator
  /-- The superclass is asked for the same method. -/
  inside : f.method = ctx.method

/-- What surrounds a statement in the program tree is what surrounds it in the code. -/
structure Suits (S : Prop) (around : List Outline) (o : Outline) (ctx : Context) (p : Standing)
    (f : Situation) : Prop extends Faces around o ctx p f where
  /-- There is a loop around in both. -/
  loop : p.loop = !o.loops.isEmpty
  /-- All values are there. -/
  settled : Settled o.depth o.locals
  /-- The `ensure` parts that leaving the innermost loop runs ask for nothing. -/
  guards : Guarded S around o.loops o.locals ctx.tries f.leaving
  /-- The innermost loop began with the same locals on the frame. -/
  frame : ∀ l ∈ o.loops.head?, l.locals = f.loop

/-- What a declaration depends on: the names that its scope has declared. -/
structure Outline.Hosts (o : Outline) (p : Standing) (f : Situation) : Prop where
  /-- It makes a global in both. -/
  top : p.top = (o.depth == 0)
  /-- It takes up the same. -/
  place : f.top = (o.depth == 0)
  /-- The scope has declared the same names. -/
  scope : o.depth ≠ 0 → o.Lists p.scope
  /-- At the top level no local is in sight. -/
  bare : p.top = true → p.sight = []

section Standings

variable {S S' : Prop} {around : List Outline} {o : Outline} {ctx : Context} {p : Standing}
variable {f : Situation} {names : List String} {name : String}

/-- A variable may be used in the tree where it has a value in the code. -/
theorem Faces.usable_iff (h : Faces around o ctx p f) (hname : isOrdinary name = true) :
    Known around o name ↔ p.usable name = true := by
  unfold Known Standing.usable
  rw [← h.sight name hname, h.scoping]
  cases (sightOf around o).lookup name with
  | none => simp
  | some d => cases d <;> simp

/-- The use of a variable takes up the same. -/
theorem Faces.use (h : Faces around o ctx p f) (name : String) :
    useOf around o name = f.use name := by
  unfold useOf Situation.use
  rw [h.locals, h.outer]

/-- There is as much room for locals. -/
theorem Faces.room (h : Faces around o ctx p f) (count : Nat) : o.room count = f.room count := by
  unfold Outline.room Situation.room
  rw [h.locals, Outline.names, List.length_map]

/-- A return takes up the same. -/
theorem Faces.finish (h : Faces around o ctx p f) (line : Nat) :
    ops line (ctx.isGenerator.toNat + 1) = f.finish line := by
  rw [Situation.finish, h.generator]

/-- The code so far does not matter. -/
theorem Faces.withExtent (h : Faces around o ctx p f) (e : Extent) :
    Faces around (o.withExtent e) ctx p f := { h with }

/-- In a scope of its own. -/
theorem Faces.inner (h : Faces around o ctx p f) : Faces around o.inner ctx p.inner f.inner :=
  { h with }

/-- What is found behind the declaration of names. -/
theorem lookup_declared (b : Bool) (sight : List (String × Bool)) :
    (names.reverse.map (·, b) ++ sight).lookup name =
      if name ∈ names then some b else sight.lookup name := by
  rw [lookup_map_append]
  simp only [List.mem_reverse]

/-- The names of the locals behind a declaration. -/
theorem Outline.names_bind (o : Outline) (names : List String) :
    (o.bind names).names = names.reverse ++ o.names := by
  simp [Outline.bind, Outline.names, Function.comp_def]

/-- The names of the locals in an initial value. -/
theorem Outline.names_await (o : Outline) (names : List String) :
    (o.await names).names = names.reverse ++ o.names := by
  simp [Outline.await, Outline.names, Function.comp_def]

/-- Behind a declaration of locals the locals are the same. -/
theorem Faces.locals_bind (h : Faces around o ctx p f) (hf : f.top = false) (names : List String) :
    (f.bind names).locals = (o.bind names).names := by
  rw [Situation.bind, if_neg (by simp [hf]), Outline.names_bind, ← h.locals]

/-- A declaration of locals leaves the rest of a situation. -/
theorem Situation.bind_eq (hf : f.top = false) (names : List String) :
    f.bind names = { f with locals := names.reverse ++ f.locals } := if_neg (by simp [hf])

/-- Behind the declaration of locals. -/
theorem Faces.bind (h : Faces around o ctx p f) (hp : p.top = false) (hf : f.top = false)
    (names : List String) : Faces around (o.bind names) ctx (p.bind names) (f.bind names) := by
  have hlocals := h.locals_bind hf names
  rw [Standing.bind, if_neg (by simp [hp])]
  rw [Situation.bind_eq hf] at hlocals ⊢
  refine { h with sight := fun name hname => ?_, special := fun name hname => ?_, locals := hlocals }
  · rw [lookup_bind, lookup_declared]
    split
    · rfl
    · exact h.sight name hname
  · exact (h.special name hname).bind names

/-- In the initial value of locals. -/
theorem Faces.await (h : Faces around o ctx p f) (hp : p.top = false) (hf : f.top = false)
    (hnames : names.all isOrdinary = true) :
    Faces around (o.await names) ctx (p.await names) (f.bind names) := by
  have hlocals : (f.bind names).locals = (o.await names).names := by
    rw [h.locals_bind hf, Outline.names_bind, Outline.names_await]
  rw [Standing.await, if_neg (by simp [hp])]
  rw [Situation.bind_eq hf] at hlocals ⊢
  refine { h with sight := fun name hname => ?_, special := fun name hname => ?_, locals := hlocals }
  · rw [lookup_await, lookup_declared]
    split
    · rfl
    · exact h.sight name hname
  · unfold Known
    rw [lookup_await, if_neg ?_]
    · exact h.special name hname
    · intro hmem
      rw [List.all_eq_true.1 hnames name hmem] at hname
      cases hname

/-- Hidden locals are in nobody's sight. -/
theorem Faces.hide (h : Faces around o ctx p f) (hf : f.top = false) {hidden : List String}
    (hall : hidden.all (!isOrdinary ·) = true) : Faces around (o.bind hidden) ctx p (f.bind hidden) := by
  have hlocals := h.locals_bind hf hidden
  rw [Situation.bind_eq hf] at hlocals ⊢
  refine { h with sight := fun name hname => ?_, special := fun name hname => ?_, locals := hlocals }
  · rw [lookup_bind, if_neg ?_]
    · exact h.sight name hname
    · intro hmem
      have hnot := List.all_eq_true.1 hall name hmem
      simp [hname] at hnot
  · exact (h.special name hname).bind hidden

/-- In a method. -/
theorem Faces.inMethod (h : Faces around o ctx p f) (method : String) :
    Faces around o { ctx with method := some method } p.inMethod (f.inMethod method) :=
  { h with method := rfl, inside := rfl }

/-- Parameters that are unpacked have no names. -/
theorem mem_argumentNames (hname : isOrdinary name = true) (i : Nat) (params : List Parameter) :
    name ∈ argumentNames i params ↔ name ∈ plainNames params := by
  induction params generalizing i with
  | nil => exact Iff.rfl
  | cons q params ih =>
    rw [argumentNames, List.mem_cons, ih]
    cases hempty : q.pattern.isEmpty with
    | true => simp [plainNames, hempty]
    | false =>
      have hne : name ≠ ".arg" ++ toString i := by
        rintro rfl
        rw [isOrdinary_argument] at hname
        cases hname
      have hplain : plainNames (q :: params) = plainNames params := by simp [plainNames, hempty]
      rw [hplain]
      exact or_iff_right hne

/-- No program names slot zero. -/
theorem isOrdinary_slotZero (kind : FunctionKind) : isOrdinary kind.slotZero = false := by
  cases kind <;> rfl

/-- No program names the receiver. -/
theorem isOrdinary_this : isOrdinary "this" = false := rfl

/-- No program names the superclass. -/
theorem isOrdinary_super : isOrdinary "super" = false := rfl

/-- No program names the hidden locals of an iteration. -/
theorem hidden_iterating :
    [".expr", ".iter", ".__iter__", ".__next__"].all (!isOrdinary ·) = true := rfl

/-- No program names the hidden locals of a `try` statement. -/
theorem hidden_handling : [".exception", ".cause"].all (!isOrdinary ·) = true :=
  rfl

/-- What surrounds the body of a function. -/
theorem Faces.function (h : Faces around o ctx p f) (sig : Signature)
    (hyield : (sig.isGenerator && sig.kind == .constructor) = false) :
    Faces (o :: around) (.body sig.kind.slotZero sig.params sig.vararg) (ctx.inner sig)
      ((p.function sig.kind sig.isGenerator).bind (parameterNames sig.params sig.vararg))
      (f.function sig.kind sig.isGenerator sig.params sig.vararg) where
  scoping := h.scoping
  kind := rfl
  yielding := by
    rw [Standing.mayYield_bind]
    change (sig.isGenerator && sig.kind != .constructor) = sig.isGenerator
    rw [bne]
    cases hgen : sig.isGenerator with
    | false => rfl
    | true => simpa [hgen] using hyield
  method := h.method
  sight name hname := by
    have hne : (name == sig.kind.slotZero) = false := by
      refine beq_eq_false_iff_ne.2 ?_
      rintro rfl
      rw [isOrdinary_slotZero] at hname
      cases hname
    have hentry : (sightOf (o :: around) (.entry sig.kind.slotZero)).lookup name =
        (sightOf around o).lookup name := by
      change List.lookup name ((sig.kind.slotZero, some 0) :: sightOf around o) = _
      rw [List.lookup_cons, hne]
    have hbound : (p.function sig.kind sig.isGenerator).bind (parameterNames sig.params sig.vararg) =
        { p.function sig.kind sig.isGenerator with
          scope := (parameterNames sig.params sig.vararg).reverse ++ []
          sight := (parameterNames sig.params sig.vararg).reverse.map (·, true) ++ p.sight } := rfl
    rw [hbound, lookup_declared, Outline.body, lookup_bind, lookup_bind, lookup_bind, hentry,
      parameterNames, ← plainNames, ← h.sight name hname]
    simp only [List.mem_append, mem_argumentNames hname]
    split_ifs <;> first | rfl | (exfalso; tauto)
  special name hname := by
    refine ((Known.bind ?_ _).bind _).bind _
    change List.lookup name ((sig.kind.slotZero, some 0) :: sightOf around o) ≠ _
    rw [List.lookup_cons]
    split
    · simp
    · exact h.special name hname
  locals := by
    rw [Outline.body, Outline.names_bind, Outline.names_bind, Outline.names_bind]
    rfl
  outer := by
    rw [outerNames, List.flatMap_cons, ← h.locals, ← outerNames, ← h.outer]
    rfl
  generator := rfl
  inside := h.inside

/-! ### Statements -/

/-- The code so far does not matter. -/
theorem Suits.withExtent (h : Suits S around o ctx p f) (e : Extent) :
    Suits S around (o.withExtent e) ctx p f :=
  { h with toFaces := { h.toFaces with } }

/-- In a scope of its own. -/
theorem Suits.inner (h : Suits S around o ctx p f) :
    Suits S around o.inner ctx p.inner f.inner where
  toFaces := h.toFaces.inner
  loop := h.loop
  settled := h.settled.mono (Nat.le_succ _)
  guards := h.guards
  frame := h.frame

/-- Behind the declaration of locals. -/
theorem Suits.bind (h : Suits S around o ctx p f) (hp : p.top = false) (hf : f.top = false)
    (names : List String) : Suits S around (o.bind names) ctx (p.bind names) (f.bind names) where
  toFaces := h.toFaces.bind hp hf names
  loop := by
    rw [Standing.bind, if_neg (by simp [hp])]
    exact h.loop
  settled := Outline.settled_bind h.settled names
  guards := by
    rw [Situation.bind_eq hf]
    exact h.guards.more _
  frame := by
    rw [Situation.bind_eq hf]
    exact h.frame

/-- Hidden locals are in nobody's sight. -/
theorem Suits.hide (h : Suits S around o ctx p f) (hf : f.top = false) {hidden : List String}
    (hall : hidden.all (!isOrdinary ·) = true) :
    Suits S around (o.bind hidden) ctx p (f.bind hidden) where
  toFaces := h.toFaces.hide hf hall
  loop := h.loop
  settled := Outline.settled_bind h.settled hidden
  guards := by
    rw [Situation.bind_eq hf]
    exact h.guards.more _
  frame := by
    rw [Situation.bind_eq hf]
    exact h.frame

/-- A body is a scope of its own. -/
theorem Suits.alone (h : Suits S around o ctx p f) : Suits S around o ctx p.inner f.inner :=
  { h with toFaces := { h.toFaces with } }

/-- In the body of a loop. -/
theorem Suits.looped (h : Suits S around o ctx p f) (e : Extent) :
    Suits S around ((o.withExtent e).loop ctx.tries.length) ctx p.looped f.looped where
  toFaces := { h.toFaces with }
  loop := rfl
  settled := h.settled
  guards := .all (by
    rintro _ ⟨⟩
    rfl)
  frame := by
    rintro _ ⟨⟩
    rw [Situation.looped, h.locals, Outline.names, List.length_map]
    rfl

/-- Inside a `try` statement. What is known of its `ensure` part is on the side. -/
theorem Suits.guarded (h : Suits S around o ctx p f) (hside : S' → S) (handlers : Nat)
    {ensure : Option (Gen Unit)} {x : Extent}
    (he : Inlined S' around o.loops o.locals x (ensure.forM id)) :
    Suits S' around o (ctx.within o.locals.length handlers ensure) p (f.guarded handlers x) where
  toFaces := { h.toFaces with }
  loop := h.loop
  settled := h.settled
  guards := by
    refine .inside (List.nil_append _).symm rfl ?_ rfl he (h.guards.mono hside)
    rw [h.locals, Outline.names, List.length_map]
  frame := h.frame

/-- No `ensure` part takes up nothing. -/
theorem inlined_none {loops : List LoopOutline} {frame : List (String × Option Nat)} :
    Inlined S around loops frame nothing ((none : Option (Gen Unit)).forM id) := fun _ _ _ =>
  (Checks.pure _).as (append_nothing _).symm (by rfl)

/-- Inside a `try` statement without an `ensure` part, or in that part. -/
theorem Suits.handled (h : Suits S around o ctx p f) (handlers : Nat) :
    Suits S around o (ctx.within o.locals.length handlers none) p (f.guarded handlers nothing) :=
  h.guarded id handlers inlined_none

/-- At the beginning of the body of a function no loop and no `try` statement is around. -/
theorem Faces.body (h : Faces around o ctx p f) (sig : Signature)
    (hyield : (sig.isGenerator && sig.kind == .constructor) = false) :
    Suits S (o :: around) (.body sig.kind.slotZero sig.params sig.vararg) (ctx.inner sig)
      ((p.function sig.kind sig.isGenerator).bind (parameterNames sig.params sig.vararg))
      (f.function sig.kind sig.isGenerator sig.params sig.vararg) where
  toFaces := h.function sig hyield
  loop := rfl
  settled := Outline.settled_body _ _ _
  guards := .all nofun
  frame := nofun

/-- Deeper, with the same locals. -/
theorem Suits.elsewhere (h : Suits S around o ctx p f) {depth : Nat} (hs : Settled depth o.locals) :
    Suits S around ⟨o.locals, depth, o.loops, .nothing⟩ ctx p f where
  toFaces := { h.toFaces with }
  loop := h.loop
  settled := hs
  guards := h.guards
  frame := h.frame

/-! ### Declarations -/

/-- A scope of its own declares nothing yet. -/
theorem Outline.hosts_inner (h : Settled o.depth o.locals) (p : Standing) (f : Situation) :
    o.inner.Hosts p.inner f.inner where
  top := rfl
  place := rfl
  scope _ := Outline.lists_inner h
  bare := nofun

/-- Behind a declaration. -/
theorem Outline.Hosts.declare (h : o.Hosts p f) (names : List String) :
    (o.declare names).Hosts (p.bind names) (f.bind names) := by
  have htop := h.top
  have hplace := h.place
  unfold Outline.declare Standing.bind Situation.bind
  by_cases hd : o.depth = 0
  · rw [if_pos hd, if_pos (by simp [htop, hd]), if_pos (by simp [hplace, hd])]
    exact h
  · have hfalse : p.top = false := by simp [htop, hd]
    rw [if_neg hd, if_neg (by simp [hfalse]), if_neg (by simp [hplace, hd])]
    exact ⟨htop, hplace, fun hd => (h.scope hd).bind names, fun ht => by simp [hfalse] at ht⟩

/-- The body of a function declares in the scope of its parameters. -/
theorem Outline.hosts_body (slotZero : String) {params : List Parameter} {vararg : Option String}
    (hsig : ordinarySignature params vararg = true) (kind : FunctionKind) (generator : Bool)
    (p : Standing) (f : Situation) : (Outline.body slotZero params vararg).Hosts
      ((p.function kind generator).bind (parameterNames params vararg))
      (f.function kind generator params vararg) where
  top := rfl
  place := rfl
  scope _ := by
    have hlists : (Outline.body slotZero params vararg).Lists _ := Outline.lists_body hsig
    rwa [← List.append_nil (parameterNames params vararg).reverse] at hlists
  bare := nofun

/-- What follows a declaration. -/
theorem Suits.declare (h : Suits S around o ctx p f) (ho : o.Hosts p f) (names : List String) :
    Suits S around (o.declare names) ctx (p.bind names) (f.bind names) := by
  have htop := ho.top
  have hplace := ho.place
  unfold Outline.declare
  split
  · next hd =>
    rw [Standing.bind, if_pos (by simp [htop, hd]), Situation.bind, if_pos (by simp [hplace, hd])]
    exact h
  · next hd => exact h.bind (by simp [htop, hd]) (by simp [hplace, hd]) names

/-- Names may be declared in the code where they may in the tree. -/
theorem Outline.Hosts.admits_iff (h : o.Hosts p f) (hs : p.scoping = true) (names : List String) :
    o.Admits p.scope names ↔ p.fresh names = true := by
  unfold Outline.Admits Standing.fresh
  simp [hs, h.top]

/-- In an initial value. -/
theorem Faces.initial (h : Faces around o ctx p f) (ho : o.Hosts p f)
    (hnames : names.all isOrdinary = true) :
    Faces around (o.initial names) ctx (p.await names) (f.bind names) := by
  have htop := ho.top
  have hplace := ho.place
  unfold Outline.initial
  split
  · next hd =>
    rw [Standing.await, if_pos (by simp [htop, hd]), Situation.bind, if_pos (by simp [hplace, hd])]
    exact h
  · next hd => exact h.await (by simp [htop, hd]) (by simp [hplace, hd]) hnames

/-- At the top level no local waits for a value. -/
theorem Outline.Hosts.known (ho : o.Hosts p f) (h : Faces around o ctx p f)
    (hname : isOrdinary name = true) : Known around (o.declare [name]) name := by
  unfold Outline.declare
  split
  · next hd =>
    rw [h.usable_iff hname, Standing.usable, ho.bare (by simp [ho.top, hd])]
    simp
  · exact known_bound o name

end Standings

/-! ## Parts of programs -/

section Parts

variable {S : Prop} {around : List Outline} {o o' : Outline} {ctx : Context} {p : Standing}
variable {f : Situation} {pos : Position} {P : Prop} {a b : Bool} {x y z : Extent}

/-- Two valid parts, one after the other. -/
theorem Takes.and {α β : Type} [Nonempty α] {m : Gen α} {k : α → Gen β}
    (hm : Takes S around o o x (a = true) m) (hk : ∀ v, Takes S around o o' y (b = true) (k v)) :
    Takes S around o o' (x ++ y) ((a && b) = true) (m >>= k) :=
  (hm.bind hk).congr Bool.and_eq_true_iff.symm

/-- Items collected in a list, or pushed one after another. -/
theorem Takes.items {items : List Expr} {cause : Cause} {most : Nat}
    {collected counted : Gen Unit} (hspread : Takes S around o o x P (compileSpread ctx items))
    (hitems : hasSpread items = false → Takes S around o o y P (compileExprs ctx items))
    (hcollected : Takes S around o o z True collected)
    (hcounted : Takes S around o o z True counted) :
    Takes S around o o
      ((if hasSpread items then listStart items ++ x else limit (items.length ≤ most) ++ y) ++ z) P
      (if hasSpread items = true then do
        Compile.emitListStart items
        compileSpread ctx items
        collected
      else do
        if items.length > most then Compile.fail cause pos
        compileExprs ctx items
        counted) := by
  cases h : hasSpread items with
  | true =>
    exact Takes.cast (.after (.emitListStart items) fun _ => hspread.before fun _ => hcollected)
      (append_assoc _ _ _).symm
  | false =>
    refine Takes.cast (.unless (b := decide (items.length ≤ most)) (fun hle => ?_)
      ((hitems h).before fun _ => hcounted)) (append_assoc _ _ _).symm
    exact Nat.not_lt.2 (of_decide_eq_true hle)

/-- A name that no program declares is read. -/
theorem Faces.getSpecial (h : Faces around o ctx p f) {name : String}
    (hname : isOrdinary name = false) (pos : Position) :
    Takes S around o o (f.access name pos.line) True (Compile.getVariable name pos) := by
  rw [Situation.access, ← h.use]
  exact (Takes.getVariable name pos).congr (iff_true_intro (h.special name hname))

/-- A variable is read where it has a value. -/
theorem Faces.getNamed (h : Faces around o ctx p f) {name : String}
    (hname : isOrdinary name = true) (pos : Position) :
    Takes S around o o (f.access name pos.line) (p.usable name = true)
      (Compile.getVariable name pos) := by
  rw [Situation.access, ← h.use]
  exact (Takes.getVariable name pos).congr (h.usable_iff hname)

/-- A variable is assigned where it has a value. -/
theorem Faces.setNamed (h : Faces around o ctx p f) {name : String}
    (hname : isOrdinary name = true) (pos : Position) :
    Takes S around o o (f.access name pos.line) (p.usable name = true)
      (Compile.setVariable name pos) := by
  rw [Situation.access, ← h.use]
  exact (Takes.setVariable name pos).congr (h.usable_iff hname)

/-- A call of something that is no method. -/
theorem takes_call {callee : Expr} {arguments : List Expr}
    (hcallee : Takes S around o o (callee.extent f) (callee.valid p = true)
      (compileExpr ctx callee))
    (hspread : Takes S around o o (Expr.spreadExtent f arguments)
      (Expr.validItems p arguments = true) (compileSpread ctx arguments))
    (hitems : hasSpread arguments = false → Takes S around o o (Expr.allExtent f arguments)
      (Expr.validItems p arguments = true) (compileExprs ctx arguments))
    (hmethod : ∀ pos object name, callee = .member pos object name → False) :
    Takes S around o o ((Expr.call pos callee arguments).extent f)
      ((Expr.call pos callee arguments).valid p = true)
      (compileExpr ctx (.call pos callee arguments)) := by
  rw [compileExpr, Expr.extent_call hmethod]
  · exact (hcallee.and fun _ => .items hspread hitems (.emit _ _) (.emit _ _)).cast
      (append_assoc _ _ _).symm
  · exact hmethod

/-- A body that declares nothing. -/
theorem Takes.unbind {st : Stmt} {m : Gen Unit}
    (h : Takes S around o (o.declare st.names) x P m) (hst : (!st.declares) = true) :
    Takes S around o o x P m := by
  rwa [Stmt.names_of_not_declares (by simpa using hst), Outline.declare_nil] at h

/-- A statement that declares nothing. -/
theorem Takes.settled {st : Stmt} {m : Gen Unit} (h : Takes S around o o x P m)
    (hst : st.names = []) : Takes S around o (o.declare st.names) x P m := by
  rwa [hst, Outline.declare_nil]

/-- An expression is judged in a loop as outside. -/
theorem Faces.inLoop (h : Faces around o ctx p f) (e : Extent) :
    Faces around ((o.withExtent e).loop ctx.tries.length) ctx p f.looped := { h with }

/-- An expression is judged in a scope of its own as outside. -/
theorem Faces.inScope (h : Faces around o ctx p f) : Faces around o.inner ctx p f.inner := { h with }

/-- There is a loop around in the code where there is one in the tree. -/
theorem Suits.loop_iff (h : Suits S around o ctx p f) : o.loops ≠ [] ↔ p.loop = true := by
  simp [h.loop]

/-- A jump out of the innermost loop takes up the same. -/
theorem Suits.exit (h : Suits S around o ctx p f) (line : Nat) :
    ∀ l ∈ o.loops.head?, f.exit line = jumpOf line l o f.leaving := by
  intro l hl
  have hlength : f.locals.length = o.locals.length := by
    rw [h.locals, Outline.names, List.length_map]
  rw [Situation.exit, jumpOf, h.frame l hl, hlength]

/-- The hidden locals of an iteration. -/
theorem Suits.iterating (h : Suits S around o ctx p f) :
    Suits S around o.iterating ctx p.inner
      (f.inner.bind [".expr", ".iter", ".__iter__", ".__next__"]) :=
  h.inner.hide rfl hidden_iterating

/-- The hidden locals of a `try` statement. -/
theorem Suits.handling (h : Suits S around o ctx p f) :
    Suits S around o.handling ctx p f.handling :=
  have hin : Suits S around o.handling ctx p.inner f.handling := h.inner.hide rfl hidden_handling
  { hin with toFaces := { hin.toFaces with } }

/-- The value and the body of a `with` see its variable. -/
theorem Suits.resource (h : Suits S around o ctx p f) (pos : Position) (name : String) :
    Suits S around (o.inner.bind [name]) (ctx.resource pos o name) (p.inner.bind [name])
      ((f.inner.bind [name]).guarded 1
        (.close ((f.inner.bind [name]).access name pos.line) pos.line)) := by
  have hin := h.inner.bind rfl rfl [name]
  refine hin.guarded id 1 fun depth x _ => ?_
  rw [Situation.access, ← hin.use]
  exact (Takes.emitClose (o := ⟨_, depth, _, .nothing⟩) (known_bound o.inner name) x).as rfl (by rfl)

/-- Names are fresh in a scope of its own if they are different. -/
theorem Faces.fresh_inner (h : Faces around o ctx p f) (names : List String) :
    p.inner.fresh names = unused [] names := by
  change (!p.scoping || false || unused [] names) = _
  rw [h.scoping]
  rfl

/-- The line of the last statement. -/
theorem lastLine_eq (body : List Stmt) (otherwise : Nat) :
    lastLine body otherwise = endLine body otherwise := by
  unfold lastLine endLine
  cases body.getLast? <;> rfl

/-- Declarations stand in no loop if none is around. -/
theorem Outline.loops_declare (o : Outline) (names : List String) :
    (o.declare names).loops = o.loops := by
  unfold Outline.declare
  split <;> rfl

/-- A function. That a constructor does not yield follows from the rule for `yield` in its body. -/
theorem Faces.emitFunction (hf : Faces around o ctx p f) (sig : Signature) {body : List Stmt}
    {names : List String} (hgen : sig.isGenerator = Stmt.yieldsAny body)
    (hend : sig.endLine = lastLine body sig.pos.line)
    (hsig : ordinarySignature sig.params sig.vararg = true)
    (hb : ∀ e, (sig.isGenerator && sig.kind == .constructor) = false →
      Takes S (o.withExtent e :: around) (.body sig.kind.slotZero sig.params sig.vararg)
        ((Outline.body sig.kind.slotZero sig.params sig.vararg).declare names) x
        (Stmt.validAll ((p.function sig.kind sig.isGenerator).bind
          (parameterNames sig.params sig.vararg)) body = true)
        (compileStmts (ctx.inner sig) body)) :
    Takes S around o o
      (closure f.locals sig.params
        (code ((f.function sig.kind sig.isGenerator sig.params sig.vararg).room 0) sig.isGenerator
          sig.params x sig.pos.line (endLine body sig.pos.line)) sig.pos.line)
      ((defaultsTrail sig.params &&
        (p.function sig.kind sig.isGenerator).fresh (parameterNames sig.params sig.vararg) &&
        Stmt.validAll ((p.function sig.kind sig.isGenerator).bind
          (parameterNames sig.params sig.vararg)) body) = true)
      (Compile.emitFunction ctx sig fun ctx => compileStmts ctx body) := by
  have hfresh : (p.function sig.kind sig.isGenerator).fresh (parameterNames sig.params sig.vararg) =
      unused [] (parameterNames sig.params sig.vararg) := hf.fresh_inner _
  have hroom : (Outline.body sig.kind.slotZero sig.params sig.vararg).room 0 =
      (f.function sig.kind sig.isGenerator sig.params sig.vararg).room 0 := by
    have hnames : (f.function sig.kind sig.isGenerator sig.params sig.vararg).locals =
        (Outline.body sig.kind.slotZero sig.params sig.vararg).names := by
      rw [Outline.body, Outline.names_bind, Outline.names_bind, Outline.names_bind]
      rfl
    rw [Outline.room, Situation.room, hnames, Outline.names, List.length_map]
  rw [hf.locals, ← hroom, ← lastLine_eq, ← hend]
  refine (Takes.emitFunction hsig (Outline.loops_declare _ _) hb).congr ?_
  rw [hfresh, Bool.and_assoc]
  refine Iff.trans (and_congr_right fun _ => Iff.trans ?_ Bool.and_eq_true_iff.symm)
    Bool.and_eq_true_iff.symm
  refine ⟨And.right, fun h => ⟨fun hyield => ?_, h⟩⟩
  obtain ⟨hyields, hconstructor⟩ := Bool.and_eq_true_iff.1 hyield
  have hvalid := h.2
  rw [hgen, beq_iff_eq.1 hconstructor] at hvalid
  rw [hgen, Stmt.not_yieldsAny_constructor hvalid] at hyields
  cases hyields

/-- The clauses of a `try` statement with the jumps out of them, behind jumps that land with them. -/
def TakesExits (S : Prop) (around : List Outline) (o : Outline) (x : Extent) (P : Prop)
    (m : Gen (List Nat)) : Prop :=
  ∀ e jumps, ((e ++ x).fits = true → ∀ j ∈ jumps, (e ++ x).size - j - 1 ≤ Chunk.maxJump) →
    Checks S around (o.withExtent e) ((o.withExtent e).plus x) P
      (m >>= fun exits => patchJumps (jumps ++ exits) ⟨0, 0⟩)

/-- No clauses. -/
theorem TakesExits.nil : TakesExits S around o nothing True (pure []) := by
  intro e jumps h
  rw [pure_bind, List.append_nil, Outline.plus_nothing]
  rw [append_nothing] at h
  exact .patchJumps (fun hwithin => h (Extent.within_iff.1 hwithin.fits.1).1) _

/-- One clause before others, which it jumps over. -/
theorem TakesExits.cons {Q R : Prop} {slot cause : UInt16} {binder : String}
    {exceptionClass body : Gen Unit} {rest : Gen (List Nat)} {hasNext : Bool}
    (hs : Settled o.depth o.locals) (hc : Takes S around o o x P exceptionClass)
    (hb : Takes S around (o.inner.bind [binder]) (o.inner.bind [binder]) y Q body)
    (hrest : TakesExits S around o z R rest) :
    TakesExits S around o
      (ops pos.line 1 ++ x ++ ops pos.line 2 ++
        skipped (o.room 1 ++ ops pos.line 1 ++ y ++ ops pos.line 4 ++ ops pos.line hasNext.toNat) ++
        skipped z) (P ∧ Q ∧ R) (do
      let exit ← Compile.emitClause pos slot cause binder exceptionClass body hasNext
      let exits ← rest
      return exit.toList ++ exits) := by
  intro e jumps h
  obtain ⟨c, hc'⟩ : ∃ c, c = ops pos.line 1 ++ x ++ ops pos.line 2 ++
      skipped (o.room 1 ++ ops pos.line 1 ++ y ++ ops pos.line 4 ++ ops pos.line hasNext.toNat) :=
    ⟨_, rfl⟩
  rw [← hc'] at h ⊢
  simp only [bind_assoc, pure_bind]
  refine .emitClause (o := o) hs hc hb fun exit hexit => ?_
  rw [← hc'] at hexit ⊢
  simp only [← List.append_assoc]
  have hlands := hrest (e ++ c ++ limit (z.size ≤ Chunk.maxJump)) (jumps ++ exit.toList) ?_
  · refine .limit (b := decide (z.size ≤ Chunk.maxJump)) ((hlands.behind ?_ (by rfl)).as ?_ (by rfl))
    · simp
    · simp [skipped, append_assoc, limit_append_comm]
  · intro hfits j hj
    simp at hfits
    rcases List.mem_append.1 hj with hj | hj
    · have hshort := h (by simp [skipped, hfits]) j hj
      simp [skipped] at hshort ⊢
      omega
    · have hat := hexit j (Option.mem_toList.1 hj)
      simp at hat ⊢
      omega

/-- The jumps out of all clauses land behind them. -/
theorem TakesExits.patched {m : Gen (List Nat)} (h : TakesExits S around o x P m) :
    Takes S around o o x P (do
      let exits ← m
      patchJumps exits ⟨0, 0⟩) := fun e => h e [] nofun

/-- A `try` statement has except clauses, an `ensure` part, or both. Inside it one may assume what
makes the `ensure` part valid. -/
theorem takes_guarded {body : Stmt} {clauses : List ExceptClause} {ensure : Option Stmt}
    (hs : Suits S around o ctx p f) (hany : (!clauses.isEmpty || ensure.isSome) = true)
    (hb : ∀ S' ctx' f', Suits S' around o ctx' p.inner f' →
      Takes S' around o o (body.extent f') (body.valid p.inner = true) (compileStmt ctx' body))
    (hc : ∀ S' ctx' f' slot cause, Suits S' around o.handling ctx' p f' →
      TakesExits S' around o.handling (ExceptClause.allExtent f' clauses)
        (ExceptClause.validAll p clauses = true) (compileClauses ctx' slot cause clauses))
    (he : ∀ o' ctx' f', Suits S around o' ctx' p.inner f' → ∀ s, ensure = some s →
      Takes S around o' o' (s.extent f') (s.valid p.inner = true) (compileStmt ctx' s)) :
    Takes S around o o ((Stmt.guarded pos body clauses ensure).extent f)
      ((Stmt.guarded pos body clauses ensure).valid p = true)
      (compileStmt ctx (.guarded pos body clauses ensure)) := by
  rw [Stmt.valid_guarded]
  cases ensure with
  | none =>
    have hbody := hb S _ _ (hs.handled 1).alone
    have hclauses := fun slot cause => (hc S _ _ slot cause (hs.handled 0).handling).patched
    cases clauses with
    | nil => cases hany
    | cons clause rest =>
      rw [Stmt.extent_tryClauses, ← hs.room]
      exact (Takes.tryClauses hs.settled hbody hclauses).congr (by simp)
  | some s =>
    have hin : Inlined (S ∧ s.valid p.inner = true) around o.loops o.locals (s.extent f.inner)
        ((some (compileStmt ctx s)).forM id) := by
      intro depth x hd
      exact (((he _ ctx _ (hs.alone.elsewhere hd) s rfl x).mono And.left).granted And.right).as
        rfl (by rfl)
    have hensure := he _ _ _ (hs.handled 0).handling.alone s rfl
    have hbody := fun handlers => hb _ _ _ (hs.guarded And.left handlers hin).alone
    cases clauses with
    | nil =>
      rw [Stmt.extent, ← hs.room]
      refine (Takes.tryEnsure hs.settled (hbody 1) hensure).congr ?_
      simp [ExceptClause.validAll]
    | cons clause rest =>
      have hclauses := fun slot cause =>
        (hc _ _ _ slot cause (hs.guarded And.left 1 hin).handling).patched
      rw [Stmt.extent, ← hs.room]
      · exact (Takes.tryBoth hs.settled (hbody 2) hclauses hensure).congr (by simp [and_assoc])
      · simp

/-- A local function is in sight of its own body. -/
theorem takes_functionStmt {name : String} {m : Gen Unit} (hs : Suits S around o ctx p f)
    (ho : o.Hosts p f) (hname : isOrdinary name = true)
    (hm : Takes S around (o.declare [name]) (o.declare [name]) x P m) :
    Takes S around o (o.declare [name])
      ((if f.top then nothing else f.room 1) ++ x ++
        (if f.top then Extent.name name ++ ops pos.line 1 else nothing))
      (o.Admits p.scope [name] ∧ P) (do
      if ← atTopLevel then
        m
        Compile.defineVariable name pos
      else
        Compile.defineLocal name pos
        m) := by
  have hvariable : Takes S around o (o.declare [name]) _ (o.Admits p.scope [name])
      (Compile.defineVariable name pos) := .defineVariable ho.scope hname pos
  refine .withTop ?_
  rw [ho.place, ← hs.room]
  unfold Extent.definition at hvariable
  by_cases hd : o.depth = 0
  · have hsame : o.declare [name] = o := if_pos hd
    have htop : (o.depth == 0) = true := by simpa using hd
    rw [hsame] at hm hvariable ⊢
    simp only [htop, if_true, nothing_append] at hvariable ⊢
    exact (hm.bind fun _ => hvariable).congr and_comm
  · have htop : (o.depth == 0) = false := by simpa using hd
    simp only [htop, Bool.false_eq_true, if_false, append_nothing]
    refine Takes.bind ?_ fun _ => hm
    rw [Outline.declare, if_neg hd]
    refine (Takes.defineLocal name pos).congr ?_
    rw [ho.scope hd name hname]
    simp [Outline.Admits, hd, unused]

/-- Names are fresh one after another. -/
theorem Standing.fresh_append (p : Standing) (xs ys : List String) :
    p.fresh (xs ++ ys) = (p.fresh xs && (p.bind xs).fresh ys) := by
  unfold Standing.fresh Standing.bind
  cases hs : p.scoping <;> cases ht : p.top <;> simp [hs, ht, unused_append]

/-- The names of an import are new in their scope. -/
theorem takes_importNames {names : List String} (hs : Suits S around o ctx p f)
    (ho : names ≠ [] → o.Hosts p f) (hnames : names.all isOrdinary = true) (module : UInt16) :
    Takes S around o (o.declare names) (f.importNames pos.line names) (p.fresh names = true)
      (names.forM fun name => do
        Compile.emit (.importName module (← Compile.addName name pos)) pos.line
        Compile.defineVariable name pos) := by
  induction names generalizing o p f with
  | nil =>
    rw [Outline.declare_nil]
    exact (Takes.pure _).congr (iff_of_true trivial (by simp [Standing.fresh, unused]))
  | cons name names ih =>
    obtain ⟨hname, hnames⟩ := Bool.and_eq_true_iff.1 hnames
    have ho := ho (List.cons_ne_nil _ _)
    have hone : Takes S around o (o.declare [name]) _ (o.Admits p.scope [name]) (do
        Compile.emit (.importName module (← Compile.addName name pos)) pos.line
        Compile.defineVariable name pos) :=
      .after (.addName name pos) fun _ => .after (.emit _ _) fun _ =>
        .defineVariable ho.scope hname pos
    have hrest := ih (hs.declare ho [name]) (fun _ => ho.declare [name]) hnames
    rw [Outline.declare_declare] at hrest
    refine ((hone.bind fun _ => hrest).congr ?_).cast ?_
    · rw [ho.admits_iff hs.scoping, ← Bool.and_eq_true, ← Standing.fresh_append]
      rfl
    · rw [Situation.importNames, Situation.define, ho.place, ← hs.room]
      simp [append_assoc]

/-- An import binds names that are new in their scope. -/
theorem takes_import {d : Import} (hs : Suits S around o ctx p f)
    (ho : (Stmt.importModule pos d).declares = true → o.Hosts p f) (hd : d.ordinary = true) :
    Takes S around o (o.declare d.boundNames) ((Stmt.importModule pos d).extent f)
      (p.fresh d.boundNames = true) (Compile.emitImport pos d) := by
  unfold Import.ordinary at hd
  unfold Import.boundNames
  rw [Stmt.declares] at ho
  rw [Stmt.extent]
  unfold Compile.emitImport
  refine .after (.addName _ pos) fun module => ?_
  cases hitems : d.items with
  | module _ =>
    rw [hitems] at hd ho
    have ho := ho rfl
    dsimp only
    rw [ops_add pos.line 1 1, append_assoc, Situation.define, ho.place, ← hs.room]
    exact .after (.emit _ _) fun _ => .after (.emit _ _) fun _ =>
      (Takes.defineVariable ho.scope hd pos).congr (ho.admits_iff hs.scoping _)
  | names names =>
    rw [hitems] at hd ho
    have ho : names ≠ [] → o.Hosts p f := fun hne => ho (by simpa [ImportItems.binds] using hne)
    dsimp only
    rw [ops_add pos.line 1 1, append_assoc]
    exact .after (.emit _ _) fun _ => .after (.emit _ _) fun _ => takes_importNames hs ho hd module
  | all =>
    refine Takes.congr (P := True) ?_ (iff_of_true trivial (by simp [Standing.fresh, unused]))
    dsimp only
    rw [Outline.declare_nil, ops_add pos.line 1 2, ops_add pos.line 1 1]
    exact .after (.emit _ _) fun _ => .after (.emit _ _) fun _ => .emit _ _

end Parts

/-! ## The induction -/

mutual

/-- The code of an expression asks for what makes the expression valid, and takes up its extent. -/
theorem takes_compileExpr (ctx : Context) (e : Expr) (h : e.lexical = true)
    {S : Prop} {around : List Outline} {o : Outline} {p : Standing} {f : Situation}
    (hf : Faces around o ctx p f) :
    Takes S around o o (e.extent f) (e.valid p = true) (compileExpr ctx e) := by
  match e with
  | .number pos n =>
    rw [compileExpr, Expr.extent]
    exact (Takes.emitConstant (.number n) pos).congr (iff_of_true trivial rfl)
  | .string pos s =>
    rw [compileExpr, Expr.extent]
    exact (Takes.emitConstant (.string s) pos).congr (iff_of_true trivial rfl)
  | .bool pos _ | .null pos =>
    rw [compileExpr, Expr.extent]
    exact (Takes.emit _ _).congr (iff_of_true trivial rfl)
  | .ident pos name =>
    rw [compileExpr, Expr.extent]
    exact hf.getNamed h pos
  | .receiver pos =>
    rw [compileExpr, Expr.extent, Expr.valid, hf.method]
    cases ctx.method with
    | none => exact .fail _ _ nofun
    | some _ =>
      exact (hf.getSpecial isOrdinary_this pos).congr (iff_of_true trivial rfl)
  | .binary pos op left right =>
    obtain ⟨hl, hr⟩ := Bool.and_eq_true_iff.1 h
    have hl := takes_compileExpr (S := S) ctx left hl hf
    have hr := takes_compileExpr (S := S) ctx right hr hf
    rw [compileExpr, Expr.extent, append_assoc]
    exact hl.and fun _ => hr.before fun _ => .emitBinary op pos.line
  | .unary pos op operand =>
    rw [compileExpr, Expr.extent]
    exact (takes_compileExpr ctx operand h hf).before fun _ => .emitUnary op pos
  | .conj pos left right | .disj pos left right =>
    obtain ⟨hl, hr⟩ := Bool.and_eq_true_iff.1 h
    have hl := takes_compileExpr (S := S) ctx left hl hf
    have hr := takes_compileExpr (S := S) ctx right hr hf
    rw [compileExpr, Expr.extent]
    exact (Takes.shortcut hl hr).congr Bool.and_eq_true_iff.symm
  | .conditional pos condition thenExpr elseExpr =>
    obtain ⟨h, he⟩ := Bool.and_eq_true_iff.1 h
    obtain ⟨hc, ht⟩ := Bool.and_eq_true_iff.1 h
    have hc := takes_compileExpr (S := S) ctx condition hc hf
    have ht := takes_compileExpr (S := S) ctx thenExpr ht hf
    have he := takes_compileExpr (S := S) ctx elseExpr he hf
    rw [compileExpr, Expr.extent]
    exact (Takes.emitBranches hc ht he).congr (by simp [Expr.valid, and_assoc])
  | .assign pos target value =>
    obtain ⟨ht, hv⟩ := Bool.and_eq_true_iff.1 h
    have hvalue := takes_compileExpr (S := S) ctx value hv hf
    cases target with
    | ident tpos name =>
      rw [compileExpr, Expr.extent]
      exact (hvalue.bind fun _ => hf.setNamed ht tpos).congr
        (by simp [Expr.valid, Expr.isTarget, and_comm])
    | member tpos object name =>
      have hobject := takes_compileExpr (S := S) ctx object ht hf
      rw [compileExpr, Expr.extent]
      exact Takes.cast (hobject.and fun _ => hvalue.before fun _ => .after (.addName _ _) fun _ =>
        .emit _ _) (by simp only [append_assoc])
    | index tpos object index =>
      obtain ⟨ho, hi⟩ := Bool.and_eq_true_iff.1 ht
      have hobject := takes_compileExpr (S := S) ctx object ho hf
      have hindex := takes_compileExpr (S := S) ctx index hi hf
      rw [compileExpr, Expr.extent]
      exact Takes.cast ((hobject.bind fun _ => hindex.bind fun _ => hvalue.before fun _ =>
        .emit _ _).congr (by simp [Expr.valid, Expr.isTarget, and_assoc]))
        (by simp only [append_assoc])
    | _ =>
      simp only [compileExpr]
      exact .fail _ _ nofun
  | .compound pos op target value =>
    obtain ⟨ht, hv⟩ := Bool.and_eq_true_iff.1 h
    have hvalue := takes_compileExpr (S := S) ctx value hv hf
    cases target with
    | ident tpos name =>
      rw [compileExpr, Expr.extent]
      exact Takes.cast (((hf.getNamed ht tpos).bind fun _ => hvalue.bind fun _ =>
        .after (.emitBinary op _) fun _ => hf.setNamed ht tpos).congr
        (by simp only [Expr.valid, Expr.isTarget, Bool.true_and, Bool.and_eq_true]; tauto))
        (by simp only [append_assoc])
    | member tpos object name =>
      have hobject := takes_compileExpr (S := S) ctx object ht hf
      rw [compileExpr, Expr.extent]
      exact Takes.cast (.after (.addName _ _) fun _ => hobject.and fun _ => .after (.emit _ _)
        fun _ => .after (.emit _ _) fun _ => hvalue.before fun _ => .after (.emitBinary op _) fun _ =>
        .emit _ _) (by simp only [ops_add tpos.line 1 1, append_assoc])
    | index tpos object index =>
      obtain ⟨ho, hi⟩ := Bool.and_eq_true_iff.1 ht
      have hobject := takes_compileExpr (S := S) ctx object ho hf
      have hindex := takes_compileExpr (S := S) ctx index hi hf
      rw [compileExpr, Expr.extent]
      exact Takes.cast ((hobject.bind fun _ => hindex.bind fun _ => .after (.emit _ _) fun _ =>
        .after (.emit _ _) fun _ => hvalue.before fun _ => .after (.emitBinary op _) fun _ =>
        .emit _ _).congr (by simp [Expr.valid, Expr.isTarget, and_assoc]))
        (by simp only [ops_add tpos.line 1 1, append_assoc])
    | _ =>
      simp only [compileExpr]
      exact .fail _ _ nofun
  | .call pos callee arguments =>
    obtain ⟨hc, ha⟩ := Bool.and_eq_true_iff.1 h
    have hspread := takes_compileSpread (S := S) ctx arguments ha hf
    have hitems := fun hs => takes_compileExprs (S := S) ctx arguments ha hs hf
    have hcallee := takes_compileExpr (S := S) ctx callee hc hf
    cases callee with
    | member mpos object name =>
      have hobject := takes_compileExpr (S := S) ctx object hc hf
      rw [compileExpr, Expr.extent, append_assoc, append_assoc]
      exact hobject.and fun _ => .items hspread hitems
        (.after (.addName _ pos) fun _ => .emit _ _) (.after (.addName _ pos) fun _ => .emit _ _)
    | _ => exact takes_call hcallee hspread hitems nofun
  | .member pos object name =>
    rw [compileExpr, Expr.extent, append_assoc]
    exact (takes_compileExpr ctx object h hf).before fun _ => .after (.addName _ pos) fun _ =>
      .emit _ _
  | .index pos object index =>
    obtain ⟨ho, hi⟩ := Bool.and_eq_true_iff.1 h
    have hobject := takes_compileExpr (S := S) ctx object ho hf
    have hindex := takes_compileExpr (S := S) ctx index hi hf
    rw [compileExpr, Expr.extent, append_assoc]
    exact hobject.and fun _ => hindex.before fun _ => .emit _ _
  | .superCall pos method arguments =>
    have hspread := takes_compileSpread (S := S) ctx arguments h hf
    have hitems := fun hs => takes_compileExprs (S := S) ctx arguments h hs hf
    have hthis : Takes S around o o _ True (getVariable "this" pos) :=
      hf.getSpecial isOrdinary_this pos
    have hsuper : Takes S around o o _ True (getVariable "super" pos) :=
      hf.getSpecial isOrdinary_super pos
    rw [compileExpr, Expr.extent, Expr.valid, hf.method, hf.inside]
    refine (Takes.withSuper fun own hown => ?_).congr Bool.and_eq_true_iff.symm
    rw [hown, Option.getD_some]
    exact Takes.cast (hthis.after fun _ => .items hspread hitems
      (hsuper.after fun _ => .after (.addName _ pos) fun _ => .emit _ _)
      (hsuper.after fun _ => .after (.addName _ pos) fun _ => .emit _ _))
      (by simp only [append_assoc])
  | .superMember pos method =>
    have hthis : Takes S around o o _ True (getVariable "this" pos) :=
      hf.getSpecial isOrdinary_this pos
    have hsuper : Takes S around o o _ True (getVariable "super" pos) :=
      hf.getSpecial isOrdinary_super pos
    rw [compileExpr, Expr.extent, Expr.valid, hf.method, hf.inside]
    refine (Takes.withSuper fun own hown => ?_).congr Bool.and_eq_true_iff.symm
    rw [hown, Option.getD_some, append_assoc, append_assoc]
    refine hthis.after fun _ => ?_
    cases method with
    | none => exact .failed nofun
    | some _ =>
      exact Takes.congr (hsuper.after fun _ => .after (.addName _ pos) fun _ => .emit _ _)
        (iff_of_true trivial rfl)
  | .list pos items =>
    have hspread := takes_compileSpread (S := S) ctx items h hf
    have hitems := fun hs => takes_compileExprs (S := S) ctx items h hs hf
    rw [compileExpr, Expr.extent]
    cases hs : hasSpread items with
    | true => exact .after (.emitListStart items) fun _ => hspread
    | false =>
      refine Takes.cast (.unless (b := decide (items.length ≤ maxElements)) (fun hle => ?_)
        ((hitems hs).before fun _ => .emit _ _)) (append_assoc _ _ _).symm
      exact Nat.not_lt.2 (of_decide_eq_true hle)
  | .tuple pos items =>
    have hspread := takes_compileSpread (S := S) ctx items h hf
    have hitems := fun hs => takes_compileExprs (S := S) ctx items h hs hf
    rw [compileExpr, Expr.extent]
    exact .items hspread hitems (.emit _ _) (.emit _ _)
  | .table pos entries =>
    rw [compileExpr, Expr.extent, append_assoc]
    refine .unless (b := decide (entries.length ≤ maxElements)) (fun hle => ?_)
      ((takes_compileEntries ctx entries h hf).before fun _ => .emit _ _)
    exact Nat.not_lt.2 (of_decide_eq_true hle)
  | .function pos ⟨name, params, vararg, body, declPos⟩ =>
    obtain ⟨hsig, hbody⟩ := Bool.and_eq_true_iff.1 h
    have hb := fun (e : Extent) hyield => takes_compileStmts (S := S) _ body hbody
      ((hf.withExtent e).body (signatureOf .function (literalName name pos.line) params vararg body
        declPos) hyield) (Outline.hosts_body _ hsig _ _ _ _)
    have hfun := hf.emitFunction (signatureOf .function (literalName name pos.line) params vararg body
      declPos) rfl rfl hsig hb
    rw [compileExpr]
    exact hfun
  | .spread pos inner =>
    rw [compileExpr]
    exact .fail _ _ nofun
  | .yield pos value =>
    rw [compileExpr]
    cases value with
    | none =>
      refine Takes.congr (.require fun _ => .after (.emit _ _) fun _ => .emit _ _) ?_
      simp [Expr.valid, hf.yielding]
    | some value =>
      have hv := takes_compileExpr (S := S) ctx value h hf
      refine Takes.congr (.require fun _ => hv.before fun _ => .emit _ _) ?_
      simp [Expr.valid, hf.yielding]

/-- So does that of expressions one after another. -/
theorem takes_compileExprs (ctx : Context) (es : List Expr) (h : Expr.lexicalAll es = true)
    (hs : hasSpread es = false) {S : Prop} {around : List Outline} {o : Outline} {p : Standing}
    {f : Situation} (hf : Faces around o ctx p f) :
    Takes S around o o (Expr.allExtent f es) (Expr.validItems p es = true)
      (compileExprs ctx es) := by
  match es with
  | [] => exact (Takes.pure _).congr (iff_of_true trivial rfl)
  | e :: rest =>
    obtain ⟨he, hrest⟩ := Bool.and_eq_true_iff.1 h
    obtain ⟨hne, hs⟩ := hasSpread_cons hs
    rw [compileExprs, Expr.validItems_cons hne, Expr.allExtent]
    exact (takes_compileExpr ctx e he hf).and fun _ => takes_compileExprs ctx rest hrest hs hf

/-- So does that of items added to a list. -/
theorem takes_compileSpread (ctx : Context) (es : List Expr) (h : Expr.lexicalAll es = true)
    {S : Prop} {around : List Outline} {o : Outline} {p : Standing} {f : Situation}
    (hf : Faces around o ctx p f) :
    Takes S around o o (Expr.spreadExtent f es) (Expr.validItems p es = true)
      (compileSpread ctx es) := by
  match es with
  | [] =>
    rw [compileSpread]
    exact (Takes.pure _).congr (iff_of_true trivial rfl)
  | e :: rest =>
    obtain ⟨he, hrest⟩ := Bool.and_eq_true_iff.1 h
    have hrest := takes_compileSpread (S := S) ctx rest hrest hf
    have hone := takes_compileExpr (S := S) ctx e he hf
    cases e with
    | spread pos inner =>
      have hinner := takes_compileExpr (S := S) ctx inner he hf
      rw [compileSpread, Expr.spreadExtent, append_assoc]
      exact hinner.and fun _ => .after (.emit _ _) fun _ => hrest
    | _ =>
      rw [compileSpread, Expr.spreadExtent, append_assoc]
      · exact hone.and fun _ => .after (.emit _ _) fun _ => hrest
      all_goals nofun

/-- So does that of the entries of a table. -/
theorem takes_compileEntries (ctx : Context) (entries : List (Expr × Expr))
    (h : Expr.lexicalEntries entries = true)
    {S : Prop} {around : List Outline} {o : Outline} {p : Standing} {f : Situation}
    (hf : Faces around o ctx p f) :
    Takes S around o o (Expr.entriesExtent f entries) (Expr.validEntries p entries = true)
      (compileEntries ctx entries) := by
  match entries with
  | [] => exact (Takes.pure _).congr (iff_of_true trivial rfl)
  | (k, v) :: rest =>
    obtain ⟨h, hrest⟩ := Bool.and_eq_true_iff.1 h
    obtain ⟨hk, hv⟩ := Bool.and_eq_true_iff.1 h
    have hk := takes_compileExpr (S := S) ctx k hk hf
    have hv := takes_compileExpr (S := S) ctx v hv hf
    have hrest := takes_compileEntries (S := S) ctx rest hrest hf
    rw [compileEntries, Expr.validEntries, Bool.and_assoc, Expr.entriesExtent, append_assoc]
    exact hk.and fun _ => hv.and fun _ => hrest

/-- The code of a statement asks for what makes the statement valid, and takes up its extent. -/
theorem takes_compileStmt (ctx : Context) (st : Stmt) (h : st.lexical = true)
    {S : Prop} {around : List Outline} {o : Outline} {p : Standing} {f : Situation}
    (hs : Suits S around o ctx p f) (ho : st.declares = true → o.Hosts p f) :
    Takes S around o (o.declare st.names) (st.extent f) (st.valid p = true)
      (compileStmt ctx st) := by
  have hf := hs.toFaces
  match st with
  | .expression pos e | .raise pos e =>
    refine .settled ?_ rfl
    exact (takes_compileExpr ctx e h hf).before fun _ => .emit _ _
  | .declare pos names none =>
    have ho := ho rfl
    have hnone : Values (fun x m => Takes S around (o.initial names) (o.initial names) x True m)
        True names pos.line none _ := .nulls trivial
    rw [Stmt.extent, ho.place, ← hs.room]
    refine (Takes.emitDeclare ho.scope (Bool.and_eq_true_iff.1 h).1 hnone).congr ?_
    rw [ho.admits_iff hf.scoping, Stmt.valid, Bool.and_eq_true]
    simp
  | .declare pos names (some e) =>
    have ho := ho rfl
    obtain ⟨hnames, he⟩ := Bool.and_eq_true_iff.1 h
    have he := takes_compileExpr (S := S) ctx e he (hf.initial ho hnames)
    have hsome : Values (fun x m => Takes S around (o.initial names) (o.initial names) x
        (e.valid (p.await names) = true) m) (e.valid (p.await names) = true) names pos.line
        (some (compileExpr ctx e)) _ := .value he
    rw [Stmt.extent, ho.place, ← hs.room]
    refine (Takes.emitDeclare ho.scope hnames hsome).congr ?_
    rw [ho.admits_iff hf.scoping]
    exact Bool.and_eq_true_iff.symm
  | .block pos body =>
    have hbody := takes_compileStmts ctx body h hs.inner (Outline.hosts_inner hs.settled p f)
    rw [Outline.declare_inner] at hbody
    refine .settled ?_ rfl
    exact .inScope pos.line hs.settled _ hbody
  | .branch pos condition t none =>
    obtain ⟨h, -⟩ := Bool.and_eq_true_iff.1 h
    obtain ⟨h, ht⟩ := Bool.and_eq_true_iff.1 h
    obtain ⟨hc, hd⟩ := Bool.and_eq_true_iff.1 h
    have hc := takes_compileExpr (S := S) ctx condition hc hf
    have ht := (takes_compileStmt ctx t ht hs.alone (undeclared hd)).unbind hd
    rw [Stmt.valid_branch, Stmt.extent]
    refine .settled ?_ rfl
    exact (Takes.emitBranch hc ht).congr (by simp)
  | .branch pos condition t (some e) =>
    obtain ⟨h, he⟩ := Bool.and_eq_true_iff.1 h
    obtain ⟨h, ht⟩ := Bool.and_eq_true_iff.1 h
    obtain ⟨hc, hd⟩ := Bool.and_eq_true_iff.1 h
    obtain ⟨hd', he⟩ := Bool.and_eq_true_iff.1 he
    have hc := takes_compileExpr (S := S) ctx condition hc hf
    have ht := (takes_compileStmt ctx t ht hs.alone (undeclared hd)).unbind hd
    have he := (takes_compileStmt ctx e he hs.alone (undeclared hd')).unbind hd'
    rw [Stmt.valid_branch, Stmt.extent]
    refine .settled ?_ rfl
    exact (Takes.emitBranches hc ht he).congr (by simp [and_assoc])
  | .whileLoop pos condition body =>
    obtain ⟨h, hb⟩ := Bool.and_eq_true_iff.1 h
    obtain ⟨hc, hd⟩ := Bool.and_eq_true_iff.1 h
    have hc := fun e => takes_compileExpr (S := S) ctx condition hc (hf.inLoop e)
    have hb := fun e => (takes_compileStmt ctx body hb (hs.looped e) (undeclared hd)).unbind hd
    refine .settled ?_ rfl
    exact (Takes.emitWhile hc hb).congr Bool.and_eq_true_iff.symm
  | .forLoop pos initial condition step body =>
    rw [Stmt.lexical_forLoop] at h
    obtain ⟨h, hb⟩ := Bool.and_eq_true_iff.1 h
    obtain ⟨h, hd⟩ := Bool.and_eq_true_iff.1 h
    obtain ⟨h, hstep⟩ := Bool.and_eq_true_iff.1 h
    obtain ⟨hi, hc⟩ := Bool.and_eq_true_iff.1 h
    obtain ⟨names, hnames⟩ : ∃ names, names = (initial.map Stmt.names).getD [] := ⟨_, rfl⟩
    have hin := hs.inner.bind rfl rfl names
    have hb := fun e => (takes_compileStmt ctx body hb (hin.looped e) (undeclared hd)).unbind hd
    rw [compileStmt_forLoop, Stmt.valid_forLoop, Stmt.extent_forLoop, ← hnames]
    refine .settled ?_ rfl
    refine (Takes.emitFor (P := initial.all (Stmt.valid p.inner) = true)
      (Q := condition.all (Expr.valid (p.inner.bind names)) = true)
      (R := step.all (Expr.valid (p.inner.bind names)) = true) hs.settled ?_ ?_ hb ?_).congr ?_
    · cases initial with
      | none =>
        subst hnames
        exact (Takes.pure _).congr (iff_of_true trivial rfl)
      | some s =>
        subst hnames
        have hs := takes_compileStmt ctx s hi hs.inner fun _ => Outline.hosts_inner hs.settled p f
        rw [Outline.declare_inner] at hs
        exact hs
    · cases condition with
      | none => exact .missing rfl
      | some e => exact .given (takes_compileExpr ctx e hc hin.toFaces)
    · intro e
      cases step with
      | none => exact .missing rfl
      | some st => exact .given (takes_compileExpr ctx st hstep (hin.toFaces.inLoop e))
    · simp only [Bool.and_eq_true]
      tauto
  | .forEach pos names iterable body =>
    obtain ⟨h, hb⟩ := Bool.and_eq_true_iff.1 h
    obtain ⟨h, hd⟩ := Bool.and_eq_true_iff.1 h
    obtain ⟨hnames, hi⟩ := Bool.and_eq_true_iff.1 h
    have hi := takes_compileExpr (S := S) ctx iterable hi (hf.inScope)
    have hround := fun e => ((hs.iterating.looped e).inner.bind rfl rfl names).alone
    have hb := fun e => (takes_compileStmt ctx body hb (hround e) (undeclared hd)).unbind hd
    refine .settled ?_ rfl
    refine ((Takes.emitForEach hs.settled hnames hi hb).congr ?_).cast ?_
    · rw [← hf.fresh_inner, Stmt.valid, Bool.and_eq_true, Bool.and_eq_true, and_assoc]
      exact Iff.rfl
    · rw [hs.room, hs.iterating.room, Stmt.extent]
      rfl
  | .breakLoop pos =>
    refine .settled (fun e => ?_) rfl
    have hs := hs.withExtent e
    exact (Checks.emitBreak pos hs.guards hs.settled (hs.exit pos.line)).congr hs.loop_iff
  | .continueLoop pos =>
    refine .settled (fun e => ?_) rfl
    have hs := hs.withExtent e
    exact (Checks.emitContinue pos hs.guards hs.settled (hs.exit pos.line)).congr hs.loop_iff
  | .returnValue pos none =>
    refine .settled ?_ rfl
    rw [Stmt.extent, ← hs.finish]
    refine Takes.emitReturnNone.congr ?_
    simp [Stmt.valid, hf.kind]
  | .returnValue pos (some e) =>
    have he := takes_compileExpr (S := S) ctx e h hf
    refine .settled ?_ rfl
    rw [Stmt.extent, ← hs.finish]
    refine (Takes.emitReturnSome he).congr ?_
    simp [Stmt.valid, hf.kind]
  | .guarded pos body clauses ensure =>
    rw [Stmt.lexical_guarded] at h
    obtain ⟨h, he⟩ := Bool.and_eq_true_iff.1 h
    obtain ⟨h, hc⟩ := Bool.and_eq_true_iff.1 h
    obtain ⟨h, hb⟩ := Bool.and_eq_true_iff.1 h
    obtain ⟨hany, hd⟩ := Bool.and_eq_true_iff.1 h
    refine .settled (takes_guarded hs hany ?_ ?_ ?_) rfl
    · exact fun _ ctx' _ hs' => (takes_compileStmt ctx' body hb hs' (undeclared hd)).unbind hd
    · exact fun _ ctx' _ slot cause hs' => takes_compileClauses ctx' clauses hc hs' slot cause
    · intro o' ctx' _ hs'
      cases ensure with
      | none => nofun
      | some s =>
        obtain ⟨hd, he⟩ := Bool.and_eq_true_iff.1 he
        rintro _ ⟨⟩
        exact (takes_compileStmt ctx' s he hs' (undeclared hd)).unbind hd
  | .withResource pos name value body =>
    obtain ⟨h, hb⟩ := Bool.and_eq_true_iff.1 h
    obtain ⟨h, hd⟩ := Bool.and_eq_true_iff.1 h
    obtain ⟨hname, hv⟩ := Bool.and_eq_true_iff.1 h
    have hin := hs.resource pos name
    have hv := takes_compileExpr (S := S) _ value hv hin.toFaces.inScope
    have hb := (takes_compileStmt _ body hb hin.inner (undeclared hd)).unbind hd
    refine .settled ?_ rfl
    have hvariable := hs.inner.bind rfl rfl [name]
    have huse : useOf around (o.resource name) name = _ := hin.toFaces.inScope.use name
    have hclose : useOf around (o.inner.bind [name]).handling name = _ := hvariable.handling.use name
    refine ((Takes.emitWith hs.settled hname hv hb).congr Bool.and_eq_true_iff.symm).cast ?_
    rw [hs.room, hvariable.room, huse, hclose, Stmt.extent]
    rfl
  | .function _ ⟨name, params, vararg, body, pos⟩ =>
    have ho := ho rfl
    obtain ⟨h, hbody⟩ := Bool.and_eq_true_iff.1 h
    obtain ⟨hname, hsig⟩ := Bool.and_eq_true_iff.1 h
    have hf' := (hs.declare ho [name]).toFaces
    have hb := fun (e : Extent) hyield => takes_compileStmts (S := S) _ body hbody
      ((hf'.withExtent e).body (signatureOf .function name params vararg body pos) hyield)
      (Outline.hosts_body _ hsig _ _ _ _)
    rw [Stmt.extent]
    refine (takes_functionStmt hs ho hname (hf'.emitFunction _ rfl rfl hsig hb)).congr ?_
    rw [ho.admits_iff hf.scoping, Stmt.valid, Bool.and_assoc, Bool.and_assoc, ← Bool.and_eq_true,
      Bool.and_assoc]
    rfl
  | .native pos decl =>
    have ho := ho rfl
    rw [Stmt.extent, Situation.define, ho.place, ← hs.room, append_assoc]
    refine ((Takes.nativeConstant decl).bind fun _ => .after (.emit _ _) fun _ =>
      .defineVariable ho.scope h decl.pos).congr ?_
    rw [ho.admits_iff hf.scoping]
    exact Bool.and_eq_true_iff.symm
  | .classDef pos name superclass methods =>
    have ho := ho rfl
    rw [Stmt.lexical_classDef] at h
    obtain ⟨h, hmethods⟩ := Bool.and_eq_true_iff.1 h
    obtain ⟨hname, hsuper⟩ := Bool.and_eq_true_iff.1 h
    have hin := (hs.declare ho [name]).toFaces.inScope
    have hsuperclass := hin.hide rfl
      (by simp [isOrdinary_super] : ["super"].all (!isOrdinary ·) = true)
    have hm := takes_compileMethods (S := S) ctx name methods hmethods hsuperclass
    rw [compileStmt_classDef, Stmt.valid_classDef]
    refine ((Takes.emitClass (P := superclass.all (Expr.valid (p.bind [name])) = true)
      (x := superclass.elim (ops pos.line 1) (Expr.extent (f.bind [name]).inner)) hs.settled
      ho.scope hname (ho.known hf hname) ?_ hm).congr ?_).cast ?_
    · cases superclass with
      | none => exact (Takes.emit _ _).congr (iff_of_true trivial rfl)
      | some e => exact takes_compileExpr ctx e hsuper hin
    · rw [ho.admits_iff hf.scoping, Bool.and_eq_true, Bool.and_eq_true, and_assoc]
    · rw [(hs.declare ho [name]).room, hs.room, ← ho.place, hsuperclass.use]
      cases superclass <;> rfl
  | .importModule pos decl =>
    rw [Stmt.valid]
    exact takes_import hs ho h

/-- Statements one after another do. -/
theorem takes_compileStmts (ctx : Context) (body : List Stmt) (h : Stmt.lexicalAll body = true)
    {S : Prop} {around : List Outline} {o : Outline} {p : Standing} {f : Situation}
    (hs : Suits S around o ctx p f) (ho : o.Hosts p f) :
    Takes S around o (o.declare (body.flatMap Stmt.names)) (Stmt.allExtent f body)
      (Stmt.validAll p body = true) (compileStmts ctx body) := by
  match body with
  | [] =>
    rw [compileStmts, List.flatMap_nil, Outline.declare_nil]
    exact (Takes.pure _).congr (iff_of_true trivial rfl)
  | st :: rest =>
    obtain ⟨hst, hrest⟩ := Bool.and_eq_true_iff.1 h
    have hst := takes_compileStmt ctx st hst hs fun _ => ho
    have hrest := takes_compileStmts ctx rest hrest (hs.declare ho st.names) (ho.declare st.names)
    rw [Outline.declare_declare] at hrest
    rw [compileStmts, List.flatMap_cons]
    exact (hst.bind fun _ => hrest).congr Bool.and_eq_true_iff.symm

/-- So do the clauses of a `try` statement. -/
theorem takes_compileClauses (ctx : Context) (clauses : List ExceptClause)
    (h : ExceptClause.lexicalAll clauses = true)
    {S : Prop} {around : List Outline} {o : Outline} {p : Standing} {f : Situation}
    (hs : Suits S around o ctx p f) (slot cause : UInt16) :
    TakesExits S around o (ExceptClause.allExtent f clauses)
      (ExceptClause.validAll p clauses = true) (compileClauses ctx slot cause clauses) := by
  match clauses with
  | [] =>
    intro e jumps hjumps
    exact (TakesExits.nil e jumps hjumps).congr (iff_of_true trivial rfl)
  | ⟨pos, exceptionClass, binder, body⟩ :: rest =>
    obtain ⟨h, hrest⟩ := Bool.and_eq_true_iff.1 h
    obtain ⟨h, hb⟩ := Bool.and_eq_true_iff.1 h
    obtain ⟨h, hd⟩ := Bool.and_eq_true_iff.1 h
    obtain ⟨-, hc⟩ := Bool.and_eq_true_iff.1 h
    have hc := takes_compileExpr (S := S) ctx exceptionClass hc hs.toFaces
    have hb := (takes_compileStmt ctx body hb (hs.inner.bind rfl rfl [binder]).alone
      (undeclared hd)).unbind hd
    have hrest := takes_compileClauses (S := S) ctx rest hrest hs slot cause
    intro e jumps hjumps
    rw [ExceptClause.allExtent, ← hs.room] at hjumps ⊢
    refine (TakesExits.cons hs.settled hc hb hrest e jumps hjumps).congr ?_
    simp [ExceptClause.validAll, and_assoc]

/-- So do the methods of a class. -/
theorem takes_compileMethods (ctx : Context) (className : String) (methods : List Method)
    (h : Method.lexicalAll methods = true)
    {S : Prop} {around : List Outline} {o : Outline} {p : Standing} {f : Situation}
    (hf : Faces around o ctx p f) :
    Takes S around o o (Method.allExtent f methods) (Method.validAll p methods = true)
      (compileMethods ctx className methods) := by
  match methods with
  | [] => exact (Takes.pure _).congr (iff_of_true trivial rfl)
  | .function ⟨name, params, vararg, body, pos⟩ :: rest =>
    obtain ⟨h, hrest⟩ := Bool.and_eq_true_iff.1 h
    obtain ⟨hsig, hbody⟩ := Bool.and_eq_true_iff.1 h
    have hrest := takes_compileMethods (S := S) ctx className rest hrest hf
    have hb := fun (e : Extent) hyield => takes_compileStmts (S := S) _ body hbody
      (((hf.inMethod name).withExtent e).body
        (signatureOf (if name == "construct" then .constructor else .method)
          (className ++ "." ++ name) params vararg body pos) hyield)
      (Outline.hosts_body _ hsig _ _ _ _)
    have hfun : Takes S around o o _ _ (emitFunction { ctx with method := some name }
        (signatureOf (if name == "construct" then .constructor else .method)
          (className ++ "." ++ name) params vararg body pos) fun ctx => compileStmts ctx body) :=
      (hf.inMethod name).emitFunction _ rfl rfl hsig hb
    rw [Method.allExtent, append_assoc, append_assoc]
    exact hfun.and fun _ => .after (.addName _ pos) fun _ => .after (.emit _ _) fun _ => hrest
  | .native decl :: rest =>
    have hrest := takes_compileMethods (S := S) ctx className rest h hf
    rw [Method.allExtent, append_assoc]
    exact (Takes.nativeConstant decl).and fun _ => .after (.emit _ _) fun _ => hrest

end

/-! ## Programs -/

/-- The beginning of a script. -/
def Outline.script : Outline := ⟨[("", some 0)], 0, [], .nothing⟩

/-- What surrounds the top-level code of a program. -/
theorem suits_script : Suits True [] .script topLevel (.script true) .script where
  scoping := rfl
  kind := rfl
  yielding := rfl
  method := rfl
  sight name hname := by
    have hne : (name == "") = false := by
      refine beq_eq_false_iff_ne.2 ?_
      rintro rfl
      exact Bool.false_ne_true hname
    change ((List.lookup name [("", some 0)]).map Option.isSome) = _
    rw [List.lookup_cons, hne]
    rfl
  special name _ := by
    change List.lookup name [("", some 0)] ≠ _
    rw [List.lookup_cons]
    split <;> nofun
  locals := rfl
  outer := rfl
  generator := rfl
  inside := rfl
  loop := rfl
  settled l hl := ⟨0, Nat.le_refl 0, by rw [List.mem_singleton.1 hl]⟩
  guards := .all nofun
  frame := nofun

/-- The top level declares globals. -/
theorem hosts_script : Outline.script.Hosts (.script true) .script where
  top := rfl
  place := rfl
  scope h := absurd rfl h
  bare _ := rfl

/-- The top-level code of a program asks for what makes the program valid, and takes up its extent. -/
theorem checks_program {program : Program} (hl : program.lexical = true) :
    Checks True [] .script (Outline.script.withExtent program.extent) (program.valid true = true) (do
      compileStmts topLevel program.body
      emit .null (lastLine program.body 1)
      emit .return (lastLine program.body 1)) := by
  have hbody := takes_compileStmts topLevel program.body hl suits_script hosts_script
  have hall := hbody.before fun _ => .after (.emit .null (lastLine program.body 1)) fun _ =>
    .emit .return (lastLine program.body 1)
  refine (hall nothing).as ?_ (by rfl)
  simp [Program.extent, lastLine_eq, ops_add _ 1 1]

/-- A script begins with an outline. -/
theorem outlined_script : CompilerState.Outlined [] .script ⟨.start "", []⟩ := by
  refine ⟨⟨rfl, rfl, .nil, rfl, nofun, ⟨List.nodup_nil, List.nil_subset _, rfl⟩, fun _ => ?_⟩,
    ⟨List.nodup_nil, Nat.zero_le _, nofun⟩, rfl⟩
  exact ⟨rfl, trails_empty⟩

/-- Only valid programs are compiled. -/
theorem valid_of_compile {program : Program} {m : Module} (hl : program.lexical = true)
    (h : compile program = .ok m) : program.valid true = true := by
  simp only [compile] at h
  split at h
  · cases h
  · next u s hrun => exact ((checks_program hl).keeps outlined_script hrun).2

/-- A program that fits keeps the limits. -/
theorem Program.within {program : Program} (hfits : program.fits = true) :
    Within [] (Outline.script.withExtent program.extent) := ⟨hfits, nofun⟩

/-- A valid program that fits is compiled. -/
theorem compile_of_valid {program : Program} (hl : program.lexical = true)
    (hfits : program.fits = true) (hv : program.valid true = true) :
    ∃ m, compile program = .ok m := by
  have hwithin := Program.within hfits
  simp only [compile]
  split
  · next d hrun =>
    exact absurd hwithin ((checks_program hl).stops outlined_script hrun trivial hv)
  · next u s hrun =>
    have hshows := ((checks_program hl).keeps outlined_script hrun).1.shows
    have hlines := (Extent.within_iff.1 hwithin.fits.1).2.2.2
    rw [if_neg (by simp [(hshows.lines hlines).1])]
    exact ⟨_, rfl⟩

/-- A lexical program that stays within the limits is compiled exactly if it is valid. -/
theorem compiles_iff_valid {program : Program} (hl : program.lexical = true)
    (hfits : program.fits = true) :
    (∃ m, compile program = .ok m) ↔ program.valid true = true :=
  ⟨fun ⟨_, hm⟩ => valid_of_compile hl hm, compile_of_valid hl hfits⟩

/-- A class whose constructor leaves a loop through a `try` statement, and a method that yields and
gives a function that calls the superclass. -/
def abidingProgram : Program where
  file := ""
  body := [.classDef ⟨1, 1⟩ "A" (some (.ident ⟨1, 1⟩ "B"))
    [.function ⟨"construct", [⟨"x", none, []⟩, ⟨"y", some (.null ⟨2, 1⟩), []⟩], none,
      [.whileLoop ⟨3, 1⟩ (.ident ⟨3, 1⟩ "x")
        (.guarded ⟨3, 1⟩ (.block ⟨3, 1⟩ [.breakLoop ⟨3, 1⟩]) []
          (some (.block ⟨4, 1⟩ [.expression ⟨4, 1⟩
            (.assign ⟨4, 1⟩ (.ident ⟨4, 1⟩ "x") (.ident ⟨4, 1⟩ "y"))]))),
        .returnValue ⟨5, 1⟩ none], ⟨2, 1⟩⟩,
    .function ⟨"each", [], some "rest",
      [.expression ⟨7, 1⟩ (.yield ⟨7, 1⟩
        (some (.list ⟨7, 1⟩ [.spread ⟨7, 1⟩ (.ident ⟨7, 1⟩ "rest"), .receiver ⟨7, 1⟩]))),
      .returnValue ⟨8, 1⟩ (some (.function ⟨8, 1⟩ ⟨"", [], none,
        [.returnValue ⟨8, 1⟩ (some (.superCall ⟨8, 1⟩ none []))], ⟨8, 1⟩⟩))], ⟨6, 1⟩⟩]]

theorem compiles_abidingProgram : abidingProgram.lexical = true ∧ abidingProgram.fits = true ∧
    ((∃ m, compile abidingProgram = .ok m) ↔ abidingProgram.valid true = true) := by
  have hl : abidingProgram.lexical = true := by decide
  have hfits : abidingProgram.fits = true := by decide
  exact ⟨hl, hfits, compiles_iff_valid hl hfits⟩

/-- A loop ends at the functions in it. -/
example : Program.valid true ⟨"", [.whileLoop ⟨1, 1⟩ (.null ⟨1, 1⟩) (.block ⟨1, 1⟩
    [.function ⟨2, 1⟩ ⟨"f", [], none, [.breakLoop ⟨2, 1⟩], ⟨2, 1⟩⟩])]⟩ = false := rfl

end ScriptEngine.Compile
