import ScriptEngine.Proofs.Coding

/-!
# Variables

A name is resolved while code is generated, against the names of the scopes, and means a variable
when a program runs, in scopes of the same names. The slot it is resolved to is the place on the
stack of the variable it means, so that the code for a variable reads and writes that variable.
-/

namespace ScriptEngine.Reference

open Source

/-- Overwriting a name in two lists changes the first that has it. -/
theorem Env.overwrite_append (name : String) (d : Datum) (xs ys : List (String × Datum)) :
    overwrite name d (xs ++ ys) =
      if (xs.lookup name).isSome then overwrite name d xs ++ ys
      else xs ++ overwrite name d ys := by
  induction xs with
  | nil => rfl
  | cons x xs ih =>
    obtain ⟨y, v⟩ := x
    by_cases h : y = name
    · simp [overwrite, h]
    · have h' : (name == y) = false := by simpa using fun heq => h heq.symm
      simp only [List.cons_append, overwrite, if_neg h, ih, List.lookup_cons, h']
      split <;> rfl

/-- Overwriting a name in nested scopes changes what the list of all variables would. -/
theorem Env.flatten_overwriteInnermost (name : String) (d : Datum)
    (scopes : List (List (String × Datum))) :
    (overwriteInnermost name d scopes).flatten = overwrite name d scopes.flatten := by
  induction scopes with
  | nil => rfl
  | cons scope rest ih =>
    rw [overwriteInnermost, List.flatten_cons, overwrite_append]
    split
    · rfl
    · rw [List.flatten_cons, ih]

/-- Overwriting keeps the names. -/
theorem Env.fst_overwrite (name : String) (d : Datum) (xs : List (String × Datum)) :
    (overwrite name d xs).map Prod.fst = xs.map Prod.fst := by
  induction xs with
  | nil => rfl
  | cons x xs ih =>
    rw [overwrite]
    split
    · rfl
    · rw [List.map_cons, List.map_cons, ih]

/-- Overwriting keeps the names of each scope. -/
theorem Env.shape_overwriteInnermost (name : String) (d : Datum)
    (scopes : List (List (String × Datum))) :
    (overwriteInnermost name d scopes).map (·.map Prod.fst) = scopes.map (·.map Prod.fst) := by
  induction scopes with
  | nil => rfl
  | cons scope rest ih =>
    rw [overwriteInnermost]
    split
    · simp only [List.map_cons, fst_overwrite]
    · simp only [List.map_cons, ih]

end ScriptEngine.Reference

namespace ScriptEngine.Compile

open Bytecode Source Reference

/-! ## Slots -/

/-- Locals made for the scopes of an environment are defined and not captured. -/
theorem localsOf_usable {shape : List (List String)} {l : Local} (h : l ∈ localsOf shape) :
    l.depth.isNone = false ∧ l.captured = false := by
  induction shape with
  | nil =>
    obtain rfl := List.mem_singleton.1 h
    exact ⟨rfl, rfl⟩
  | cons scope rest ih =>
    rcases List.mem_append.1 h with h | h
    · obtain ⟨x, -, rfl⟩ := List.mem_map.1 h
      exact ⟨rfl, rfl⟩
    · exact ih h

/-- The locals made for an environment have the names of its variables, with the callee below
them. -/
theorem localsOf_names (env : Env) :
    (localsOf env.shape).map Local.name = env.locals.map Prod.fst ++ [""] := by
  obtain ⟨scopes, globals⟩ := env
  induction scopes with
  | nil => rfl
  | cons scope rest ih =>
    change (_ ++ localsOf _).map Local.name = (scope ++ rest.flatten).map Prod.fst ++ [""]
    rw [List.map_append, List.map_append, List.append_assoc, List.map_map]
    exact congrArg₂ _ (by rw [List.map_map]; rfl) ih

/-- There is a local for each variable of an environment, and one for the callee. -/
theorem length_localsOf (env : Env) : (localsOf env.shape).length = env.values.length + 1 := by
  have h := congrArg List.length (localsOf_names env)
  simpa [Env.values] using h

/-- A pending local cannot be found by its name. -/
theorem findLocal_pending {name : String} {pending : List String} {ls : List Local} {slot : Nat}
    {l : Local} (h : findLocal name (pending.map pendingLocal ++ ls) = some (slot, l)) :
    l.depth.isNone = true ∨ findLocal name ls = some (slot, l) := by
  induction pending with
  | nil => exact .inr h
  | cons x xs ih =>
    rw [List.map_cons, List.cons_append, findLocal] at h
    split at h
    · cases h
      exact .inl rfl
    · exact ih h

/-- A name not found behind locals that await definition is not found before them either. -/
theorem findLocal_pending_none {name : String} {pending : List String} {ls : List Local}
    (h : findLocal name (pending.map pendingLocal ++ ls) = none) : findLocal name ls = none := by
  induction pending with
  | nil => exact h
  | cons x xs ih =>
    rw [List.map_cons, List.cons_append, findLocal] at h
    split at h
    · cases h
    · exact ih h

/-- A name that is found in a slot means the variable at that place of the stack. -/
theorem findLocal_lookup {name : String} (hname : name ≠ "") {vars : List (String × Datum)}
    {ls : List Local} (hls : ls.map Local.name = vars.map Prod.fst ++ [""]) {slot : Nat} {l : Local}
    (h : findLocal name ls = some (slot, l)) :
    ∃ i d, slot + i = vars.length ∧ (vars.map Prod.snd)[i]? = some d ∧
      vars.lookup name = some d ∧
      ∀ e, (Env.overwrite name e vars).map Prod.snd = (vars.map Prod.snd).set i e := by
  induction vars generalizing ls with
  | nil =>
    obtain ⟨l₀, rfl, hl₀⟩ : ∃ l₀, ls = [l₀] ∧ l₀.name = "" := by
      obtain _ | ⟨l₀, ls⟩ := ls
      · cases hls
      · obtain ⟨h₁, h₂⟩ := List.cons.inj hls
        exact ⟨l₀, by rw [List.map_eq_nil_iff.1 h₂], h₁⟩
    rw [findLocal, hl₀, if_neg (by simpa using hname.symm)] at h
    cases h
  | cons x vars ih =>
    obtain ⟨y, v⟩ := x
    obtain _ | ⟨l', ls⟩ := ls
    · cases hls
    obtain ⟨hy, hrest⟩ := List.cons.inj hls
    have hlen : ls.length = vars.length + 1 := by
      have := congrArg List.length hrest
      simpa using this
    rw [findLocal] at h
    by_cases hn : y = name
    · rw [if_pos (by simp [hy, hn])] at h
      cases h
      refine ⟨0, v, ?_, rfl, by simp [hn], ?_⟩
      · rw [hlen, List.length_cons]
      · intro e
        rw [Env.overwrite, if_pos hn]
        rfl
    · have hne : (l'.name == name) = false := by simpa [hy] using hn
      have hne' : (name == y) = false := by simpa using fun heq => hn heq.symm
      rw [if_neg (by simp [hne])] at h
      obtain ⟨i, d, hi, hd, hlook, hset⟩ := ih hrest h
      refine ⟨i + 1, d, ?_, hd, ?_, ?_⟩
      · rw [List.length_cons]
        omega
      · rw [List.lookup_cons, hne']
        exact hlook
      · intro e
        rw [Env.overwrite, if_neg hn, List.map_cons, hset e]
        rfl

/-- A name that is not found means no local variable. -/
theorem findLocal_none {name : String} {vars : List (String × Datum)} {ls : List Local}
    (hls : ls.map Local.name = vars.map Prod.fst ++ [""]) (h : findLocal name ls = none) :
    vars.lookup name = none := by
  induction vars generalizing ls with
  | nil => rfl
  | cons x vars ih =>
    obtain ⟨y, v⟩ := x
    obtain _ | ⟨l', ls⟩ := ls
    · cases hls
    obtain ⟨hy, hrest⟩ := List.cons.inj hls
    rw [findLocal] at h
    split at h
    · cases h
    · next hne =>
      have hne' : (name == y) = false := by
        have hl : l'.name = y := hy
        simp only [hl, beq_iff_eq] at hne
        simpa using fun heq => hne heq.symm
      rw [List.lookup_cons, hne']
      exact ih hrest h

/-- What a name is resolved to. -/
theorem ran_resolve_alone {s s' : CompilerState} {name : String} {pos : Position} {a : Access}
    (halone : s.enclosing = []) (hr : Ran (resolve name pos) s a s') :
    s' = s ∧
      ((∃ slot l, findLocal name s.current.locals = some (slot, l) ∧ l.depth.isNone = false ∧
        a = .slot (UInt16.ofNat slot)) ∨
      findLocal name s.current.locals = none ∧ a = .global) := by
  simp only [resolve, ran_bind, ran_get, ran_lift] at hr
  obtain ⟨_, t, ⟨rfl, rfl⟩, slot?, _, ⟨hlocal, rfl⟩, hr⟩ := hr
  unfold FunctionState.resolveLocal at hlocal
  split at hlocal
  · next hnone =>
    cases hlocal
    simp only [ran_bind, ran_lift, ran_set] at hr
    obtain ⟨⟨found, f, fs⟩, _, ⟨hup, rfl⟩, _, _, rfl, hr⟩ := hr
    rw [halone, resolveUpvalue] at hup
    cases hup
    obtain ⟨rfl, rfl⟩ := ran_pure.1 hr
    refine ⟨?_, .inr ⟨hnone, rfl⟩⟩
    rw [← halone]
  · next slot l hfound =>
    split at hlocal
    · cases hlocal
    · next hdepth =>
      cases hlocal
      obtain ⟨rfl, rfl⟩ := ran_pure.1 hr
      exact ⟨rfl, .inl ⟨slot, l, hfound, Bool.eq_false_iff.2 hdepth, rfl⟩⟩

section Access

variable {pending : List String} {sh : List (List String)} {s s' : CompilerState}

/-- A name that is resolved to a slot means the local variable in that slot. -/
theorem AtScopes.slot (h : AtScopes pending sh s) {name : String} (hname : name ≠ "") {slot : Nat}
    {l : Local} (hfound : findLocal name s.current.locals = some (slot, l))
    (hdepth : l.depth.isNone = false) {env : Env} (hshape : env.shape = sh) :
    (UInt16.ofNat slot).toNat = slot ∧ 1 ≤ slot ∧ ∃ i d, slot + i = env.values.length ∧
      env.values[i]? = some d ∧ env.locals.lookup name = some d ∧
      ∀ e, (Env.overwrite name e env.locals).map Prod.snd = env.values.set i e := by
  have hlt : slot < s.current.locals.length := findLocal_lt_length hfound
  have hmod : (UInt16.ofNat slot).toNat = slot := toNat_word (Nat.lt_of_lt_of_le hlt h.slots)
  rw [h.locals] at hfound
  rcases findLocal_pending hfound with hnone | hfound
  · rw [hnone] at hdepth
    cases hdepth
  · subst hshape
    obtain ⟨i, d, hi, hd, hlook, hset⟩ := findLocal_lookup hname (localsOf_names env) hfound
    have hi' : slot + i = env.values.length := by rw [hi, Env.values, List.length_map]
    have hlen : i < env.values.length := (List.getElem?_eq_some_iff.1 hd).1
    exact ⟨hmod, by omega, i, d, hi', hd, hlook, hset⟩

/-- A name that is no local of the compiler is no variable of the environment. -/
theorem AtScopes.global (h : AtScopes pending sh s) {name : String}
    (hnone : findLocal name s.current.locals = none) {env : Env} (hshape : env.shape = sh) :
    env.locals.lookup name = none := by
  rw [h.locals] at hnone
  subst hshape
  exact findLocal_none (localsOf_names env) (findLocal_pending_none hnone)

end Access

/-- The place of a slot on the stack. -/
theorem position?_place {env : Env} {pc slot i : Nat} {above : List Datum} (h1 : 1 ≤ slot)
    (h : slot + i = env.values.length) :
    (env.place pc above).position? slot = some (above.length + i) := by
  have hlen : (env.place pc above).stack.length = above.length + env.values.length :=
    List.length_append
  unfold Config.position?
  rw [if_pos ⟨h1, by omega⟩, hlen]
  exact congrArg some (by omega)

section Code

variable {outer sh : List (List String)} {pending : List String}

/-- An instruction that refuses follows the exception of the reference semantics, at the same
position. -/
theorem Follows.raise {c : Chunk} {fuel m : Nat} {x : Exits} {k : Config} {op : Op}
    {shape : List (List String)} {β : Type} {done : β → Env → Config} {reason : Refusal}
    {pos : Position} {env : Env} (hop : c.code[k.pc]? = some op)
    (hp : perform c k op = .refuse reason)
    (hline : c.lineAt? k.pc = some (UInt32.ofNat pos.line).toNat) (hg : k.globals = env.globals) :
    Follows c fuel x m k shape done (.error (.raised reason pos), env) := by
  refine ⟨k, .refl _ _, ?_, hline, hg⟩
  unfold advance
  rw [hop]
  exact hp

/-- The empty string is no name a script may declare. -/
theorem ne_empty_of_isOwnName {name : String} (h : isOwnName name = true) : name ≠ "" := by
  simp only [isOwnName, Bool.and_eq_true, bne_iff_ne] at h
  exact h.1

/-- An index to the constant of a declared name gives that name. -/
theorem ownName?_eq {c : Chunk} {i : UInt16} {name : String}
    (hpool : c.constants[i.toNat]? = some (.string name)) (hname : isOwnName name = true) :
    ownName? c i = some name := by
  unfold ownName? Chunk.string?
  rw [hpool]
  exact Option.filter_eq_some_iff.2 ⟨rfl, hname⟩

/-- The code that pushes a variable reads the variable its name means. -/
theorem codes_getVariable {name : String} (hname : isOwnName name = true) (pos : Position)
    (above : List Datum) :
    Codes outer pending sh sh above (getVariable name pos) (fun _ => Script.read name pos)
      (fun d => d :: above) := by
  intro s s' hs hr
  obtain ⟨a, t, hres, hr⟩ := ran_bind.1 hr
  obtain ⟨rfl, ⟨slot, l, hfound, hdepth, rfl⟩ | ⟨hnone, rfl⟩⟩ := ran_resolve_alone hs.alone hres
  · refine codes_emit above (fun c fuel x env pc hop _ hshape => ?_) hs hr
    obtain ⟨hmod, h1, i, d, hi, hd, hlook, -⟩ :=
      hs.slot (ne_empty_of_isOwnName hname) hfound hdepth hshape
    have hread : Script.read name pos env = (.ok d, env) := by
      unfold Script.read Env.find?
      rw [hlook]
      rfl
    rw [hread]
    refine ⟨hshape, (arrives_one (k := env.place pc above) hop ?_).weaken (Nat.zero_le _)⟩
    have hget : (env.place pc above).stack[above.length + i]? = some d := by
      change (above ++ env.values)[above.length + i]? = some d
      rw [List.getElem?_append_right (Nat.le_add_right _ _), Nat.add_sub_cancel_left]
      exact hd
    unfold perform
    simp only [hmod, position?_place h1 hi, Option.bind_some, hget]
    rfl
  · refine codes_pooled .getGlobal (.string name) above
      (fun c fuel x env pc i hop hpool hline hshape => ?_) hs hr
    have hlook := hs.global hnone hshape
    have hstr : ownName? c i = some name := ownName?_eq hpool hname
    unfold Script.read Env.find?
    rw [hlook]
    cases hd : env.globals name with
    | some d =>
      refine ⟨hshape, (arrives_one (k := env.place pc above) hop ?_).weaken (Nat.zero_le _)⟩
      have hd' : (env.place pc above).globals name = some d := hd
      unfold perform
      simp only [hstr, hd']
      rfl
    | none =>
      have hd' : (env.place pc above).globals name = none := hd
      refine Follows.raise (k := env.place pc above) hop ?_ hline rfl
      unfold perform
      simp only [hstr, hd']

/-- The code that assigns the value on top of the stack assigns the variable its name means. -/
theorem codes_setVariable {name : String} (hname : isOwnName name = true) (pos : Position) (d : Datum)
    (above : List Datum) :
    Codes outer pending sh sh (d :: above) (setVariable name pos)
      (fun _ => Script.write name pos d) (fun _ => d :: above) := by
  intro s s' hs hr
  obtain ⟨a, t, hres, hr⟩ := ran_bind.1 hr
  obtain ⟨rfl, ⟨slot, l, hfound, hdepth, rfl⟩ | ⟨hnone, rfl⟩⟩ := ran_resolve_alone hs.alone hres
  · refine codes_emit (d :: above) (fun c fuel x env pc hop _ hshape => ?_) hs hr
    obtain ⟨hmod, h1, i, e, hi, -, hlook, hset⟩ :=
      hs.slot (ne_empty_of_isOwnName hname) hfound hdepth hshape
    have hwrite : Script.write name pos d env =
        (.ok (), { env with scopes := Env.overwriteInnermost name d env.scopes }) := by
      unfold Script.write Env.assign?
      rw [if_pos (by rw [hlook]; rfl)]
    rw [hwrite]
    refine ⟨(Env.shape_overwriteInnermost name d env.scopes).trans hshape, ?_⟩
    refine (arrives_one (k := env.place pc (d :: above)) hop ?_).weaken (Nat.zero_le _)
    have hvalues : ({ env with scopes := Env.overwriteInnermost name d env.scopes } : Env).values =
        env.values.set i d := by
      unfold Env.values Env.locals
      rw [Env.flatten_overwriteInnermost]
      exact hset d
    have hstack : (env.place pc (d :: above)).stack = d :: above ++ env.values := rfl
    unfold perform
    simp only [hmod, position?_place h1 hi, hstack, List.cons_append]
    rw [← List.cons_append, List.set_append_right _ _ (Nat.le_add_right _ _),
      Nat.add_sub_cancel_left, ← hvalues]
    rfl
  · refine codes_pooled .setGlobal (.string name) (d :: above)
      (fun c fuel x env pc i hop hpool hline hshape => ?_) hs hr
    have hlook := hs.global hnone hshape
    have hstr : ownName? c i = some name := ownName?_eq hpool hname
    have hstack : (env.place pc (d :: above)).stack = d :: (above ++ env.values) := rfl
    unfold Script.write Env.assign?
    rw [hlook, if_neg (by simp)]
    by_cases hd : (env.globals name).isSome
    · have hd' : ((env.place pc (d :: above)).globals name).isSome := hd
      rw [if_pos hd]
      refine ⟨hshape, (arrives_one (k := env.place pc (d :: above)) hop ?_).weaken (Nat.zero_le _)⟩
      unfold perform
      simp only [hstr, hstack, hd', if_true]
      rfl
    · have hd' : ¬ ((env.place pc (d :: above)).globals name).isSome := hd
      rw [if_neg hd]
      refine Follows.raise (k := env.place pc (d :: above)) hop ?_ hline rfl
      unfold perform
      simp only [hstr, hstack, if_neg hd']

end Code

end ScriptEngine.Compile
