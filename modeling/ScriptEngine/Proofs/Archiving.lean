import ScriptEngine.Proofs.Storing

/-!
# Stored modules are read back

Storing a module and loading the octets gives the module again exactly if it checks, nests below the
reader's limit and has no text or list that is too long for a length field. Hence no two such modules
are stored alike. A module that was loaded checks and has lengths that fit, so it is read back after
it is stored again, unless its nesting grew: a reader takes an empty list written as raw octets for
no level of nesting, while storing writes it as an array. A module at the limit shows the difference.
-/

namespace ScriptEngine.Bytecode

open Packed

/-! ## Lengths in what was read -/

section

variable {α β : Type}

/-- What a list is mapped to is as long, and each part of it comes from one of the list's. -/
theorem of_mapM {f : α → Option β} {xs : List α} {ys : List β} (h : xs.mapM f = some ys) :
    ys.length = xs.length ∧ ∀ y ∈ ys, ∃ x ∈ xs, f x = some y := by
  induction xs generalizing ys with
  | nil =>
    cases h
    simp
  | cons x xs ih =>
    simp only [List.mapM_cons, Option.bind_eq_bind, Option.bind_eq_some_iff] at h
    obtain ⟨y, first, rest, others, eq⟩ := h
    cases eq
    obtain ⟨length, parts⟩ := ih others
    refine ⟨congrArg (· + 1) length, List.forall_mem_cons.2 ⟨⟨x, by simp, first⟩, ?_⟩⟩
    intro y mem
    obtain ⟨x, mem, eq⟩ := parts y mem
    exact ⟨x, by simp [mem], eq⟩

/-- What is read from a value whose lengths fit is written with lengths that fit. -/
def KeepsSized (unpack : Packed → Option α) (pack : α → Packed) : Prop :=
  ∀ p x, unpack p = some x → Sized p → Sized (pack x)

variable {n : Nat} {p : Packed} {items : List Packed} {unpack : Packed → Option α}
  {pack : α → Packed}

/-- Lists that were read have lengths that fit, and so do their items. -/
theorem sized_of_unpackList? (h : unpackList? n p = some items) (sized : Sized p) :
    items.length < 2 ^ 32 ∧ ∀ q ∈ items, Sized q := by
  unfold unpackList? at h
  split at h
  · split at h
    · cases h
      exact ⟨sized.1, sizedItems_iff.1 sized.2⟩
    · cases h
  · cases h
    simp
  · cases h

/-- A list of things that keep their lengths keeps its own. -/
theorem KeepsSized.list (h : KeepsSized unpack pack) {xs : List α}
    (list : unpackList? n p = some items) (read : items.mapM unpack = some xs) (sized : Sized p) :
    Sized (.array (xs.map pack)) := by
  obtain ⟨short, parts⟩ := sized_of_unpackList? list sized
  obtain ⟨length, origin⟩ := of_mapM read
  refine ⟨by rwa [List.length_map, length], sizedItems_iff.2 fun q mem => ?_⟩
  obtain ⟨x, inside, rfl⟩ := List.mem_map.1 mem
  obtain ⟨part, given, eq⟩ := origin x inside
  exact h part x eq (parts part given)

/-- The entries of a map have lengths that fit exactly if keys and values do. -/
theorem sizedEntries_iff {entries : List (Packed × Packed)} :
    SizedEntries entries ↔ ∀ e ∈ entries, Sized e.1 ∧ Sized e.2 := by
  induction entries with
  | nil => simp [SizedEntries]
  | cons e rest ih =>
    obtain ⟨k, v⟩ := e
    simp [SizedEntries, ih, and_assoc]

/-- So do the fields that were read from a map. -/
theorem sized_of_fieldsOfMap? {names : List String} {entries : List (Packed × Packed)}
    (h : fieldsOfMap? names n entries = some items) (sized : SizedEntries entries) :
    ∀ q ∈ items, Sized q := by
  simp only [fieldsOfMap?, Option.bind_eq_bind, Option.bind_eq_some_iff] at h
  obtain ⟨keyed, keys, -, -, values⟩ := h
  have known : ∀ e ∈ keyed, Sized e.2 := by
    intro e mem
    obtain ⟨⟨k, v⟩, given, eq⟩ := (of_mapM keys).2 e mem
    obtain ⟨i, -, rfl⟩ := Option.map_eq_some_iff.1 eq
    exact (sizedEntries_iff.1 sized _ given).2
  intro q mem
  obtain ⟨i, -, found⟩ := (of_mapM values).2 q mem
  split at found
  · next key v only =>
    cases found
    exact known (key, q) (List.mem_filter.1 (only ▸ List.mem_singleton_self _)).1
  · cases found

/-- The fields of a value whose lengths fit have lengths that fit. -/
theorem sized_of_fields? {names : List String} (h : fields? names n p = some items)
    (sized : Sized p) : ∀ q ∈ items, Sized q := by
  unfold fields? at h
  split at h
  · split at h
    · cases h
      exact sizedItems_iff.1 sized.2
    · cases h
  · split at h
    · exact sized_of_fieldsOfMap? h sized.2
    · cases h
  · unfold firstOctets? at h
    split at h
    · cases h
      intro q mem
      obtain ⟨o, -, rfl⟩ := List.mem_map.1 mem
      trivial
    · cases h
  · cases h

/-- A text that was read. -/
theorem keepsSized_string : KeepsSized unpackString? packString := by
  intro p s h sized
  unfold unpackString? at h
  split at h
  · next o =>
    obtain rfl := fromUTF8?_eq_some.1 h
    exact sized
  · next o =>
    obtain rfl := fromUTF8?_eq_some.1 h
    exact sized
  · cases h

end

/-! ## Instructions -/

/-- The captures an instruction makes. -/
def Op.captures : Op → List Capture
  | .closure _ cs => cs
  | _ => []

/-- Whether the only captures of the instructions of a form are those it is given. -/
def OpForm.Captures : OpForm → Prop
  | .plain op => op.captures = []
  | .byte make => ∀ n, (make n).captures = []
  | .word make => ∀ n, (make n).captures = []
  | .byteWord make => ∀ a b, (make a b).captures = []
  | .wordWord make => ∀ a b, (make a b).captures = []
  | .closure make => ∀ a cs, (make a cs).captures = cs

/-- No form of an instruction but those with captures has captures. -/
theorem captures_opForms : ∀ entry ∈ opForms, entry.2.Captures := by
  simp only [opForms, List.forall_mem_cons, List.not_mem_nil, false_implies, implies_true, and_true,
    OpForm.Captures, Op.captures]

/-- The names of instructions are short. -/
theorem size_opForms : ∀ entry ∈ opForms, entry.1.utf8ByteSize < 2 ^ 32 := by decide

/-- Captures among the operands of an instruction are its own. -/
theorem captures_named (op : Op) {cs : List Capture} (h : .captures cs ∈ op.named.2) :
    cs = op.captures := by
  cases op <;> simp_all [Op.named, Op.captures]

/-- A form that was found is in the table. -/
theorem mem_opForms {name : String} {form : OpForm} (h : opForm? name = some form) :
    (name, form) ∈ opForms := by
  obtain ⟨before, after, eq, -⟩ := List.lookup_eq_some_iff.1 h
  simp [eq]

/-- A capture has no lengths that could fail to fit. -/
theorem sized_packCapture (c : Capture) : Sized (packCapture c) := by
  simp [packCapture, Sized, SizedItems]

/-- A capture that was read. -/
theorem keepsSized_capture (n : Nat) : KeepsSized (unpackCapture? n) packCapture :=
  fun _ c _ _ => sized_packCapture c

/-- A text has as many octets as its size says. -/
theorem length_toUTF8 (s : String) : s.toUTF8.toList.length = s.utf8ByteSize := by
  simp

/-- A short text. -/
theorem sized_packString {s : String} (h : s.utf8ByteSize < 2 ^ 32) : Sized (packString s) := by
  rwa [packString, Sized, length_toUTF8]

/-- A choice with a short name. -/
theorem sized_packChoice {name : String} {payload : Packed} (h : Sized (packString name))
    (sized : Sized payload) : Sized (packChoice name payload) :=
  ⟨by simp, h, sized, trivial⟩

/-- The lengths of an instruction fit if that of its captures does. -/
theorem sized_packOp {op : Op} (h : Sized (.array (op.captures.map packCapture))) :
    Sized (packOp op) := by
  obtain ⟨form, found, -⟩ := make?_named op
  have name := sized_packString (size_opForms _ (mem_opForms found))
  have operand : ∀ o ∈ op.named.2, Sized (packOperand o) := by
    intro o mem
    cases o with
    | byte n => trivial
    | word n => trivial
    | captures cs => exact captures_named op mem ▸ h
  have few : op.named.2.length < 2 ^ 32 := by
    cases op <;> simp [Op.named]
  rw [packOp_eq]
  unfold packNamed
  split
  · exact name
  · next o eq => exact sized_packChoice name (operand o (by simp [eq]))
  · next a b rest eq =>
    rw [← eq]
    refine sized_packChoice name ⟨by simpa using few, sizedItems_iff.2 fun p mem => ?_⟩
    obtain ⟨o, inside, rfl⟩ := List.mem_map.1 mem
    exact operand o inside

/-- The second component of a pair that was read. -/
theorem sized_of_pair? {n : Nat} {p a b : Packed} (h : pair? n p = some (a, b)) (sized : Sized p) :
    Sized b := by
  unfold pair? at h
  split at h
  · split at h
    · cases h
      exact sized.2.2.1
    · cases h
  · cases h
    trivial
  · cases h

/-- The captures of an instruction that was read are as many as a list may have. -/
theorem sized_captures {form : OpForm} {n : Nat} {payload : Option Packed} {op : Op}
    (form_captures : form.Captures) (h : form.unpack? n payload = some op)
    (sized : ∀ p ∈ payload, Sized p) : Sized (.array (op.captures.map packCapture)) := by
  have none {op : Op} (nothing : op.captures = []) :
      Sized (.array (op.captures.map packCapture)) := by
    simp [nothing, Sized, SizedItems]
  unfold OpForm.unpack? at h
  split at h
  · cases h
    exact none form_captures
  · cases h
    exact none form_captures
  · obtain ⟨k, -, rfl⟩ := Option.map_eq_some_iff.1 h
    exact none (form_captures _)
  · obtain ⟨k, -, rfl⟩ := Option.map_eq_some_iff.1 h
    exact none (form_captures _)
  · simp only [Option.bind_eq_bind, Option.bind_eq_some_iff] at h
    obtain ⟨_, -, _, -, _, -, eq⟩ := h
    cases eq
    exact none (form_captures _ _)
  · simp only [Option.bind_eq_bind, Option.bind_eq_some_iff] at h
    obtain ⟨_, -, _, -, _, -, eq⟩ := h
    cases eq
    exact none (form_captures _ _)
  · simp only [Option.bind_eq_bind, Option.bind_eq_some_iff] at h
    obtain ⟨⟨a, b⟩, pair, items, list, captures, read, _, -, eq⟩ := h
    cases eq
    rw [form_captures]
    exact (keepsSized_capture _).list list read (sized_of_pair? pair (sized _ rfl))
  · cases h

/-- What a choice that was read carries. -/
theorem sized_of_choice? {names : List String} {p : Packed} {choice : String × Option Packed}
    (h : choice? names p = some choice) (sized : Sized p) : ∀ q ∈ choice.2, Sized q := by
  unfold choice? at h
  split at h
  · obtain ⟨_, -, eq⟩ := Option.map_eq_some_iff.1 h
    cases eq
    rintro q ⟨⟩
    exact sized.2.2.1
  · cases h
  · obtain ⟨_, -, eq⟩ := Option.map_eq_some_iff.1 h
    cases eq
    simp

/-- An instruction that was read. -/
theorem keepsSized_op (n : Nat) : KeepsSized (unpackOp? n) packOp := by
  intro p op h sized
  simp only [unpackOp?, Option.bind_eq_bind, Option.bind_eq_some_iff] at h
  obtain ⟨choice, chosen, form, found, read⟩ := h
  exact sized_packOp (sized_captures (captures_opForms _ (mem_opForms found)) read
    (sized_of_choice? chosen sized))

/-! ## Constants and prototypes -/

/-- A run of lines that was read. -/
theorem keepsSized_run (n : Nat) : KeepsSized (unpackRun? n) packRun :=
  fun _ r _ _ => by simp [packRun, Sized, SizedItems]

/-- A table of lines that was read. -/
theorem keepsSized_lines (n : Nat) : KeepsSized (unpackLines? n) packLines := by
  intro p t h sized
  simp only [unpackLines?, Option.bind_eq_bind, Option.bind_eq_some_iff] at h
  obtain ⟨fields, record, h⟩ := h
  split at h
  · next runs =>
    simp only [Option.bind_eq_some_iff] at h
    obtain ⟨items, list, runs, read, eq⟩ := h
    cases eq
    have table := (keepsSized_run _).list list read (sized_of_fields? record sized _ (by simp))
    exact ⟨by simp, table, trivial⟩
  · cases h

section

variable {constant : Nat → Packed → Option Constant} {n : Nat}

/-- Constants that were read. -/
theorem sized_constants (h : ∀ m, KeepsSized (constant m) packConstant) {p : Packed}
    {cs : Array Constant} (read : unpackConstants? constant n p = some cs) (sized : Sized p) :
    Sized (.array (packConstants cs.toList)) := by
  simp only [unpackConstants?, Option.bind_eq_bind, Option.bind_eq_some_iff] at read
  obtain ⟨items, list, cs, read, eq⟩ := read
  cases eq
  rw [packConstants_eq]
  exact (h _).list list read sized

/-- A host function that was read. -/
theorem keepsSized_native (h : ∀ m, KeepsSized (constant m) packConstant) :
    KeepsSized (unpackNative? constant n) packNative := by
  intro p f read sized
  simp only [unpackNative?, Option.bind_eq_bind, Option.bind_eq_some_iff] at read
  obtain ⟨fields, record, read⟩ := read
  have parts := sized_of_fields? record sized
  split at read
  · simp only [Option.bind_eq_some_iff] at read
    obtain ⟨name, text, arity, -, defaults, list, vararg, -, eq⟩ := read
    cases eq
    have text := keepsSized_string _ _ text (parts _ (by simp))
    have list := sized_constants h list (parts _ (by simp))
    rw [packNative_eq]
    exact ⟨by simp, text, trivial, list, trivial, trivial⟩
  · cases read

/-- Code that was read. -/
theorem keepsSized_chunk (h : ∀ m, KeepsSized (constant m) packConstant) :
    KeepsSized (unpackChunk? constant n) packChunk := by
  intro p c read sized
  simp only [unpackChunk?, Option.bind_eq_bind, Option.bind_eq_some_iff] at read
  obtain ⟨fields, record, read⟩ := read
  have parts := sized_of_fields? record sized
  split at read
  · simp only [Option.bind_eq_some_iff] at read
    obtain ⟨items, code, ops, instructions, constants, pool, lines, table, eq⟩ := read
    cases eq
    have code := (keepsSized_op _).list code instructions (parts _ (by simp))
    have pool := sized_constants h pool (parts _ (by simp))
    have table := keepsSized_lines _ _ _ table (parts _ (by simp))
    exact ⟨by simp, code, pool, table, trivial⟩
  · cases read

/-- A prototype that was read. -/
theorem keepsSized_proto (h : ∀ m, KeepsSized (constant m) packConstant) :
    KeepsSized (unpackProto? constant n) packProto := by
  intro p f read sized
  simp only [unpackProto?, Option.bind_eq_bind, Option.bind_eq_some_iff] at read
  obtain ⟨fields, record, read⟩ := read
  have parts := sized_of_fields? record sized
  split at read
  · simp only [Option.bind_eq_some_iff] at read
    obtain ⟨name, text, arity, -, defaults, list, vararg, -, upvalues, -, chunk, body, eq⟩ := read
    cases eq
    have text := keepsSized_string _ _ text (parts _ (by simp))
    have list := sized_constants h list (parts _ (by simp))
    have body := keepsSized_chunk h _ _ body (parts _ (by simp))
    rw [packProto_eq]
    exact ⟨by simp, text, trivial, list, trivial, trivial, body, trivial⟩
  · cases read

end

/-- The names of constants are short. -/
theorem sized_constantName {name : String} (h : name ∈ constantNames) :
    Sized (packString name) := by
  have short : ∀ name ∈ constantNames, name.utf8ByteSize < 2 ^ 32 := by decide
  exact sized_packString (short name h)

/-- A constant that was read. -/
theorem keepsSized_constant (fuel n : Nat) : KeepsSized (unpackConstant? fuel n) packConstant := by
  induction fuel generalizing n with
  | zero =>
    intro p c read
    cases read
  | succ fuel ih =>
    intro p c read sized
    simp only [unpackConstant?, Option.bind_eq_bind, Option.bind_eq_some_iff] at read
    obtain ⟨choice, chosen, read⟩ := read
    have part := sized_of_choice? chosen sized
    split at read
    · obtain ⟨x, -, rfl⟩ := Option.map_eq_some_iff.1 read
      exact sized_packChoice (sized_constantName (by decide)) trivial
    · obtain ⟨s, text, rfl⟩ := Option.map_eq_some_iff.1 read
      exact sized_packChoice (sized_constantName (by decide))
        (keepsSized_string _ _ text (part _ rfl))
    · obtain ⟨b, -, rfl⟩ := Option.map_eq_some_iff.1 read
      exact sized_packChoice (sized_constantName (by decide)) trivial
    · cases read
      exact sized_constantName (by decide)
    · cases read
      exact sized_constantName (by decide)
    · obtain ⟨f, body, rfl⟩ := Option.map_eq_some_iff.1 read
      exact sized_packChoice (sized_constantName (by decide))
        (keepsSized_proto ih _ _ body (part _ rfl))
    · obtain ⟨f, body, rfl⟩ := Option.map_eq_some_iff.1 read
      exact sized_packChoice (sized_constantName (by decide))
        (keepsSized_native ih _ _ body (part _ rfl))
    · cases read

/-- A module that was read. -/
theorem keepsSized_module : KeepsSized unpackModule? packModule := by
  intro p m read sized
  simp only [unpackModule?, Option.bind_eq_bind, Option.bind_eq_some_iff] at read
  obtain ⟨fields, record, read⟩ := read
  have parts := sized_of_fields? record sized
  split at read
  · simp only [Option.bind_eq_some_iff] at read
    obtain ⟨file, text, main, body, eq⟩ := read
    cases eq
    have text := keepsSized_string _ _ text (parts _ (by simp))
    have body := keepsSized_proto (keepsSized_constant _) _ _ body (parts _ (by simp))
    exact ⟨by simp, text, body, trivial⟩
  · cases read

/-! ## Storing and loading -/

/-- What loading comes to: past the header, a value is read, which is a module that checks. -/
theorem load_eq_ok {octets : List UInt8} {m : Module} :
    Module.load octets = .ok m ↔
      ∃ body p rest, octets = signature ++ [formatVersion.1, formatVersion.2] ++ body ∧
        read (2 * maxDepth + 1) body = some (p, rest) ∧ unpackModule? p = some m ∧
        m.main.verify = .ok () := by
  constructor
  · intro h
    unfold Module.load at h
    split at h
    · next major minor body after =>
      split_ifs at h with unsigned version
      · have header : octets.take 4 = signature := by simpa [hasSignature] using unsigned
        obtain ⟨rfl, rfl⟩ := Prod.mk.inj (not_not.1 version)
        split at h
        · cases h
        · next p rest value =>
          split at h
          · cases h
          · next module unpacked =>
            split at h
            · cases h
            · next checked =>
              cases h
              have whole := List.take_append_drop 4 octets
              rw [header, after] at whole
              exact ⟨body, p, rest, whole.symm, value, unpacked, checked⟩
    · cases h
  · rintro ⟨body, p, rest, rfl, value, unpacked, checked⟩
    simp [Module.load, hasSignature, signature, value, unpacked, checked]

/-- The octets of a value behind the header. -/
def storedAs (p : Packed) : List UInt8 :=
  signature ++ [formatVersion.1, formatVersion.2] ++ (write #[] p).toList

/-- Writing to an empty array. -/
theorem toList_write_nil (p : Packed) : (write #[] p).toList = octets p ++ [] := by
  simp [toList_write]

section

variable {p : Packed} {m : Module}

/-- What is stored of a packed value is loaded again, if it can be unpacked to a module that
checks. -/
theorem load_storedAs (simple : Simple p) (sized : Sized p) (high : height p ≤ 2 * maxDepth + 1)
    (unpacked : unpackModule? p = some m) (checked : m.main.verify = .ok ()) :
    Module.load (storedAs p) = .ok m := by
  have value := read_octets p _ [] simple sized high
  rw [← toList_write_nil] at value
  exact load_eq_ok.2 ⟨_, p, [], rfl, value, unpacked, checked⟩

/-- Whatever is loaded from the octets of a value is that value. -/
theorem unpackModule?_of_load (simple : Simple p) (sized : Sized p)
    (h : Module.load (storedAs p) = .ok m) : unpackModule? p = some m := by
  obtain ⟨body, q, rest, eq, value, unpacked, -⟩ := load_eq_ok.1 h
  obtain rfl : (write #[] p).toList = body := List.append_cancel_left eq
  -- with levels to spare the value itself is read, so it is what was read here
  have more := read_mono (Nat.le_max_left _ (height p)) value
  rw [toList_write_nil, read_octets p _ [] simple sized (Nat.le_max_right _ _)] at more
  cases more
  exact unpacked

/-- A module that was loaded checks, and its lengths fit. -/
theorem checked_of_load {octets : List UInt8} (h : Module.load octets = .ok m) :
    m.main.verify = .ok () ∧ Sized (packModule m) := by
  obtain ⟨body, p, rest, -, value, unpacked, checked⟩ := load_eq_ok.1 h
  exact ⟨checked, keepsSized_module p m unpacked (sized_of_read value)⟩

end

/-- A module that can be stored: it checks, nests no deeper than a reader may descend, and has no
length that a length field cannot hold. -/
structure Module.Storable (m : Module) : Prop where
  /-- The main prototype and those nested in it are well formed. -/
  checks : m.main.verify = .ok ()
  /-- Its records and lists nest below the reader's limit. -/
  shallow : (packModule m).nesting ≤ maxDepth
  /-- Its texts and lists are shorter than `2 ^ 32`. -/
  fits : Sized (packModule m)

/-- A module that can be stored is read back. -/
theorem Module.Storable.load_store {m : Module} (h : m.Storable) :
    Module.load m.store = .ok m := by
  have record := record_packModule m
  have high : height (packModule m) ≤ 2 * maxDepth + 1 := by
    have := record.high
    have := h.shallow
    omega
  exact load_storedAs record.simple h.fits high
    ((unpackModule?_packModule m m).2 ⟨h.shallow, rfl⟩) h.checks

/-- Only such modules are. -/
theorem Module.storable_of_load_store {m : Module} (h : Module.load m.store = .ok m) :
    m.Storable := by
  obtain ⟨checks, fits⟩ := checked_of_load h
  have unpacked := unpackModule?_of_load (record_packModule m).simple fits h
  exact ⟨checks, ((unpackModule?_packModule m m).1 unpacked).1, fits⟩

/-- Storing loses nothing: exactly the storable modules are read back from what is stored of them,
so no two of them are stored alike, and a module that was loaded from whatever octets is read back
after it is stored again, provided that it does not nest too deep when its lists are written as
arrays. -/
theorem Module.store_faithful :
    (∀ m : Module, Module.load m.store = .ok m ↔ m.Storable) ∧
    (∀ m m' : Module, m.Storable → m'.Storable → m.store = m'.store → m = m') ∧
    ∀ (octets : List UInt8) (m : Module), Module.load octets = .ok m →
      (Module.load m.store = .ok m ↔ (packModule m).nesting ≤ maxDepth) := by
  refine ⟨fun m => ⟨storable_of_load_store, Storable.load_store⟩, ?_, ?_⟩
  · intro m m' h h' same
    have loaded := h.load_store
    rw [same, h'.load_store] at loaded
    exact (Except.ok.inj loaded).symm
  · intro octets m h
    obtain ⟨checks, fits⟩ := checked_of_load h
    exact ⟨fun loaded => (storable_of_load_store loaded).shallow,
      fun shallow => Storable.load_store ⟨checks, shallow, fits⟩⟩

/-- A module whose main code makes a closure and returns a text that is not ASCII. -/
def closureModule : Module where
  file := "demo"
  main :=
    { name := "", arity := 0, defaults := #[], vararg := false, upvalueCount := 0
      chunk :=
        { code := #[.null, .closure 0 [⟨true, 0⟩], .pop, .constant 2, .return]
          constants :=
            #[.function
                { name := "f", arity := 1, defaults := #[.number ⟨0x7ff8000000000001⟩]
                  vararg := true, upvalueCount := 1
                  chunk := ⟨#[.getUpvalue 0, .return], #[], ⟨#[⟨300, 2⟩]⟩⟩ },
              .native { name := "g", arity := 1, defaults := #[.null], vararg := false },
              .string "é"]
          lines := ⟨#[⟨1, 1⟩, ⟨70000, 4⟩]⟩ } }

/-- Its lengths fit. -/
theorem sized_closureModule : Sized (packModule closureModule) := by
  -- what is left are the lengths of the texts
  simp [closureModule, packModule, packProto, packConstants, packConstant, packNative, packLines,
    packRun, packOp_eq, packNamed, packChoice, packOperand, packCapture, packString, Op.named,
    Sized, SizedItems, SizedEntries]
  decide

/-- The module is storable, so it is read back. -/
theorem closureModule_read_back :
    closureModule.Storable ∧ Module.load closureModule.store = .ok closureModule := by
  have storable : closureModule.Storable := ⟨by decide, by decide, sized_closureModule⟩
  exact ⟨storable, (Module.store_faithful.1 closureModule).2 storable⟩

/-! ## Lists written as raw octets -/

/-- A host function with one default, which is another such function, and so on, `n` times. -/
def chainedNative : Nat → NativeProto
  | 0 => ⟨"", 0, #[], false⟩
  | n + 1 => ⟨"", 1, #[.native (chainedNative n)], false⟩

/-- The same with the innermost, empty list of defaults written as no raw octets. -/
def chainedOctets : Nat → Packed
  | 0 => .array [packString "", .unsigned 0, .binary [], .bool false]
  | n + 1 =>
    .array [packString "", .unsigned 1, .array [packChoice "Native" (chainedOctets n)], .bool false]

/-- A constant is a host function if it is written as one. -/
theorem unpackConstant?_native (fuel levels : Nat) (p : Packed) :
    unpackConstant? (fuel + 1) levels (packChoice "Native" p) =
      (unpackNative? (unpackConstant? fuel) levels p).map .native := by
  simp only [unpackConstant?, choice?_packChoice, Option.bind_eq_bind, Option.bind_some]

/-- Defaults that are written as raw octets are read as if they were an array. -/
theorem unpackNative?_chainedOctets {fuel n levels : Nat} (enough : n ≤ fuel)
    (deep : 2 * n < levels) :
    unpackNative? (unpackConstant? fuel) levels (chainedOctets n) = some (chainedNative n) := by
  induction n generalizing fuel levels with
  | zero =>
    simp [unpackNative?, fields?, chainedOctets, chainedNative, unpackConstants?, unpackList?,
      unpackBool?, unpackNat?, deep]
  | succ n ih =>
    obtain ⟨fuel, rfl⟩ := Nat.exists_eq_add_of_le' enough
    have inner : unpackConstant? (fuel + (n + 1)) (levels - 1 - 1)
        (packChoice "Native" (chainedOctets n)) = some (.native (chainedNative n)) := by
      rw [← Nat.add_assoc, unpackConstant?_native, ih (by omega) (by omega), Option.map_some]
    have record : 0 < levels := by omega
    have list : 0 < levels - 1 := by omega
    rw [chainedOctets, unpackNative?]
    simp [fields?, chainedNative, unpackConstants?, unpackList?, unpackBool?, unpackNat?, record,
      list, inner]

/-- Raw octets add one level of nesting for each default. -/
theorem nesting_chainedOctets (n : Nat) : (chainedOctets n).nesting = 2 * n + 1 := by
  induction n with
  | zero => rfl
  | succ n ih =>
    simp only [chainedOctets, nesting, itemNesting, nesting_packString, nesting_packChoice, ih]
    omega

/-- Written as arrays, they add one level more. -/
theorem nesting_chainedNative (n : Nat) : (packNative (chainedNative n)).nesting = 2 * n + 2 := by
  induction n with
  | zero => rfl
  | succ n ih =>
    simp only [chainedNative, packNative, packConstants, packConstant, nesting, itemNesting,
      nesting_packString, nesting_packChoice, ih]
    omega

/-- Such a default is part of a module. -/
theorem record_chainedOctets (n : Nat) : Record (chainedOctets n) := by
  induction n with
  | zero =>
    refine record_array ?_
    simp only [List.forall_mem_cons, List.not_mem_nil, false_implies, implies_true, and_true]
    exact ⟨(record_packString _).part, (record_unsigned (by decide)).part,
      Record.part ⟨trivial, Nat.le_refl _⟩, (record_bool _).part⟩
  | succ n ih =>
    refine record_array ?_
    simp only [List.forall_mem_cons, List.not_mem_nil, false_implies, implies_true, and_true]
    refine ⟨(record_packString _).part, (record_unsigned (by decide)).part, ?_,
      (record_bool _).part⟩
    refine (record_array ?_).part
    simpa using ih.choice "Native"

/-- Its lengths fit. -/
theorem sized_chainedOctets (n : Nat) : Sized (chainedOctets n) := by
  induction n with
  | zero => exact ⟨by simp, sized_packString (by decide), trivial, by simp [Sized], trivial, trivial⟩
  | succ n ih =>
    have name : Sized (packString "Native") := sized_constantName (by decide)
    exact ⟨by simp, sized_packString (by decide), trivial,
      ⟨by simp, sized_packChoice name ih, trivial⟩, trivial, trivial⟩

/-- A module whose main code has one constant, a host function. -/
def nativeModule (f : NativeProto) : Module where
  file := "f"
  main :=
    { name := "", arity := 0, defaults := #[], vararg := false, upvalueCount := 0
      chunk := ⟨#[.null, .return], #[.native f], ⟨#[⟨1, 2⟩]⟩⟩ }

/-- Such a module, the function given as packed. -/
def packNativeModule (f : Packed) : Packed :=
  .array [packString "f", .array [packString "", .unsigned 0, .array [], .bool false, .unsigned 0,
    .array [.array [packOp .null, packOp .return], .array [packChoice "Native" f],
      packLines ⟨#[⟨1, 2⟩]⟩]]]

/-- A module with one constant. -/
theorem packModule_nativeModule (f : NativeProto) :
    packModule (nativeModule f) = packNativeModule (packNative f) := rfl

/-- Its code checks. -/
theorem verify_nativeModule (f : NativeProto) : (nativeModule f).main.verify = .ok () := rfl

/-- How deep it nests. -/
theorem nesting_packNativeModule (f : Packed) :
    (packNativeModule f).nesting = max f.nesting 2 + 4 := by
  have ops : (packOp .null).nesting = 0 ∧ (packOp .return).nesting = 0 := ⟨rfl, rfl⟩
  simp only [packNativeModule, packLines, packRun, ops, nesting, itemNesting, nesting_packString,
    nesting_packChoice, List.map_cons, List.map_nil]
  omega

/-- It is read if its constant is. -/
theorem unpackModule?_packNativeModule {f : NativeProto} {p : Packed}
    (h : unpackNative? (unpackConstant? (maxDepth - 1)) (maxDepth - 4) p = some f) :
    unpackModule? (packNativeModule p) = some (nativeModule f) := by
  have function : unpackConstant? maxDepth (maxDepth - 4) (packChoice "Native" p) =
      some (.native f) := by
    rw [show maxDepth = (maxDepth - 1) + 1 from rfl, unpackConstant?_native, Option.map_eq_some_iff]
    exact ⟨f, h, rfl⟩
  have null : ∀ n, unpackOp? n (packOp .null) = some .null :=
    fun n => (restores_op n _ _).2 ⟨Nat.zero_le n, rfl⟩
  have ret : ∀ n, unpackOp? n (packOp .return) = some .return :=
    fun n => (restores_op n _ _).2 ⟨Nat.zero_le n, rfl⟩
  have table : unpackLines? (maxDepth - 3) (packLines ⟨#[⟨1, 2⟩]⟩) = some ⟨#[⟨1, 2⟩]⟩ :=
    (restores_lines _ _ _).2 ⟨by decide, rfl⟩
  have levels : 0 < maxDepth ∧ 1 < maxDepth ∧ 2 < maxDepth ∧ 3 < maxDepth := by decide
  simp [unpackModule?, packNativeModule, nativeModule, unpackProto?, fields?, unpackChunk?,
    unpackConstants?, unpackList?, unpackNat?, unpackBool?, Nat.sub_sub, levels, null, ret, table,
    function]

/-- It is a record if its constant is. -/
theorem record_packNativeModule {f : Packed} (h : Record f) : Record (packNativeModule f) := by
  refine record_array ?_
  simp only [List.forall_mem_cons, List.not_mem_nil, false_implies, implies_true, and_true]
  refine ⟨(record_packString _).part, (record_array ?_).part⟩
  simp only [List.forall_mem_cons, List.not_mem_nil, false_implies, implies_true, and_true]
  refine ⟨(record_packString _).part, (record_unsigned (by decide)).part,
    (record_array (by simp)).part, (record_bool _).part, (record_unsigned (by decide)).part,
    (record_array ?_).part⟩
  simp only [List.forall_mem_cons, List.not_mem_nil, false_implies, implies_true, and_true]
  refine ⟨(record_array ?_).part, (record_array ?_).part, (record_packLines _).part⟩
  · simpa using ⟨part_packOp .null, part_packOp .return⟩
  · simpa using h.choice "Native"

/-- Its lengths fit if those of its constant do. -/
theorem sized_packNativeModule {f : Packed} (h : Sized f) : Sized (packNativeModule f) := by
  have name : Sized (packString "Native") := sized_constantName (by decide)
  have code : Sized (.array [packOp .null, packOp .return]) :=
    ⟨by simp, sized_packOp ⟨by simp [Op.captures], trivial⟩,
      sized_packOp ⟨by simp [Op.captures], trivial⟩, trivial⟩
  have lines : Sized (packLines ⟨#[⟨1, 2⟩]⟩) := by decide
  have pool : Sized (.array [packChoice "Native" f]) :=
    ⟨by simp, sized_packChoice name h, trivial⟩
  refine ⟨by simp, sized_packString (by decide), ⟨by simp, sized_packString (by decide), trivial,
    by decide, trivial, trivial, ⟨by simp, code, pool, lines, trivial⟩, trivial⟩, trivial⟩

/-- A module whose file has a name of `n` characters. -/
def longModule (n : Nat) : Module := { nativeModule (chainedNative 0) with file := "".pushn 'a' n }

/-- A text of one letter has as many octets as letters. -/
theorem utf8ByteSize_pushn (n : Nat) : ("".pushn 'a' n).utf8ByteSize = n := by
  induction n with
  | zero => rfl
  | succ n ih =>
    have step : "".pushn 'a' (n + 1) = ("".pushn 'a' n).push 'a' := rfl
    rw [step, String.utf8ByteSize_push, ih]
    rfl

/-- A name that is as long as a length field allows at most. -/
theorem size_of_sized_longModule {n : Nat} (h : Sized (packModule (longModule n))) :
    n < 2 ^ 32 := by
  have short : Sized (packString ("".pushn 'a' n)) := h.2.1
  rwa [packString, Sized, length_toUTF8, utf8ByteSize_pushn] at short

/-- Its code checks. -/
theorem verify_longModule (n : Nat) : (longModule n).main.verify = .ok () := rfl

/-- It nests no deeper than a reader may descend. -/
theorem nesting_longModule (n : Nat) : (packModule (longModule n)).nesting ≤ maxDepth := by
  have nesting : (packModule (longModule n)).nesting = 6 := rfl
  rw [nesting]
  decide

/-- The module that nests as deep as can be read, with an innermost list that is no level. -/
def deepestModule : Module := nativeModule (chainedNative 509)

/-- Octets it is loaded from. -/
def deepestArchive : List UInt8 := storedAs (packNativeModule (chainedOctets 509))

/-- The deepest module is loaded from these octets, but not from those that are stored of it; nor
is a module read back whose file's name is too long for a length field. -/
theorem deepest_and_longest_not_read_back :
    (Module.load deepestArchive = .ok deepestModule ∧
      Module.load deepestModule.store ≠ .ok deepestModule) ∧
    (longModule (2 ^ 32)).main.verify = .ok () ∧
      (packModule (longModule (2 ^ 32))).nesting ≤ maxDepth ∧
      Module.load (longModule (2 ^ 32)).store ≠ .ok (longModule (2 ^ 32)) := by
  refine ⟨⟨?_, fun loaded => ?_⟩, verify_longModule _, nesting_longModule _, fun loaded => ?_⟩
  · have record := record_packNativeModule (record_chainedOctets 509)
    have high := record.high
    rw [nesting_packNativeModule, nesting_chainedOctets] at high
    exact load_storedAs record.simple (sized_packNativeModule (sized_chainedOctets 509)) high
      (unpackModule?_packNativeModule (unpackNative?_chainedOctets (by decide) (by decide)))
      (verify_nativeModule _)
  · have shallow := (Module.storable_of_load_store loaded).shallow
    rw [deepestModule, packModule_nativeModule, nesting_packNativeModule, nesting_chainedNative]
      at shallow
    exact absurd shallow (by decide)
  · have fits := (Module.storable_of_load_store loaded).fits
    exact Nat.lt_irrefl _ (size_of_sized_longModule fits)

end ScriptEngine.Bytecode
