import ScriptEngine.Bytecode.Archive
import ScriptEngine.Proofs.Packing

/-!
# Modules as packed values

What a module is packed to can be unpacked to the same module, as long as it nests no deeper than a
reader may descend; deeper, nothing is unpacked. Each part of a module has a statement of this form,
`Restores`, and that of a compound follows from those of its parts. The last section bounds the
levels the octet reader needs for a packed module by its nesting.
-/

namespace ScriptEngine.Bytecode

namespace Packed

mutual

/-- The levels of nesting a module reader counts: an array is one, the map of a choice is none. -/
def nesting : Packed → Nat
  | .array items => itemNesting items + 1
  | .map entries => entryNesting entries
  | _ => 0

/-- The greatest nesting of some values. -/
def itemNesting : List Packed → Nat
  | [] => 0
  | p :: rest => max (nesting p) (itemNesting rest)

/-- The greatest nesting of some keys and values. -/
def entryNesting : List (Packed × Packed) → Nat
  | [] => 0
  | (k, v) :: rest => max (max (nesting k) (nesting v)) (entryNesting rest)

end

variable {items : List Packed} {n : Nat}

/-- Items nest no deeper than a bound exactly if each of them does not. -/
theorem itemNesting_le : itemNesting items ≤ n ↔ ∀ p ∈ items, nesting p ≤ n := by
  induction items with
  | nil => simp [itemNesting]
  | cons p rest ih => simp [itemNesting, ih]

/-- A list nests one level deeper than its items. -/
theorem nesting_array_le :
    nesting (.array items) ≤ n ↔ 0 < n ∧ ∀ p ∈ items, nesting p ≤ n - 1 := by
  rw [nesting, ← itemNesting_le]
  omega

/-- Items are no higher than a bound exactly if each of them is not. -/
theorem itemHeight_le : itemHeight items ≤ n ↔ ∀ p ∈ items, height p ≤ n := by
  induction items with
  | nil => simp [itemHeight]
  | cons p rest ih => simp [itemHeight, ih]

/-- The lengths in items fit exactly if they do in each of them. -/
theorem sizedItems_iff : SizedItems items ↔ ∀ p ∈ items, Sized p := by
  induction items with
  | nil => simp [SizedItems]
  | cons p rest ih => simp [SizedItems, ih]

/-- Items are simple exactly if each of them is. -/
theorem simpleItems_iff : SimpleItems items ↔ ∀ p ∈ items, Simple p := by
  induction items with
  | nil => simp [SimpleItems]
  | cons p rest ih => simp [SimpleItems, ih]

end Packed

open Packed

/-! ## Texts -/

/-- The octets of a text as a list, from any place on. -/
theorem toList_loop (bytes : ByteArray) {left i : Nat} (h : i + left = bytes.data.size)
    (r : List UInt8) :
    ByteArray.toList.loop bytes i r = r.reverse ++ bytes.data.toList.drop i := by
  induction left generalizing i r with
  | zero =>
    have done : bytes.data.toList.drop i = [] := List.drop_eq_nil_of_le (Nat.le_of_eq h.symm)
    have past : ¬ i < bytes.size := Nat.not_lt_of_le (Nat.le_of_eq h.symm)
    rw [ByteArray.toList.loop, if_neg past, done, List.append_nil]
  | succ left ih =>
    have inside : i < bytes.data.toList.length := by
      rw [Array.length_toList]
      omega
    have first : bytes.get! i = bytes.data.toList[i] := getElem!_pos bytes.data i inside
    rw [ByteArray.toList.loop, if_pos (show i < bytes.size from inside), ih (by omega), first,
      List.drop_eq_getElem_cons inside, List.reverse_cons, List.append_assoc, List.singleton_append]

@[simp] theorem toList_bytes (bytes : ByteArray) : bytes.toList = bytes.data.toList := by
  rw [ByteArray.toList, toList_loop bytes (Nat.zero_add _)]
  rfl

/-- Exactly the octets of a text are read as it. -/
theorem fromUTF8?_eq_some {o : List UInt8} {s : String} :
    String.fromUTF8? (ByteArray.mk o.toArray) = some s ↔ s.toUTF8.toList = o := by
  rw [toList_bytes, String.fromUTF8?]
  constructor
  · intro h
    split at h
    · cases h
      rfl
    · cases h
  · rintro rfl
    have same : ByteArray.mk s.toByteArray.data.toList.toArray = s.toByteArray := rfl
    rw [dif_pos (same ▸ s.isValidUTF8)]
    rfl

@[simp] theorem unpackString?_packString (s : String) : unpackString? (packString s) = some s :=
  fromUTF8?_eq_some.2 rfl

/-- The name of a choice that is a packed text. -/
theorem choiceName?_packString (names : List String) (s : String) :
    choiceName? names (packString s) = some s :=
  fromUTF8?_eq_some.2 rfl

@[simp] theorem choice?_packString (names : List String) (s : String) :
    choice? names (packString s) = some (s, none) := by
  rw [show choice? names (packString s) = (choiceName? names (packString s)).map (·, none) from rfl,
    choiceName?_packString, Option.map_some]

@[simp] theorem choice?_packChoice (names : List String) (s : String) (payload : Packed) :
    choice? names (packChoice s payload) = some (s, some payload) := by
  rw [packChoice, choice?, choiceName?_packString, Option.map_some]

/-! ## Numbers -/

@[simp] theorem unpackNat?_byte (n : UInt8) : unpackNat? 256 (.unsigned n.toNat) = some n.toNat :=
  if_pos n.toNat_lt

@[simp] theorem unpackNat?_word (n : UInt16) :
    unpackNat? 65536 (.unsigned n.toNat) = some n.toNat :=
  if_pos n.toNat_lt

@[simp] theorem unpackNat?_line (n : UInt32) :
    unpackNat? (pow2 32) (.unsigned n.toNat) = some n.toNat :=
  if_pos n.toNat_lt

/-! ## Lists -/

/-- Reading with `n` levels left gives back what was written, and nothing that nests deeper. -/
def Restores {α : Type} (n : Nat) (unpack : Packed → Option α) (pack : α → Packed) : Prop :=
  ∀ x y, unpack (pack x) = some y ↔ (pack x).nesting ≤ n ∧ x = y

section

variable {α : Type} {n : Nat} {unpack : Packed → Option α} {pack : α → Packed}

/-- Lists are restored item by item. -/
theorem Restores.mapM (h : Restores n unpack pack) (xs ys : List α) :
    (xs.map pack).mapM unpack = some ys ↔ (∀ p ∈ xs.map pack, p.nesting ≤ n) ∧ xs = ys := by
  induction xs generalizing ys with
  | nil => simp [eq_comm]
  | cons x xs ih =>
    simp only [List.map_cons, List.mapM_cons, Option.bind_eq_bind, Option.bind_eq_some_iff, h x, ih,
      List.forall_mem_cons, Option.pure_def, Option.some.injEq]
    grind

/-- A list of things that are read back is read back, one level further out. -/
theorem Restores.list (h : 0 < n → Restores (n - 1) unpack pack) (xs ys : List α) :
    (unpackList? n (.array (xs.map pack))).bind (fun items => items.mapM unpack) = some ys ↔
      (Packed.array (xs.map pack)).nesting ≤ n ∧ xs = ys := by
  rw [nesting_array_le, unpackList?]
  split
  · next level => rw [Option.bind_some, (h level).mapM, and_iff_right level]
  · next level => simp [level]

end

/-! ## Instructions -/

/-- A capture is restored. -/
theorem restores_capture (n : Nat) : Restores n (unpackCapture? n) packCapture := by
  intro c d
  rw [packCapture, nesting_array_le]
  by_cases level : 0 < n <;> simp [unpackCapture?, fields?, unpackBool?, level, nesting]

/-- A run of lines is restored. -/
theorem restores_run (n : Nat) : Restores n (unpackRun? n) packRun := by
  intro r t
  rw [packRun, nesting_array_le]
  by_cases level : 0 < n <;> simp [unpackRun?, fields?, level, nesting]

/-- The instruction of a form with given operands. -/
def OpForm.make? : OpForm → List Operand → Option Op
  | .plain op, [] => some op
  | .byte make, [.byte n] => some (make n)
  | .word make, [.word n] => some (make n)
  | .byteWord make, [.byte a, .word b] => some (make a b)
  | .wordWord make, [.word a, .word b] => some (make a b)
  | .closure make, [.word a, .captures cs] => some (make a cs)
  | _, _ => none

/-- Every instruction is made of its operands by the form that goes by its name. -/
theorem make?_named (op : Op) :
    ∃ form, opForm? op.named.1 = some form ∧ form.make? op.named.2 = some op := by
  cases op with
  | callShort n =>
    match n with
    | 0 | 1 | 2 | 3 | 4 | 5 | 6 | 7 | 8 | 9 | 10 => exact ⟨_, rfl, rfl⟩
  | invokeShort n i =>
    match n with
    | 0 | 1 | 2 | 3 | 4 | 5 | 6 | 7 | 8 | 9 | 10 => exact ⟨_, rfl, rfl⟩
  | _ => exact ⟨_, rfl, rfl⟩

@[simp] theorem nesting_packString (s : String) : (packString s).nesting = 0 := rfl

@[simp] theorem nesting_packChoice (s : String) (payload : Packed) :
    (packChoice s payload).nesting = payload.nesting := by
  simp [packChoice, nesting, entryNesting, nesting_packString]

/-- An instruction given by its name and operands. -/
def packNamed (name : String) : List Operand → Packed
  | [] => packString name
  | [operand] => packChoice name (packOperand operand)
  | a :: b :: rest => packChoice name (.array ((a :: b :: rest).map packOperand))

/-- An instruction is packed by its name and its operands. -/
theorem packOp_eq (op : Op) : packOp op = packNamed op.named.1 op.named.2 := by
  unfold packOp
  generalize op.named = named
  obtain ⟨name, operands⟩ := named
  match operands with
  | [] | [_] | _ :: _ :: _ => rfl

/-- What an instruction is packed to is unpacked by the form of its name. -/
theorem unpackOp?_packNamed {form : OpForm} {name : String} {operands : List Operand} {op : Op}
    (found : opForm? name = some form) (made : form.make? operands = some op) (n : Nat)
    (other : Op) :
    unpackOp? n (packNamed name operands) = some other ↔
      (packNamed name operands).nesting ≤ n ∧ op = other := by
  unfold OpForm.make? at made
  split at made
  · cases made
    simp [packNamed, unpackOp?, found, OpForm.unpack?]
  · cases made
    simp [packNamed, unpackOp?, found, OpForm.unpack?, packOperand, nesting]
  · cases made
    simp [packNamed, unpackOp?, found, OpForm.unpack?, packOperand, nesting]
  · cases made
    rw [packNamed, nesting_packChoice, nesting_array_le]
    by_cases level : 0 < n <;>
      simp [unpackOp?, found, OpForm.unpack?, packOperand, pair?, level, nesting]
  · cases made
    rw [packNamed, nesting_packChoice, nesting_array_le]
    by_cases level : 0 < n <;>
      simp [unpackOp?, found, OpForm.unpack?, packOperand, pair?, level, nesting]
  · next make i cs =>
    cases made
    have inner : ∀ ds, ((unpackList? (n - 1) (.array (cs.map packCapture))).bind fun items =>
        items.mapM (unpackCapture? (n - 2))) = some ds ↔ _ :=
      Restores.list (fun _ => restores_capture (n - 2)) cs
    rw [packNamed, nesting_packChoice, nesting_array_le]
    by_cases level : 0 < n
    · simp [unpackOp?, found, OpForm.unpack?, packOperand, pair?, level, ← Option.bind_assoc,
        Option.bind_eq_some_iff, inner, nesting]
    · simp [unpackOp?, found, OpForm.unpack?, packOperand, pair?, level]
  · cases made

/-- An instruction is restored. -/
theorem restores_op (n : Nat) : Restores n (unpackOp? n) packOp := by
  intro op other
  obtain ⟨form, found, made⟩ := make?_named op
  rw [packOp_eq]
  exact unpackOp?_packNamed found made n other

/-! ## Constants and prototypes -/

/-- Constants are packed one by one. -/
theorem packConstants_eq (cs : List Constant) : packConstants cs = cs.map packConstant := by
  induction cs with
  | nil => rfl
  | cons c rest ih => rw [packConstants, ih, List.map_cons]

/-- A table of lines is restored. -/
theorem restores_lines (n : Nat) : Restores n (unpackLines? n) packLines := by
  intro t other
  have inner : ∀ runs, ((unpackList? (n - 1) (.array (t.runs.toList.map packRun))).bind fun items =>
      items.mapM (unpackRun? (n - 2))) = some runs ↔ _ :=
    Restores.list (fun _ => restores_run (n - 2)) t.runs.toList
  rw [packLines, nesting_array_le]
  by_cases level : 0 < n
  · simp [unpackLines?, fields?, level, ← Option.bind_assoc, Option.bind_eq_some_iff, inner, nesting]
  · simp [unpackLines?, fields?, level]

section

variable {constant : Nat → Packed → Option Constant} {n : Nat}

/-- Constants are restored if each of them is. -/
theorem restores_constants (h : 0 < n → Restores (n - 1) (constant (n - 1)) packConstant)
    (cs other : Array Constant) :
    unpackConstants? constant n (.array (packConstants cs.toList)) = some other ↔
      (Packed.array (packConstants cs.toList)).nesting ≤ n ∧ cs = other := by
  have inner := Restores.list h cs.toList
  rw [packConstants_eq]
  simp [unpackConstants?, ← Option.bind_assoc, Option.bind_eq_some_iff, inner]

/-- What is assumed of the reader of constants inside a record with `n` levels left. -/
def RestoresBelow (n : Nat) (constant : Nat → Packed → Option Constant) : Prop :=
  ∀ m < n, Restores m (constant m) packConstant

/-- What a host function is packed to. -/
theorem packNative_eq (f : NativeProto) :
    packNative f = .array [packString f.name, .unsigned f.arity.toNat,
      .array (packConstants f.defaults.toList), .bool f.vararg] := by
  obtain ⟨name, arity, ⟨defaults⟩, vararg⟩ := f
  rfl

/-- A host function is restored. -/
theorem restores_native (h : RestoresBelow n constant) :
    Restores n (unpackNative? constant n) packNative := by
  rintro ⟨name, arity, defaults, vararg⟩ other
  rw [packNative_eq, nesting_array_le]
  by_cases level : 0 < n
  · have inner := restores_constants (fun _ => h (n - 1 - 1) (by omega)) defaults
    simp [unpackNative?, fields?, unpackBool?, level, Option.bind_eq_some_iff, inner, nesting]
  · simp [unpackNative?, fields?, level]

/-- A chunk as the record of its fields. -/
def packChunk (c : Chunk) : Packed :=
  .array [.array (c.code.toList.map packOp), .array (packConstants c.constants.toList),
    packLines c.lines]

/-- Code is restored. -/
theorem restores_chunk (h : RestoresBelow n constant) :
    Restores n (unpackChunk? constant n) packChunk := by
  rintro ⟨code, constants, lines⟩ other
  rw [packChunk, nesting_array_le]
  by_cases level : 0 < n
  · have ops : ∀ ops, ((unpackList? (n - 1) (.array (code.toList.map packOp))).bind fun items =>
        items.mapM (unpackOp? (n - 2))) = some ops ↔ _ :=
      Restores.list (fun _ => restores_op (n - 2)) code.toList
    have pool := restores_constants (fun _ => h (n - 1 - 1) (by omega)) constants
    have table := restores_lines (n - 1) lines
    simp [unpackChunk?, fields?, level, ← Option.bind_assoc, Option.bind_eq_some_iff, ops, pool,
      table, and_assoc]
  · simp [unpackChunk?, fields?, level]

/-- What a prototype is packed to. -/
theorem packProto_eq (p : Proto) :
    packProto p = .array [packString p.name, .unsigned p.arity.toNat,
      .array (packConstants p.defaults.toList), .bool p.vararg, .unsigned p.upvalueCount.toNat,
      packChunk p.chunk] := by
  obtain ⟨name, arity, ⟨defaults⟩, vararg, upvalueCount, ⟨code, ⟨constants⟩, lines⟩⟩ := p
  rfl

/-- A prototype is restored. -/
theorem restores_proto (h : RestoresBelow n constant) :
    Restores n (unpackProto? constant n) packProto := by
  rintro ⟨name, arity, defaults, vararg, upvalueCount, chunk⟩ other
  rw [packProto_eq, nesting_array_le]
  by_cases level : 0 < n
  · have inner := restores_constants (fun _ => h (n - 1 - 1) (by omega)) defaults
    have body := restores_chunk (fun m less => h m (Nat.lt_of_lt_of_le less (Nat.sub_le n 1))) chunk
    simp [unpackProto?, fields?, unpackBool?, level, Option.bind_eq_some_iff, inner, body, nesting,
      and_assoc]
  · simp [unpackProto?, fields?, level]

end

/-- With fuel for every level, constants are read back. -/
theorem restores_constant {fuel n : Nat} (enough : n < fuel) :
    Restores n (unpackConstant? fuel n) packConstant := by
  induction fuel generalizing n with
  | zero => cases enough
  | succ fuel ih =>
    -- what a record holds is read with fewer levels, so there is fuel for it
    have below : RestoresBelow n (unpackConstant? fuel) :=
      fun m less => ih (Nat.lt_of_lt_of_le less (Nat.le_of_lt_succ enough))
    intro c other
    cases c with
    | number x => simp [packConstant, unpackConstant?, unpackNumber?, nesting]
    | string s => simp [packConstant, unpackConstant?]
    | bool b => simp [packConstant, unpackConstant?, unpackBool?, nesting]
    | null => simp [packConstant, unpackConstant?]
    | function p =>
      simp [packConstant, unpackConstant?, Option.map_eq_some_iff, restores_proto below p]
    | native f =>
      simp [packConstant, unpackConstant?, Option.map_eq_some_iff, restores_native below f]

/-- A module is restored exactly if it nests no deeper than a reader may descend. -/
theorem unpackModule?_packModule (m other : Module) :
    unpackModule? (packModule m) = some other ↔ (packModule m).nesting ≤ maxDepth ∧ m = other := by
  have below : RestoresBelow (maxDepth - 1) (unpackConstant? maxDepth) :=
    fun n less => restores_constant (Nat.lt_of_lt_of_le less (Nat.sub_le _ _))
  have main := restores_proto below m.main
  have level : 0 < maxDepth := by decide
  rw [packModule, nesting_array_le]
  simp [unpackModule?, fields?, Option.bind_eq_some_iff, main, level]

/-! ## Height of stored modules -/

namespace Packed

/-- A value whose only maps are choices inside it, so that a reader needs two levels for each level
of nesting. -/
structure Record (p : Packed) : Prop where
  /-- Its integers are unsigned words. -/
  simple : Simple p
  /-- The levels a reader needs. -/
  high : height p ≤ 2 * nesting p + 1

/-- A record or a choice, whose map is one more level for a reader. -/
structure Part (p : Packed) : Prop where
  /-- Its integers are unsigned words. -/
  simple : Simple p
  /-- The levels a reader needs. -/
  high : height p ≤ 2 * nesting p + 2

/-- Records are parts. -/
theorem Record.part {p : Packed} (h : Record p) : Part p :=
  ⟨h.simple, Nat.le_succ_of_le h.high⟩

/-- A list of parts. -/
theorem record_array {items : List Packed} (h : ∀ p ∈ items, Part p) : Record (.array items) := by
  refine ⟨simpleItems_iff.2 fun p mem => (h p mem).simple, ?_⟩
  have high : itemHeight items ≤ 2 * itemNesting items + 2 := by
    refine itemHeight_le.2 fun p mem => Nat.le_trans (h p mem).high ?_
    have := itemNesting_le.1 (Nat.le_refl (itemNesting items)) p mem
    omega
  simp only [height, nesting]
  omega

/-- A number. -/
theorem record_unsigned {n : Nat} (h : n < 2 ^ 64) : Record (.unsigned n) :=
  ⟨h, Nat.le_refl _⟩

/-- A number of eight bits. -/
theorem record_byte (n : UInt8) : Record (.unsigned n.toNat) :=
  record_unsigned (Nat.lt_trans n.toNat_lt (by decide))

/-- A number of sixteen bits. -/
theorem record_word (n : UInt16) : Record (.unsigned n.toNat) :=
  record_unsigned (Nat.lt_trans n.toNat_lt (by decide))

/-- A number of thirty-two bits. -/
theorem record_line (n : UInt32) : Record (.unsigned n.toNat) :=
  record_unsigned (Nat.lt_trans n.toNat_lt (by decide))

/-- A truth value. -/
theorem record_bool (b : Bool) : Record (.bool b) := ⟨trivial, Nat.le_refl _⟩

/-- A floating-point number. -/
theorem record_float (n : Number) : Record (.float n) := ⟨trivial, Nat.le_refl _⟩

/-- A text. -/
theorem record_packString (s : String) : Record (packString s) := ⟨trivial, Nat.le_refl _⟩

/-- A choice that carries a record. -/
theorem Record.choice {payload : Packed} (h : Record payload) (name : String) :
    Part (packChoice name payload) := by
  refine ⟨⟨trivial, h.simple, trivial⟩, ?_⟩
  have pos := height_pos payload
  have high := h.high
  have key : height (packString name) = 1 := rfl
  rw [nesting_packChoice]
  simp only [packChoice, height, entryHeight, key]
  omega

end Packed

/-- A capture. -/
theorem record_packCapture (c : Capture) : Record (packCapture c) := by
  refine record_array ?_
  simp only [List.forall_mem_cons, List.not_mem_nil, false_implies, implies_true, and_true]
  exact ⟨(record_bool _).part, (record_word _).part⟩

/-- An operand. -/
theorem record_packOperand (operand : Operand) : Record (packOperand operand) := by
  cases operand with
  | byte n => exact record_byte n
  | word n => exact record_word n
  | captures cs =>
    refine record_array fun p mem => ?_
    obtain ⟨c, -, rfl⟩ := List.mem_map.1 mem
    exact (record_packCapture c).part

/-- An instruction. -/
theorem part_packOp (op : Op) : Part (packOp op) := by
  rw [packOp_eq]
  unfold packNamed
  split
  · exact (record_packString _).part
  · next operand _ => exact (record_packOperand operand).choice _
  · refine (record_array fun p mem => ?_).choice _
    obtain ⟨operand, -, rfl⟩ := List.mem_map.1 mem
    exact (record_packOperand operand).part

/-- A table of lines. -/
theorem record_packLines (t : LineTable) : Record (packLines t) := by
  refine record_array ?_
  simp only [List.forall_mem_cons, List.not_mem_nil, false_implies, implies_true, and_true]
  refine (record_array fun p mem => ?_).part
  obtain ⟨r, -, rfl⟩ := List.mem_map.1 mem
  refine (record_array ?_).part
  simp only [List.forall_mem_cons, List.not_mem_nil, false_implies, implies_true, and_true]
  exact ⟨(record_line _).part, (record_line _).part⟩

mutual

/-- A constant, which may be a function with constants of its own. -/
theorem part_packConstant : ∀ c, Part (packConstant c)
  | .number n => (record_float n).choice _
  | .string s => (record_packString s).choice _
  | .bool b => (record_bool b).choice _
  | .null => (record_packString _).part
  | .function p => (record_packProto p).choice _
  | .native f => (record_packNative f).choice _

/-- A host function. -/
theorem record_packNative : ∀ f, Record (packNative f)
  | ⟨name, arity, ⟨defaults⟩, vararg⟩ => by
    refine record_array ?_
    simp only [List.forall_mem_cons, List.not_mem_nil, false_implies, implies_true, and_true]
    exact ⟨(record_packString _).part, (record_byte _).part,
      (record_array (parts_packConstants defaults)).part, (record_bool _).part⟩

/-- A prototype. -/
theorem record_packProto : ∀ p, Record (packProto p)
  | ⟨name, arity, ⟨defaults⟩, vararg, upvalueCount, ⟨code, ⟨constants⟩, lines⟩⟩ => by
    have ops : ∀ p ∈ code.toList.map packOp, Part p := by
      intro p mem
      obtain ⟨op, -, rfl⟩ := List.mem_map.1 mem
      exact part_packOp op
    refine record_array ?_
    simp only [List.forall_mem_cons, List.not_mem_nil, false_implies, implies_true, and_true]
    refine ⟨(record_packString _).part, (record_byte _).part,
      (record_array (parts_packConstants defaults)).part, (record_bool _).part,
      (record_word _).part, (record_array ?_).part⟩
    simp only [List.forall_mem_cons, List.not_mem_nil, false_implies, implies_true, and_true]
    exact ⟨(record_array ops).part, (record_array (parts_packConstants constants)).part,
      (record_packLines lines).part⟩

/-- Constants. -/
theorem parts_packConstants : ∀ cs, ∀ p ∈ packConstants cs, Part p
  | [] => by simp [packConstants]
  | c :: rest => by
    rw [packConstants]
    exact List.forall_mem_cons.2 ⟨part_packConstant c, parts_packConstants rest⟩

end

/-- A module. -/
theorem record_packModule (m : Module) : Record (packModule m) := by
  refine record_array ?_
  simp only [List.forall_mem_cons, List.not_mem_nil, false_implies, implies_true, and_true]
  exact ⟨(record_packString _).part, (record_packProto m.main).part⟩

end ScriptEngine.Bytecode
