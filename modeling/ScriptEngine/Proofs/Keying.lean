import Mathlib
import ScriptEngine.Proofs.Furnishing

/-!
# What values stand for when they are compared

Numbers stand for their position on the line, strings for their octets, tuples for what their
elements stand for, and objects that are compared by identity for themselves. Equality and hash are
computed by methods that call each other on the elements of tuples; they leave the state as it was
and depend only on what the values stand for. A NaN equals nothing, and neither does a tuple that
holds one. All other values are keys of tables: two of them are equal just in case they stand for the
same.
-/

namespace ScriptEngine

/-! ## Numbers -/

namespace Number

/-- The number itself, but positive zero for both zeros. -/
def canonical (n : Number) : Number := if n.isZero then .zero else n

/-- The largest position that fits 64 bits with a sign is one less. -/
theorem pow2_63 : pow2 63 = 9223372036854775808 := by decide

/-- A number is its sign and its magnitude. -/
theorem toNat_bits (n : Number) :
    n.bits.toNat = (if n.isNegative then pow2 63 else 0) + n.magnitude := by
  have hlt := n.bits.toNat_lt
  unfold isNegative magnitude
  rw [pow2_63]
  split
  · next h =>
    rw [beq_iff_eq] at h
    omega
  · next h =>
    rw [beq_iff_eq] at h
    omega

/-- Numbers of one rank are the same but for the signs of zero. -/
theorem eq_of_rank_eq {a b : Number} (h : a.rank = b.rank) (ha : a.isZero = false) : a = b := by
  have hmag : a.magnitude ≠ 0 := by simpa [isZero] using ha
  have hbits : a.bits.toNat = b.bits.toNat := by
    rw [toNat_bits a, toNat_bits b]
    unfold rank at h
    split at h <;> split at h <;> simp_all
  cases a
  cases b
  exact congrArg Number.mk (UInt64.toNat_inj.1 hbits)

/-- Only zero has rank zero. -/
theorem rank_eq_zero_iff {n : Number} : n.rank = 0 ↔ n.isZero = true := by
  unfold rank isZero
  split <;> simp

/-- Numbers other than NaN are equal just in case they are the same, zeros aside. -/
theorem equals_iff {a b : Number} (ha : a.isNaN = false) (hb : b.isNaN = false) :
    a.equals b = true ↔ a.canonical = b.canonical := by
  have hrank : a.equals b = true ↔ a.rank = b.rank := by
    unfold equals
    rw [ha, hb]
    simp
  rw [hrank]
  unfold canonical
  constructor
  · intro h
    by_cases hz : a.isZero = true
    · rw [if_pos hz, if_pos (rank_eq_zero_iff.1 (h ▸ rank_eq_zero_iff.2 hz))]
    · rw [eq_of_rank_eq h (by simpa using hz)]
  · intro h
    have hrank : ∀ n : Number, (if n.isZero then zero else n).rank = n.rank := by
      intro n
      split
      · next hz => rw [rank_eq_zero_iff.2 hz, rank_eq_zero_iff.2 (by decide)]
      · rfl
    rw [← hrank a, h, hrank b]

/-- Equal numbers have one canonical form. -/
theorem canonical_eq_of_equals {a b : Number} (h : a.equals b = true) :
    a.canonical = b.canonical := by
  have hnan : a.isNaN = false ∧ b.isNaN = false := by
    simp only [equals, Bool.and_eq_true, Bool.not_eq_true'] at h
    exact h.1
  exact (equals_iff hnan.1 hnan.2).1 h

@[simp] theorem isNaN_canonical (n : Number) : n.canonical.isNaN = n.isNaN := by
  unfold canonical
  split
  · next hz =>
    have hmag : n.magnitude = 0 := by simpa [isZero] using hz
    simp [isNaN, hmag]
    decide
  · rfl

/-- A canonical form is its own. -/
theorem canonical_canonical (n : Number) : n.canonical.canonical = n.canonical := by
  by_cases hz : n.isZero = true
  · simp [canonical, hz]
  · simp [canonical, hz]

/-- Equality does not tell a number from what it stands for. -/
theorem equals_canonical (a b : Number) : a.canonical.equals b.canonical = a.equals b := by
  by_cases ha : a.isNaN = true
  · simp [equals, ha]
  by_cases hb : b.isNaN = true
  · simp [equals, hb]
  rw [Bool.not_eq_true] at ha hb
  rw [Bool.eq_iff_iff, equals_iff (by simpa using ha) (by simpa using hb), equals_iff ha hb,
    canonical_canonical, canonical_canonical]

@[simp] theorem keyHash_canonical (n : Number) : n.canonical.keyHash = n.keyHash := by
  unfold canonical
  split
  · next hz =>
    unfold keyHash
    rw [hz]
    rfl
  · rfl

/-- Equal numbers hash the same. -/
theorem keyHash_of_equals {a b : Number} (h : a.equals b = true) : a.keyHash = b.keyHash := by
  rw [← keyHash_canonical a, canonical_eq_of_equals h, keyHash_canonical]

/-- Numbers may be compared in any order. -/
theorem equals_comm (a b : Number) : a.equals b = b.equals a := by
  unfold equals
  rw [Bool.and_comm (!a.isNaN), decide_eq_decide.2 (eq_comm (a := a.rank))]

/-- A number equals itself unless it is NaN. -/
theorem equals_self (n : Number) : n.equals n = !n.isNaN := by simp [equals]

/-- Numbers equal to one and the same are equal. -/
theorem equals_trans {a b c : Number} (h : a.equals b = true) (h' : b.equals c = true) :
    a.equals c = true := by
  simp_all [equals]

end Number

/-! ## Keys -/

/-- What a value stands for when it is compared. -/
inductive TableKey where
  | number (n : Number)
  | bool (b : Bool)
  | null
  | string (data : ByteArray)
  | tuple (items : List TableKey)
  | object (h : Handle)

namespace TableKey

mutual

/-- Whether two values stand for the same. -/
def same : TableKey → TableKey → Bool
  | .number a, .number b => decide (a = b)
  | .bool a, .bool b => decide (a = b)
  | .null, .null => true
  | .string a, .string b => decide (a = b)
  | .tuple as, .tuple bs => sameAll as bs
  | .object a, .object b => decide (a = b)
  | _, _ => false

/-- Whether the values of two lists stand for the same. -/
def sameAll : List TableKey → List TableKey → Bool
  | [], [] => true
  | a :: as, b :: bs => same a b && sameAll as bs
  | _, _ => false

end

mutual

/-- Keys are compared bit by bit exactly if they are the same. -/
theorem same_iff : ∀ a b : TableKey, a.same b = true ↔ a = b
  | .number _, b | .bool _, b | .null, b | .string _, b | .object _, b => by
    cases b <;> simp [same]
  | .tuple as, b => by
    cases b <;> simp [same, sameAll_iff as]

/-- So are lists of keys. -/
theorem sameAll_iff : ∀ as bs : List TableKey, sameAll as bs = true ↔ as = bs
  | [], bs => by cases bs <;> simp [sameAll]
  | a :: as, bs => by cases bs <;> simp [sameAll, same_iff a, sameAll_iff as]

end

instance : DecidableEq TableKey := fun a b => decidable_of_iff _ (same_iff a b)

mutual

/-- Whether two values are equal. -/
def equals : TableKey → TableKey → Bool
  | .number a, .number b => a.equals b
  | .bool a, .bool b => a == b
  | .null, .null => true
  | .string a, .string b => decide (a = b)
  | .tuple as, .tuple bs => equalsAll as bs
  | .object a, .object b => decide (a = b)
  | _, _ => false

/-- Whether the values of two lists are equal. -/
def equalsAll : List TableKey → List TableKey → Bool
  | [], [] => true
  | a :: as, b :: bs => equals a b && equalsAll as bs
  | _, _ => false

end

mutual

/-- Whether a NaN occurs in a value. -/
def hasNaN : TableKey → Bool
  | .number n => n.isNaN
  | .tuple items => anyNaN items
  | _ => false

/-- Whether a NaN occurs in one of some values. -/
def anyNaN : List TableKey → Bool
  | [] => false
  | k :: rest => k.hasNaN || anyNaN rest

end

mutual

/-- The hash of all values that stand for this. -/
def hash : TableKey → UInt64
  | .number n => n.keyHash
  | .bool true => 1231
  | .bool false => 1237
  | .null => 0
  | .string data => (Text.fnv1a data).toUInt64
  | .tuple items => (Number.ofNat ((hashAll 0x345678 items).toNat % pow2 53)).keyHash
  | .object h => identityHash h

/-- A hash with the hashes of further values mixed in. -/
def hashAll (seed : UInt64) : List TableKey → UInt64
  | [] => seed
  | k :: rest => hashAll (mixHash seed k.hash) rest

end

/-! ## Equality is an equivalence but for NaN, and equal values hash the same -/

mutual

/-- Keys may be compared in any order. -/
theorem equals_comm : ∀ a b : TableKey, a.equals b = b.equals a
  | .number a, b => by cases b <;> simp [equals, Number.equals_comm a]
  | .bool _, b | .null, b => by cases b <;> simp [equals, Bool.beq_comm]
  | .string _, b | .object _, b => by cases b <;> simp [equals, eq_comm]
  | .tuple as, b => by cases b <;> simp [equals, equalsAll_comm as]

/-- So may lists of keys. -/
theorem equalsAll_comm : ∀ as bs : List TableKey, equalsAll as bs = equalsAll bs as
  | [], bs => by cases bs <;> simp [equalsAll]
  | a :: as, bs => by cases bs <;> simp [equalsAll, equals_comm a, equalsAll_comm as]

end

mutual

/-- A key equals itself unless there is NaN in it. -/
theorem equals_self : ∀ k : TableKey, k.equals k = !k.hasNaN
  | .number n => by rw [equals, hasNaN, Number.equals_self]
  | .bool _ | .null | .string _ | .object _ => by simp [equals, hasNaN]
  | .tuple items => by rw [equals, hasNaN, equalsAll_self items]

/-- So does a list of keys. -/
theorem equalsAll_self : ∀ ks : List TableKey, equalsAll ks ks = !anyNaN ks
  | [] => rfl
  | k :: rest => by rw [equalsAll, anyNaN, equals_self k, equalsAll_self rest, Bool.not_or]

end

mutual

/-- Keys equal to one and the same are equal. -/
theorem equals_trans : ∀ {a b c : TableKey}, a.equals b = true → b.equals c = true →
    a.equals c = true
  | .number a, b, c, h, h' => by
    cases b <;> cases c <;> simp_all only [equals, Bool.false_eq_true]
    exact Number.equals_trans h h'
  | .bool _, b, c, h, h' | .null, b, c, h, h' | .string _, b, c, h, h' | .object _, b, c, h, h' => by
    cases b <;> cases c <;> simp_all [equals]
  | .tuple as, b, c, h, h' => by
    cases b <;> cases c <;> simp_all only [equals, Bool.false_eq_true]
    exact equalsAll_trans h h'

/-- So are lists of keys. -/
theorem equalsAll_trans : ∀ {as bs cs : List TableKey}, equalsAll as bs = true →
    equalsAll bs cs = true → equalsAll as cs = true
  | [], bs, cs, h, h' => by cases bs <;> cases cs <;> simp_all [equalsAll]
  | a :: as, bs, cs, h, h' => by
    cases bs <;> cases cs <;> simp_all only [equalsAll, Bool.and_eq_true, Bool.false_eq_true]
    exact ⟨equals_trans h.1 h'.1, equalsAll_trans h.2 h'.2⟩

end

mutual

/-- Equal keys have one hash. -/
theorem hash_eq_of_equals : ∀ {a b : TableKey}, a.equals b = true → a.hash = b.hash
  | .number a, b, h => by
    cases b <;> simp_all only [equals, Bool.false_eq_true]
    exact Number.keyHash_of_equals h
  | .bool _, b, h | .null, b, h | .string _, b, h | .object _, b, h => by
    cases b <;> simp_all [equals]
  | .tuple as, b, h => by
    cases b <;> simp_all only [equals, Bool.false_eq_true]
    rw [hash, hash, hashAll_eq_of_equalsAll h]

/-- So have lists of them, from any seed. -/
theorem hashAll_eq_of_equalsAll : ∀ {as bs : List TableKey} {seed : UInt64},
    equalsAll as bs = true → hashAll seed as = hashAll seed bs
  | [], bs, _, h => by cases bs <;> simp_all [equalsAll]
  | a :: as, bs, _, h => by
    cases bs <;> simp_all only [equalsAll, Bool.and_eq_true, Bool.false_eq_true]
    rw [hashAll, hashAll, hash_eq_of_equals h.1, hashAll_eq_of_equalsAll h.2]

end

/-- Lists of equal keys are of one length. -/
theorem length_eq_of_equalsAll {as bs : List TableKey} (h : equalsAll as bs = true) :
    as.length = bs.length := by
  induction as generalizing bs with
  | nil => cases bs <;> simp_all [equalsAll]
  | cons a as ih =>
    cases bs with
    | nil => cases h
    | cons b bs =>
      rw [equalsAll, Bool.and_eq_true] at h
      simpa using ih h.2

end TableKey

/-- Whether objects of a kind are compared by identity because their core class has no other
equality. -/
@[simp, reducible] def Object.isIdentified : Object → Bool
  | .table _ | .function _ | .closure _ _ | .native _ | .boundMethod _ _ | .classObject _
  | .module _ _ | .stackTrace _ | .generator _ => true
  | .string _ | .list _ | .tuple _ | .instanceOf _ _ | .upvalue _ => false

/-- What of an object its meaning in a comparison depends on. -/
def Object.outline : Object → Object
  | .string text => .string text
  | .tuple items => .tuple items
  | .instanceOf owner _ => .instanceOf owner .empty
  | .list _ => .list #[]
  | .upvalue _ => .upvalue (.closed .null)
  | _ => .table .empty

/-- Objects are compared by identity exactly if their outline is that of a table. -/
theorem Object.isIdentified_iff {o : Object} :
    o.isIdentified = true ↔ o.outline = .table .empty := by
  cases o <;> simp [outline]

namespace State

/-- A class overrides neither equality nor hash of the root class. -/
def Plain (s : State) (c : Handle) : Prop :=
  ∀ name, name = Special.eq ∨ name = Special.hash → ∀ m, s.method? c (s.special name) = some m →
    s.method? (s.coreClass .object) (s.special name) = some m

/-- A value stands for something when it is compared. -/
inductive Reads (s : State) : Value → TableKey → Prop
  | number (n : Number) : Reads s (.number n) (.number n.canonical)
  | bool (b : Bool) : Reads s (.bool b) (.bool b)
  | null : Reads s .null .null
  | string {h : Handle} {text : StringObject} (hget : s.heap.get? h = some (.string text)) :
    Reads s (.object h) (.string text.data)
  | tuple {h : Handle} {items : Array Value} {keys : List TableKey}
    (hget : s.heap.get? h = some (.tuple items)) (hsize : items.toList.length = keys.length)
    (hkeys : ∀ e ∈ items.toList.zip keys, Reads s e.1 e.2) : Reads s (.object h) (.tuple keys)
  /-- An instance of a class that overrides neither equality nor hash. -/
  | plain {h owner : Handle} {fields : NameTable}
    (hget : s.heap.get? h = some (.instanceOf owner fields)) (hplain : s.Plain owner) :
    Reads s (.object h) (.object h)
  | identified {h : Handle} {o : Object} (hget : s.heap.get? h = some o)
    (ho : o.isIdentified = true) : Reads s (.object h) (.object h)

variable {s : State} {v w : Value} {k k' : TableKey}

/-- A tuple stands for what its elements stand for. -/
theorem reads_tuple_iff {h : Handle} {items : Array Value} {keys : List TableKey}
    (hget : s.heap.get? h = some (.tuple items)) :
    s.Reads (.object h) (.tuple keys) ↔ List.Forall₂ s.Reads items.toList keys := by
  rw [List.forall₂_iff_zip]
  constructor
  · intro hr
    cases hr with
    | tuple hget' hsize hkeys =>
      rw [hget] at hget'
      cases hget'
      exact ⟨hsize, fun {a b} hmem => hkeys (a, b) hmem⟩
  · rintro ⟨hsize, hkeys⟩
    exact .tuple hget hsize fun e he => hkeys he

/-- What all values of a list stand for is unique if it is for each of them. -/
theorem eq_of_forall₂_unique {values : List Value} {keys keys' : List TableKey}
    (h : List.Forall₂ (fun v k => ∀ k', s.Reads v k' → k = k') values keys)
    (h' : List.Forall₂ s.Reads values keys') : keys = keys' := by
  induction h generalizing keys' with
  | nil =>
    cases h'
    rfl
  | cons hhead _ ih =>
    cases h' with
    | cons hhead' htail' => rw [hhead _ hhead', ih htail']

/-- A value stands for one thing only. -/
theorem Reads.unique (h : s.Reads v k) (h' : s.Reads v k') : k = k' := by
  induction h generalizing k' with
  | number n | bool b | null =>
    cases h'
    rfl
  | tuple hget hsize _ ih =>
    cases h' with
    | tuple hget' hsize' hkeys' =>
      rw [hget] at hget'
      cases hget'
      refine congrArg _ (eq_of_forall₂_unique ?_ ((reads_tuple_iff hget).1 (.tuple hget hsize' hkeys')))
      exact List.forall₂_iff_zip.2 ⟨hsize, fun {a b} hmem k' hk' => ih (a, b) hmem hk'⟩
    | _ => simp_all
  | string hget =>
    cases h' with
    | string hget' =>
      rw [hget] at hget'
      cases hget'
      rfl
    | _ => simp_all
  | plain hget _ =>
    cases h' with
    | plain | identified => rfl
    | _ => simp_all
  | identified hget ho =>
    cases h' with
    | plain | identified => rfl
    | string hget' | tuple hget' =>
      rw [hget] at hget'
      cases hget'
      cases ho

/-- Lists of keys that are equal and stand for values are the same if each of them is. -/
theorem eq_of_equalsAll {values values' : List Value} {keys keys' : List TableKey}
    (h : List.Forall₂ (fun _ k => ∀ w k', s.Reads w k' → k.equals k' = true → k = k') values keys)
    (h' : List.Forall₂ s.Reads values' keys') (heq : TableKey.equalsAll keys keys' = true) :
    keys = keys' := by
  induction h generalizing values' keys' with
  | nil => cases h' <;> first | rfl | cases heq
  | cons hhead _ ih =>
    cases h' with
    | nil => cases heq
    | cons hhead' htail' =>
      rw [TableKey.equalsAll, Bool.and_eq_true] at heq
      rw [hhead _ _ hhead' heq.1, ih htail' heq.2]

/-- Equal values stand for the same. -/
theorem Reads.eq_of_equals (hv : s.Reads v k) (hw : s.Reads w k') (heq : k.equals k' = true) :
    k = k' := by
  induction hv generalizing w k' with
  | number n =>
    cases hw with
    | number n' =>
      rw [TableKey.equals, Number.equals_canonical] at heq
      rw [Number.canonical_eq_of_equals heq]
    | _ => cases heq
  | bool b | null | string _ | plain _ _ | identified _ _ => cases k' <;> simp_all [TableKey.equals]
  | tuple hget hsize _ ih =>
    cases hw with
    | tuple hget' hsize' hkeys' =>
      have hkeys := (reads_tuple_iff hget').1 (.tuple hget' hsize' hkeys')
      refine congrArg _ (eq_of_equalsAll (List.forall₂_iff_zip.2 ⟨hsize, ?_⟩) hkeys heq)
      exact fun hmem w k' hw heq => ih _ hmem hw heq
    | _ => cases heq

/-- A value is a key of tables if it equals itself. -/
structure IsKey (s : State) (v : Value) (k : TableKey) : Prop where
  reads : s.Reads v k
  definite : k.hasNaN = false

/-- Two keys are equal just in case they stand for the same. -/
theorem IsKey.equals_eq (hv : s.IsKey v k) (hw : s.IsKey w k') :
    k.equals k' = decide (k = k') := by
  by_cases heq : k = k'
  · rw [decide_eq_true heq, ← heq, TableKey.equals_self, hv.definite]
    rfl
  · rw [decide_eq_false heq, Bool.eq_false_iff]
    exact fun h => heq (hv.reads.eq_of_equals hw.reads h)

/-! ## What keeps the meaning of values -/

/-- It is enough that of what the value holds, all is kept that it depends on. -/
theorem Reads.mono {t : State} (h : s.Reads v k) (held : Handle → Prop)
    (hv : ∀ x, v = .object x → held x)
    (hkept : ∀ x o, held x → s.heap.get? x = some o →
      ∃ o', t.heap.get? x = some o' ∧ o'.outline = o.outline)
    (htuple : ∀ x items, held x → s.heap.get? x = some (.tuple items) →
      ∀ y, .object y ∈ items → held y)
    (hplain : ∀ x owner fields, held x → s.heap.get? x = some (.instanceOf owner fields) →
      s.Plain owner → t.Plain owner) : t.Reads v k := by
  induction h with
  | number n => exact .number n
  | bool b => exact .bool b
  | null => exact .null
  | string hget =>
    obtain ⟨o, ho, houtline⟩ := hkept _ _ (hv _ rfl) hget
    cases o <;> cases houtline
    exact .string ho
  | tuple hget hsize _ ih =>
    obtain ⟨o, ho, houtline⟩ := hkept _ _ (hv _ rfl) hget
    cases o <;> cases houtline
    refine .tuple ho hsize fun e he => ih e he fun x hx => htuple _ _ (hv _ rfl) hget x ?_
    exact Array.mem_toList_iff.1 (hx ▸ (List.of_mem_zip he).1)
  | plain hget hp =>
    obtain ⟨o, ho, houtline⟩ := hkept _ _ (hv _ rfl) hget
    cases o <;> cases houtline
    exact .plain ho (hplain _ _ _ (hv _ rfl) hget hp)
  | @identified h o hget ho =>
    obtain ⟨o', ho', houtline⟩ := hkept _ _ (hv _ rfl) hget
    exact .identified ho' (Object.isIdentified_iff.2 (houtline.trans (Object.isIdentified_iff.1 ho)))

/-- It is enough that the class itself and the root class are the same. -/
theorem Plain.mono {t : State} {c : Handle} (h : s.Plain c) (hcore : t.core = s.core)
    (hc : t.class? c = s.class? c)
    (hroot : t.class? (s.coreClass .object) = s.class? (s.coreClass .object)) : t.Plain c := by
  intro name hname m hm
  have hclass : t.coreClass .object = s.coreClass .object := by
    unfold coreClass
    rw [hcore]
  have hkey : t.special name = s.special name := by
    unfold special
    rw [hcore]
  unfold method? at *
  rw [hc, hkey] at hm
  rw [hclass, hroot, hkey]
  exact h name hname m hm

/-- A state with the same heap. -/
structure Beside (s t : State) : Prop where
  heap : t.heap = s.heap
  core : t.core = s.core
  settings : t.settings = s.settings
  reentrant : t.reentrant = s.reentrant

/-- Nothing has changed. -/
theorem Beside.refl (s : State) : s.Beside s := ⟨rfl, rfl, rfl, rfl⟩

/-- States that are beside each other, in the other order. -/
theorem Beside.symm {t : State} (h : s.Beside t) : t.Beside s :=
  ⟨h.heap.symm, h.core.symm, h.settings.symm, h.reentrant.symm⟩

/-- States that are beside each other, one after the other. -/
theorem Beside.trans {t u : State} (h : s.Beside t) (h' : t.Beside u) : s.Beside u :=
  ⟨h'.heap.trans h.heap, h'.core.trans h.core, h'.settings.trans h.settings,
    h'.reentrant.trans h.reentrant⟩

/-- Values stand for what they stand for whatever else is on the stack. -/
theorem Reads.beside {t : State} (h : s.Reads v k) (ht : s.Beside t) : t.Reads v k := by
  have hclass : ∀ x, t.class? x = s.class? x := fun x => by
    unfold class?
    rw [ht.heap]
  exact h.mono (fun _ => True) (fun _ _ => trivial)
    (fun x o _ hx => ⟨o, ht.heap ▸ hx, rfl⟩) (fun _ _ _ _ _ _ => trivial)
    fun x owner fields _ _ hp => hp.mono ht.core (hclass _) (hclass _)

/-- A key stays one. -/
theorem IsKey.beside {t : State} (h : s.IsKey v k) (ht : s.Beside t) : t.IsKey v k :=
  ⟨h.reads.beside ht, h.definite⟩

/-- Core classes stay as they are installed. -/
theorem Furnished.beside {t : State} (h : s.Furnished) (ht : s.Beside t) : t.Furnished := by
  obtain ⟨hhashed, hspecials, hmethods⟩ := h
  refine ⟨ht.heap ▸ hhashed, fun e he => ?_, ht.heap ▸ ht.core ▸ hmethods⟩
  unfold special
  rw [ht.heap, ht.core]
  exact hspecials e he

/-! ## Strings and identity -/

/-- A key is a string just in case it stands for one. -/
theorem Reads.string? (h : s.Reads v k) :
    (s.string? v).map (·.data) = match k with
      | .string data => some data
      | _ => none := by
  cases h with
  | string hget | tuple hget | plain hget => simp [State.string?, Heap.string?, hget]
  | @identified x o hget ho =>
    cases o <;> first
      | exact absurd ho Bool.false_ne_true
      | simp [State.string?, Heap.string?, hget]
  | _ => rfl

/-- A tuple is an object of the heap. -/
theorem get?_of_tuple? {items : Array Value} (h : s.tuple? v = some items) :
    ∃ x, v = .object x ∧ s.heap.get? x = some (.tuple items) := by
  unfold tuple? at h
  split at h
  · next x =>
    split at h
    · next hget =>
      obtain rfl := Option.some.inj h
      exact ⟨x, rfl, hget⟩
    · cases h
  · cases h

/-- A list is an object of the heap. -/
theorem get?_of_list? {items : Array Value} (h : s.list? v = some items) :
    ∃ x, v = .object x ∧ s.heap.get? x = some (.list items) := by
  unfold list? at h
  split at h
  · next x =>
    split at h
    · next hget =>
      obtain rfl := Option.some.inj h
      exact ⟨x, rfl, hget⟩
    · cases h
  · cases h

/-- A key is a tuple just in case it stands for one. -/
theorem Reads.tuple? (h : s.Reads v k) :
    match k with
    | .tuple keys => ∃ items, s.tuple? v = some items ∧ List.Forall₂ s.Reads items.toList keys
    | _ => s.tuple? v = none := by
  cases h with
  | tuple hget hsize hkeys =>
    exact ⟨_, by simp [State.tuple?, hget], (reads_tuple_iff hget).1 (.tuple hget hsize hkeys)⟩
  | string hget | plain hget => simp [State.tuple?, hget]
  | @identified x o hget ho =>
    cases o <;> first
      | exact absurd ho Bool.false_ne_true
      | simp [State.tuple?, hget]
  | _ => rfl

/-- An object that is compared by identity is the only value that stands for it. -/
theorem Reads.eq_object {h : Handle} (hv : s.Reads v (.object h)) : v = .object h := by
  cases hv <;> rfl

/-- Objects compared by identity are equal to themselves only. -/
theorem Reads.same_object {h : Handle} (hv : s.Reads (.object h) (.object h))
    (hw : s.Reads w k) : (Value.object h).same w = (TableKey.object h).equals k := by
  by_cases hk : k = .object h
  · subst hk
    obtain rfl := hw.eq_object
    simp [Value.same, TableKey.equals]
  · have hne : (TableKey.object h).equals k = false := by
      cases k <;> simp_all [TableKey.equals, eq_comm]
    rw [hne]
    cases w with
    | object h' =>
      refine beq_eq_false_iff_ne.2 ?_
      rintro rfl
      exact hk (hw.unique hv)
    | _ => rfl

/-! ## Methods for equality and hash -/

section Methods

variable {c : CoreClass} {name : Special}

/-- The name of the method for equality has its key. -/
theorem Furnished.key_eq (hf : s.Furnished) :
    s.heap.lookupKey "__eq__" = some (s.special .eq) :=
  (hf.specials (.eq, "__eq__") (by simp [Special.table])).1

/-- The name of the method for hashes has its key. -/
theorem Furnished.key_hash (hf : s.Furnished) :
    s.heap.lookupKey "__hash__" = some (s.special .hash) :=
  (hf.specials (.hash, "__hash__") (by simp [Special.table])).1

/-- A class of the schedule that declares neither equality nor hash. -/
theorem Furnished.plain (hf : s.Furnished) (hi : s.heap.Interned) {d : CoreClassDecl}
    (hd : CoreClassDecl.schedule[c.index]? = some d) (hparent : d.superclass = some .object)
    (heq : d.own? "__eq__" = none) (hhash : d.own? "__hash__" = none) :
    s.Plain (s.coreClass c) := by
  rintro name (rfl | rfl) m hm
  · rwa [hf.inherited hi hd heq hparent hf.key_eq] at hm
  · rwa [hf.inherited hi hd hhash hparent hf.key_hash] at hm

/-- The class of a key that is compared by identity overrides neither equality nor hash. -/
theorem Reads.class_object (hf : s.Furnished) (hi : s.heap.Interned) {h : Handle}
    (hr : s.Reads (.object h) (.object h)) :
    ∃ o c, s.heap.get? h = some o ∧ (∀ text, o ≠ .string text) ∧
      s.classOf? (.object h) = some c ∧ s.Plain c := by
  cases hr with
  | @plain _ owner fields hget hp =>
    exact ⟨_, owner, hget, fun _ heq => (by cases heq), by simp [classOf?, hget], hp⟩
  | @identified _ o hget ho =>
    cases o <;> first
      | exact ⟨_, _, hget, fun _ heq => (by cases heq), by simp [classOf?, hget]; rfl,
          hf.plain hi rfl rfl rfl rfl⟩
      | cases ho

/-- The root class compares and hashes by identity. -/
theorem Furnished.root (hf : s.Furnished) (hi : s.heap.Interned)
    (hname : name = .eq ∨ name = .hash) :
    ∃ x o, s.method? (s.coreClass .object) (s.special name) = some (.object x) ∧
      s.heap.get? x = some (.native o) ∧
      (o.function = .core .objectEq ∨ o.function = .core .objectHash) := by
  obtain rfl | rfl := hname
  · obtain ⟨x, o, hm, hx, ho⟩ := hf.own hi (c := .object) rfl rfl hf.key_eq
    exact ⟨x, o, hm, hx, .inl ho.function⟩
  · obtain ⟨x, o, hm, hx, ho⟩ := hf.own hi (c := .object) rfl rfl hf.key_hash
    exact ⟨x, o, hm, hx, .inr ho.function⟩

/-- A method that is the root class's is none of the class's own. -/
theorem ownMethod_of_plain (hf : s.Furnished) (hi : s.heap.Interned) {x : Handle}
    (hname : name = .eq ∨ name = .hash) (hc : s.classOf? v = some x) (hp : s.Plain x) :
    Act.ownMethod v name s = .done none s := by
  obtain ⟨r, -, hr, -⟩ := hf.root hi hname
  have hclass : Act.classOf v s = .done x s := Act.require_run _ _ hc
  simp only [Act.ownMethod, Act.findMethod, Act.bind_run, hclass, Proc.bind, Act.gets_run, hr]
  cases hm : s.method? x (s.special name) with
  | none => rfl
  | some m =>
    rw [hp name hname m hm] at hr
    obtain rfl := Option.some.inj hr
    simp [Value.same]

/-- A method with another function than the root class's. -/
theorem ownMethod_of_native (hf : s.Furnished) (hi : s.heap.Interned) {x y : Handle}
    {o : NativeObject} (hname : name = .eq ∨ name = .hash) (hc : s.classOf? v = some x)
    (hm : s.method? x (s.special name) = some (.object y)) (hy : s.heap.get? y = some (.native o))
    (heq : o.function ≠ .core .objectEq) (hhash : o.function ≠ .core .objectHash) :
    Act.ownMethod v name s = .done (some (.object y)) s := by
  obtain ⟨r, o', hr, hget, ho⟩ := hf.root hi hname
  have hclass : Act.classOf v s = .done x s := Act.require_run _ _ hc
  have hne : y ≠ r := by
    rintro rfl
    rw [hget] at hy
    cases hy
    exact ho.elim heq hhash
  simp [Act.ownMethod, Act.findMethod, hclass, hr, hm, Value.same, hne]

end Methods

end State

@[simp] theorem Value.isTruthy_bool (b : Bool) : (Value.bool b).isTruthy = b := by cases b <;> rfl

namespace Act

/-! ## Slots of a function without further arguments -/

section Slots

variable (s : State) (stack : Array Value) (v : Value)

/-- The receiver of a method is in slot zero. -/
theorem getSlot_receiver (args : Array Value) :
    getSlot 0 { s with stack := stack.push v ++ args, apiBase := stack.size } =
      .done v { s with stack := stack.push v ++ args, apiBase := stack.size } := by
  refine require_run _ _ ?_
  simp [State.slotIndex?, Array.getElem?_append]

/-- The argument of a method is in slot one. -/
theorem getSlot_argument (w : Value) :
    getSlot 1 { s with stack := stack.push v ++ #[w], apiBase := stack.size } =
      .done w { s with stack := stack.push v ++ #[w], apiBase := stack.size } := by
  refine require_run _ _ ?_
  simp [State.slotIndex?, Array.getElem_push]

end Slots

/-- What has been pushed is popped. -/
theorem pop_pushed (s : State) (v : Value) :
    pop { s with stack := s.stack.push v } = .done v s := by
  simp [pop, State.top, State.drop]

/-! ## Equality -/

variable {s : State} {a b : Value} {k k' : TableKey}

/-- Lists of values are compared element by element, if each of the elements can be. -/
theorem ends_allEqual {as bs : List Value} {ks ks' : List TableKey} {u : State}
    (h : List.Forall₂ (fun a k => ∀ b k', s.Reads b k' → (equal a b u).Ends (k.equals k') u)
      as ks) (h' : List.Forall₂ s.Reads bs ks') :
    (allEqual as bs u).Ends (TableKey.equalsAll ks ks') u := by
  induction h generalizing bs ks' with
  | nil => cases h' <;> exact .done _ _
  | @cons a k as ks hhead _ ih =>
    cases h' with
    | nil => exact .done _ _
    | @cons b k' bs ks' hhead' htail' =>
      refine ends_bind (hhead b k' hhead') ?_
      rw [TableKey.equalsAll]
      cases k.equals k' with
      | true => simpa using ih htail'
      | false => exact .done false u

/-- So are arrays of values, which have to be of one length. -/
theorem ends_itemsEqual {x y : Array Value} {ks ks' : List TableKey} {u : State}
    (h : List.Forall₂ (fun a k => ∀ b k', s.Reads b k' → (equal a b u).Ends (k.equals k') u)
      x.toList ks) (h' : List.Forall₂ s.Reads y.toList ks') :
    (itemsEqual x y u).Ends (TableKey.equalsAll ks ks') u := by
  unfold itemsEqual
  split
  · exact ends_allEqual h h'
  · next hsize =>
    have hne : TableKey.equalsAll ks ks' = false := by
      rw [Bool.eq_false_iff]
      intro hall
      have hlength := TableKey.length_eq_of_equalsAll hall
      rw [← h.length_eq, ← h'.length_eq] at hlength
      exact hsize (by simpa using hlength)
    rw [hne]
    exact .done _ _

/-- A string compares by its octets. -/
theorem ends_equal_string {h : Handle} {text : StringObject} {u : State}
    (hget : u.heap.get? h = some (.string text)) (hb : u.Reads b k') :
    (equal (.object h) b u).Ends ((TableKey.string text.data).equals k') u := by
  have hobject : object h u = .done (.string text) u := require_run _ _ hget
  refine ends_bind (ends_of_run hobject) (ends_of_run ?_)
  have hstring := hb.string?
  simp only [bind_run, gets_run, Proc.bind]
  cases hs : u.string? b with
  | some y =>
    rw [hs] at hstring
    cases k' with
    | string data =>
      obtain rfl := Option.some.inj hstring
      simp only [pure_run]
      congr 1
      rw [Bool.eq_iff_iff, Heap.beq_octets, TableKey.equals, decide_eq_true_iff]
    | _ => cases hstring
  | none =>
    rw [hs] at hstring
    cases k' with
    | string data => cases hstring
    | _ => rfl

/-- An object that is no string and has no equality of its own compares by identity. -/
theorem ends_equal_identified (hf : s.Furnished) (hi : s.heap.Interned) {h : Handle}
    (ha : s.Reads (.object h) (.object h)) (hb : s.Reads b k') :
    (equal (.object h) b s).Ends ((TableKey.object h).equals k') s := by
  obtain ⟨o, c, hget, ho, hc, hplain⟩ := ha.class_object hf hi
  have hobject : object h s = .done o s := require_run _ _ hget
  have hown := State.ownMethod_of_plain hf hi (.inl rfl) hc hplain
  rw [← ha.same_object hb]
  refine ends_bind (ends_of_run hobject) ?_
  cases o with
  | string text => exact absurd rfl (ho text)
  | _ => exact ends_bind (ends_of_run hown) (.done _ _)

/-- The method of tuples for equality. -/
theorem ends_tupleEq {items : Array Value} {keys : List TableKey} {h : Handle}
    (hget : s.heap.get? h = some (.tuple items))
    (ih : ∀ u, s.Beside u → List.Forall₂ (fun a k => ∀ b k', u.Reads b k' →
      (equal a b u).Ends (k.equals k') u) items.toList keys) (hb : s.Reads b k') :
    (runCore .tupleEq
      { s with stack := s.stack.push (.object h) ++ #[b], apiBase := s.stack.size }).Ends ()
      { s with
        stack := (s.stack.push (.object h) ++ #[b]).push (.bool ((TableKey.tuple keys).equals k'))
        apiBase := s.stack.size } := by
  have hreceiver := getSlot_receiver s s.stack (.object h) #[b]
  have hargument := getSlot_argument s s.stack (.object h) b
  generalize hu : { s with stack := s.stack.push (.object h) ++ #[b], apiBase := s.stack.size } = u
    at *
  have hbeside : s.Beside u := by subst hu; exact ⟨rfl, rfl, rfl, rfl⟩
  have hitems : u.tuple? (.object h) = some items := by
    unfold State.tuple?
    dsimp only
    rw [hbeside.heap, hget]
  refine ends_bind (ends_of_run hreceiver) (ends_bind (ends_of_run hargument) ?_)
  have hb := hb.beside hbeside
  have htuple := hb.tuple?
  have hpush : ∀ r, (pushBool r u).Ends () { u with stack := u.stack.push (.bool r) } :=
    fun r => .done _ _
  simp only [bind_run, gets_run, Proc.bind, hitems]
  cases k' with
  | tuple keys' =>
    obtain ⟨items', hb', hkeys'⟩ := htuple
    rw [hb', TableKey.equals]
    subst hu
    exact ends_bind (ends_itemsEqual (ih _ hbeside) hkeys') (hpush _)
  | _ =>
    rw [htuple]
    subst hu
    exact hpush false

/-- Values compare as what they stand for. Only tuples call a method for that. -/
theorem ends_equal (hf : s.Furnished) (hi : s.heap.Interned)
    (hroom : (∃ items, k = .tuple items) → s.reentrant < s.settings.maxReentrant)
    (ha : s.Reads a k) :
    ∀ u, s.Beside u → ∀ b k', u.Reads b k' → (equal a b u).Ends (k.equals k') u := by
  induction ha with
  | number n =>
    intro u hu b k' hb
    refine ends_of_run ?_
    cases hb with
    | number n' => rw [TableKey.equals, Number.equals_canonical]; rfl
    | _ => rfl
  | bool x =>
    intro u hu b k' hb
    refine ends_of_run ?_
    cases hb <;> rfl
  | null =>
    intro u hu b k' hb
    refine ends_of_run ?_
    cases hb <;> rfl
  | string hget => exact fun u hu b k' hb => ends_equal_string (hu.heap ▸ hget) hb
  | plain hget hp =>
    exact fun u hu b k' hb => ends_equal_identified (hf.beside hu) (hu.heap ▸ hi)
      ((State.Reads.plain hget hp).beside hu) hb
  | identified hget ho =>
    exact fun u hu b k' hb => ends_equal_identified (hf.beside hu) (hu.heap ▸ hi)
      ((State.Reads.identified hget ho).beside hu) hb
  | @tuple h items keys hget hsize hkeys ih =>
    intro u hu b k' hb
    have hgetu : u.heap.get? h = some (.tuple items) := hu.heap ▸ hget
    have hiu : u.heap.Interned := hu.heap ▸ hi
    obtain ⟨y, o, hm, hy, ho⟩ := (hf.beside hu).own hiu (c := .tuple) rfl rfl (hf.beside hu).key_eq
    have hobject : object h u = .done (.tuple items) u := require_run _ _ hgetu
    have hown := State.ownMethod_of_native (hf.beside hu) hiu (.inl rfl)
      (v := .object h) (by simp [State.classOf?, hgetu]) hm hy (by simp [ho.function])
      (by simp [ho.function])
    have heach : ∀ w, u.Beside w → List.Forall₂ (fun a k => ∀ b k', w.Reads b k' →
        (equal a b w).Ends (k.equals k') w) items.toList keys := fun w hw =>
      List.forall₂_iff_zip.2 ⟨hsize, fun hmem => ih _ hmem (fun _ => hroom ⟨_, rfl⟩) w (hu.trans hw)⟩
    have hcall := ends_callMethodSync (hu.settings ▸ hu.reentrant ▸ hroom ⟨_, rfl⟩) hy ho rfl rfl rfl
      (ends_tupleEq hgetu heach hb)
    rw [← Array.push_eq_append] at hcall
    refine ends_bind (ends_of_run hobject) (ends_bind (ends_of_run hown) ?_)
    refine ends_bind (.done () _) (ends_bind (.done () _) (ends_bind hcall ?_))
    refine ends_bind (ends_of_run (pop_pushed u _)) ?_
    rw [Value.isTruthy_bool]
    exact .done _ u

/-! ## Hashes -/

/-- The hash of a list of values, if each of them has one. -/
theorem ends_hashItems {values : List Value} {keys : List TableKey} {u : State}
    (h : List.Forall₂ (fun v k => (hash v u).Ends k.hash u) values keys) (seed : UInt64) :
    (hashItems seed values u).Ends (TableKey.hashAll seed keys) u := by
  induction h generalizing seed with
  | nil => exact .done _ _
  | cons hhead _ ih => exact ends_bind hhead (ih _)

/-- The method of tuples for hashes. -/
theorem ends_tupleHash {items : Array Value} {keys : List TableKey} {h : Handle}
    (hget : s.heap.get? h = some (.tuple items))
    (ih : ∀ u, s.Beside u → List.Forall₂ (fun v k => (hash v u).Ends k.hash u) items.toList keys) :
    (runCore .tupleHash
      { s with stack := s.stack.push (.object h) ++ #[], apiBase := s.stack.size }).Ends ()
      { s with
        stack := (s.stack.push (.object h) ++ #[]).push
          (.number (.ofNat ((TableKey.hashAll 0x345678 keys).toNat % pow2 53)))
        apiBase := s.stack.size } := by
  have hreceiver := getSlot_receiver s s.stack (.object h) #[]
  generalize hu : { s with stack := s.stack.push (.object h) ++ #[], apiBase := s.stack.size } = u
    at *
  have hbeside : s.Beside u := by subst hu; exact ⟨rfl, rfl, rfl, rfl⟩
  have hitems : u.tuple? (.object h) = some items := by
    unfold State.tuple?
    dsimp only
    rw [hbeside.heap, hget]
  refine ends_bind (ends_of_run hreceiver) ?_
  simp only [bind_run, gets_run, Proc.bind, hitems, Option.getD_some]
  refine ends_bind (ends_hashItems (ih u hbeside) _) ?_
  subst hu
  exact .done _ _

/-- An object that is no string and has no hash of its own hashes by identity. -/
theorem ends_hash_identified (hf : s.Furnished) (hi : s.heap.Interned) {h : Handle}
    (ha : s.Reads (.object h) (.object h)) :
    (hash (.object h) s).Ends (TableKey.object h).hash s := by
  obtain ⟨o, c, hget, ho, hc, hplain⟩ := ha.class_object hf hi
  have hobject : object h s = .done o s := require_run _ _ hget
  have hown := State.ownMethod_of_plain hf hi (.inr rfl) hc hplain
  refine ends_bind (ends_of_run hobject) ?_
  cases o with
  | string text => exact absurd rfl (ho text)
  | _ => exact ends_bind (ends_of_run hown) (.done _ _)

/-- Values that stand for the same have the same hash. -/
theorem ends_hash (hf : s.Furnished) (hi : s.heap.Interned)
    (hroom : (∃ items, k = .tuple items) → s.reentrant < s.settings.maxReentrant)
    (ha : s.Reads a k) :
    ∀ u, s.Beside u → (hash a u).Ends k.hash u := by
  induction ha with
  | number n =>
    intro u hu
    rw [TableKey.hash, Number.keyHash_canonical]
    exact .done _ _
  | bool x =>
    intro u hu
    cases x <;> exact .done _ _
  | null => exact fun u hu => .done _ _
  | @string h text hget =>
    intro u hu
    have hobject : object h u = .done (.string text) u := require_run _ _ (hu.heap ▸ hget)
    rw [TableKey.hash, ← hf.hashed _ _ hget]
    exact ends_bind (ends_of_run hobject) (.done _ _)
  | plain hget hp =>
    exact fun u hu => ends_hash_identified (hf.beside hu) (hu.heap ▸ hi)
      ((State.Reads.plain hget hp).beside hu)
  | identified hget ho =>
    exact fun u hu => ends_hash_identified (hf.beside hu) (hu.heap ▸ hi)
      ((State.Reads.identified hget ho).beside hu)
  | @tuple h items keys hget hsize hkeys ih =>
    intro u hu
    have hgetu : u.heap.get? h = some (.tuple items) := hu.heap ▸ hget
    have hiu : u.heap.Interned := hu.heap ▸ hi
    obtain ⟨y, o, hm, hy, ho⟩ := (hf.beside hu).own hiu (c := .tuple) rfl rfl
      (hf.beside hu).key_hash
    have hobject : object h u = .done (.tuple items) u := require_run _ _ hgetu
    have hown := State.ownMethod_of_native (hf.beside hu) hiu (.inr rfl)
      (v := .object h) (by simp [State.classOf?, hgetu]) hm hy (by simp [ho.function])
      (by simp [ho.function])
    have heach : ∀ w, u.Beside w → List.Forall₂ (fun v k => (hash v w).Ends k.hash w)
        items.toList keys := fun w hw =>
      List.forall₂_iff_zip.2 ⟨hsize, fun hmem => ih _ hmem (fun _ => hroom ⟨_, rfl⟩) w (hu.trans hw)⟩
    have hcall := ends_callMethodSync (hu.settings ▸ hu.reentrant ▸ hroom ⟨_, rfl⟩) hy ho rfl rfl rfl
      (ends_tupleHash hgetu heach)
    rw [Array.append_empty] at hcall
    refine ends_bind (ends_of_run hobject) (ends_bind (ends_of_run hown) ?_)
    refine ends_bind (.done () _) (ends_bind hcall ?_)
    exact ends_bind (ends_of_run (pop_pushed u _)) (.done _ u)

end Act

end ScriptEngine
