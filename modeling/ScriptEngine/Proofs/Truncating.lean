import ScriptEngine.Proofs.Archiving

/-!
# Stored modules that were cut short

A reader of MessagePack looks at no octet behind the value it reads, so octets that follow the value
change nothing but what is left. A stored module is one value that reaches to the last octet. Hence
a proper beginning of it holds no value: were one read there, the same one would be read from the
whole, with octets left over. The lengths of the format's headers are the one condition: a list that
no header can announce is announced shorter than it is.
-/

namespace ScriptEngine.Bytecode

namespace Packed

/-! ## Octets behind a value -/

section

variable {α β : Type} {item : Reader Packed} {levels : Nat} {input rest : List UInt8} {p : Packed}

/-- A reader that looks at no octet behind what it reads. -/
structure Streams (r : Reader α) : Prop where
  /-- Octets added at the end are left over, and change nothing else. -/
  append : ∀ {input x rest}, r input = some (x, rest) →
    ∀ more, r (input ++ more) = some (x, rest ++ more)

/-- Reading nothing. -/
theorem streams_pure (x : α) : Streams fun input => some (x, input) := by
  refine ⟨fun {input y rest} h more => ?_⟩
  obtain ⟨rfl, rfl⟩ := Prod.mk.inj (Option.some.inj h)
  rfl

/-- What was read may be changed. -/
theorem Streams.map {r : Reader α} (h : Streams r) (f : α → β) :
    Streams fun input => (r input).map fun (x, rest) => (f x, rest) := by
  refine ⟨fun {input y rest} mapped more => ?_⟩
  obtain ⟨⟨x, left⟩, read, eq⟩ := Option.map_eq_some_iff.1 mapped
  obtain ⟨rfl, rfl⟩ := Prod.mk.inj eq
  simp [h.append read more]

/-- One reader after another. -/
theorem Streams.bind {r : Reader α} {k : α → Reader β} (h : Streams r)
    (next : ∀ x, Streams (k x)) : Streams fun input => (r input).bind fun (x, rest) => k x rest := by
  refine ⟨fun {input y rest} bound more => ?_⟩
  obtain ⟨⟨x, left⟩, read, read'⟩ := Option.bind_eq_some_iff.1 bound
  simp [h.append read more, (next x).append read' more]

/-- Taking octets. -/
theorem streams_take (n : Nat) : Streams (take n) := by
  refine ⟨fun {input taken rest} h more => ?_⟩
  obtain ⟨rfl, length⟩ := take_eq_some.1 h
  exact take_eq_some.2 ⟨List.append_assoc _ _ _, length⟩

/-- Taking a number. -/
theorem streams_takeNat (width : Nat) : Streams (takeNat width) :=
  (streams_take width).map ofBigEndian

/-- Taking an integer. -/
theorem streams_takeInt (width : Nat) : Streams (takeInt width) :=
  (streams_takeNat width).map fun n =>
    if n < pow2 (8 * width - 1) then (n : Int) else (n : Int) - pow2 (8 * width)

/-- Octets behind a count. -/
theorem streams_readSized (wrap : List UInt8 → Packed) (width : Nat) :
    Streams (readSized wrap width) := by
  refine ⟨fun {input p rest} h more => ?_⟩
  unfold readSized at h ⊢
  split at h
  · cases h
  · next n left length =>
    have value := ((streams_take n).map wrap).append h more
    simpa [(streams_takeNat width).append length more] using value

/-- An extension. -/
theorem streams_readExtension (n : Nat) : Streams (readExtension n) := by
  refine ⟨fun {input p rest} h more => ?_⟩
  cases input with
  | nil => cases h
  | cons kind input => exact ((streams_take n).map (Packed.extension kind)).append h more

/-- Items. -/
theorem streams_readItems (inside : Streams item) (count : Nat) :
    Streams (readItems item count) := by
  induction count with
  | zero => exact streams_pure []
  | succ count ih =>
    refine ⟨fun {input items rest} h more => ?_⟩
    obtain ⟨p, left, others, first, read, rfl⟩ := readItems_succ.1 h
    exact readItems_succ.2 ⟨p, left ++ more, others, inside.append first more,
      ih.append read more, rfl⟩

/-- Entries. -/
theorem streams_readEntries (inside : Streams item) (count : Nat) :
    Streams (readEntries item count) := by
  induction count with
  | zero => exact streams_pure []
  | succ count ih =>
    refine ⟨fun {input entries rest} h more => ?_⟩
    obtain ⟨k, v, left, left', others, key, value, read, rfl⟩ := readEntries_succ.1 h
    exact readEntries_succ.2 ⟨k, v, left ++ more, left' ++ more, others, 
      inside.append key more, inside.append value more, ih.append read more, rfl⟩

/-- A list. -/
theorem streams_readArray (inside : Streams item) (count : Nat) :
    Streams (readArray item count) :=
  (streams_readItems inside count).map Packed.array

/-- A map. -/
theorem streams_readMap (inside : Streams item) (count : Nat) : Streams (readMap item count) :=
  (streams_readEntries inside count).map Packed.map

/-- A value by its tag. -/
theorem streams_readTagged (inside : Streams item) (tag : Nat) :
    Streams (readTagged item tag) := by
  refine ⟨fun {input p rest} h more => ?_⟩
  unfold readTagged at h ⊢
  split_ifs at h ⊢
  · exact (streams_pure _).append h more
  · exact (streams_readMap inside _).append h more
  · exact (streams_readArray inside _).append h more
  · exact ((streams_take _).map Packed.text).append h more
  · exact (streams_pure _).append h more
  · split at h
    case h_1 | h_2 | h_3 => exact (streams_pure _).append h more
    case h_4 | h_5 | h_6 | h_25 | h_26 | h_27 => exact (streams_readSized _ _).append h more
    case h_7 | h_8 | h_9 => exact ((streams_takeNat _).bind streams_readExtension).append h more
    case h_10 => exact ((streams_takeNat _).map (fun n => Packed.float (ofSingle n))).append h more
    case h_11 => exact ((streams_takeNat _).map (fun n => Packed.float ⟨UInt64.ofNat n⟩)).append h more
    case h_12 | h_13 | h_14 | h_15 => exact ((streams_takeNat _).map Packed.unsigned).append h more
    case h_16 | h_17 | h_18 | h_19 => exact ((streams_takeInt _).map Packed.signed).append h more
    case h_20 | h_21 | h_22 | h_23 | h_24 => exact (streams_readExtension _).append h more
    case h_28 | h_29 => exact ((streams_takeNat _).bind (streams_readArray inside)).append h more
    case h_30 | h_31 => exact ((streams_takeNat _).bind (streams_readMap inside)).append h more
    case h_32 => cases h

/-- Any value. -/
theorem streams_read (levels : Nat) : Streams (read levels) := by
  induction levels with
  | zero =>
    refine ⟨fun {input p rest} h => ?_⟩
    cases h
  | succ levels ih =>
    refine ⟨fun {input p rest} h more => ?_⟩
    cases input with
    | nil => cases h
    | cons tag input => exact (streams_readTagged ih tag.toNat).append h more

/-- No value is read from a proper beginning of a value's octets. -/
theorem read_beginning {cut left : List UInt8} (simple : Simple p) (sized : Sized p)
    (whole : cut ++ left = octets p) (missing : left ≠ []) : read levels cut = none := by
  by_contra some
  obtain ⟨⟨q, rest⟩, value⟩ := Option.ne_none_iff_exists'.1 some
  -- with levels to spare the whole is read too, as the same value with octets left over
  have value := read_mono (Nat.le_max_left levels (height p)) value
  have more := (streams_read _).append value left
  have all := read_octets p _ [] simple sized (Nat.le_max_right levels (height p))
  rw [List.append_nil, ← whole, more] at all
  exact missing (List.append_eq_nil_iff.1 (Prod.mk.inj (Option.some.inj all)).2).2

end

end Packed

/-! ## Stored modules -/

open Packed

/-- The octets in front of the module itself. -/
def headerLength : Nat := signature.length + 2

/-- Fewer octets than a header has are no module. -/
theorem load_short {octets : List UInt8} (short : octets.length < headerLength) :
    Module.load octets = .error .notBytecode := by
  have few : (octets.drop 4).length < 2 := by
    have : octets.length < 6 := short
    rw [List.length_drop]
    omega
  unfold Module.load
  split
  · next major minor body after =>
    simp only [after, List.length_cons] at few
    omega
  · rfl

/-- A body without a value cannot be decoded. -/
theorem load_of_read_none {body : List UInt8} (h : read (2 * maxDepth + 1) body = none) :
    Module.load (signature ++ [formatVersion.1, formatVersion.2] ++ body) =
      .error .undecodable := by
  simp [Module.load, hasSignature, signature, h]

/-- A stored module that was cut short is never read as a module: without a whole header it is no
bytecode, and otherwise it cannot be decoded. -/
theorem Module.load_truncated (m : Module) (fits : Sized (packModule m)) (cut : List UInt8)
    (beginning : cut <+: m.store) (shorter : cut ≠ m.store) :
    Module.load cut =
      .error (if cut.length < headerLength then .notBytecode else .undecodable) := by
  split_ifs with short
  · exact load_short short
  · have record := record_packModule m
    obtain ⟨left, whole⟩ := beginning
    have missing : left ≠ [] := by
      rintro rfl
      exact shorter (by rw [← whole, List.append_nil])
    -- the header is whole, so what is missing is missing from the module behind it
    have stored : m.store =
        signature ++ [formatVersion.1, formatVersion.2] ++ octets (packModule m) := by
      rw [Module.store, toList_write_nil, List.append_nil]
    have header : signature ++ [formatVersion.1, formatVersion.2] <+: cut :=
      List.prefix_of_prefix_length_le ⟨_, stored.symm⟩ ⟨left, whole⟩ (Nat.le_of_not_lt short)
    obtain ⟨body, rfl⟩ := header
    rw [stored, List.append_assoc] at whole
    have rest : body ++ left = octets (packModule m) := List.append_cancel_left whole
    exact load_of_read_none (read_beginning record.simple fits rest missing)

/-- The first ten octets of a stored module, which end inside its file name, do not decode. -/
theorem Module.load_truncated_closureModule :
    Module.load (closureModule.store.take 10) = .error .undecodable := by
  have shorter : closureModule.store.take 10 ≠ closureModule.store := by
    intro same
    have few : closureModule.store.length ≤ 10 := by
      simpa using congrArg List.length same
    have front : octets (packModule closureModule) = arrayHeader 2 ++
        (octets (packString "demo") ++ itemOctets [packProto closureModule.main]) := rfl
    have name : (octets (packString "demo")).length = 5 := by
      simp only [packString, octets, List.length_append, length_toUTF8]
      decide
    rw [Module.store, toList_write_nil, front] at few
    simp only [signature, name, List.length_append, List.length_cons] at few
    omega
  have cut := load_truncated closureModule sized_closureModule
    (closureModule.store.take 10) (List.take_prefix _ _) shorter
  rwa [if_neg (by decide)] at cut

/-! ## A list that is longer than its header can say -/

/-- A module of two instructions whose line table has `n` runs. -/
def runsModule (n : Nat) : Module where
  file := "f"
  main :=
    { name := "", arity := 0, defaults := #[], vararg := false, upvalueCount := 0
      chunk := ⟨#[.null, .return], #[], ⟨Array.replicate n ⟨1, 2⟩⟩⟩ }

/-- What is stored of such a module in front of its line table, which comes last. -/
def runsFront : List UInt8 :=
  signature ++ [formatVersion.1, formatVersion.2] ++ arrayHeader 2 ++ octets (packString "f") ++
    arrayHeader 6 ++ itemOctets [packString "", .unsigned 0, .array [], .bool false, .unsigned 0] ++
    arrayHeader 3 ++ itemOctets [.array [packOp .null, packOp .return], .array []] ++ arrayHeader 1

/-- Items one after the other. -/
theorem itemOctets_append (items items' : List Packed) :
    itemOctets (items ++ items') = itemOctets items ++ itemOctets items' := by
  induction items with
  | nil => rfl
  | cons p rest ih => rw [List.cons_append, itemOctets, itemOctets, ih, List.append_assoc]

/-- The octets of a module with many runs of lines. -/
theorem store_runsModule (n : Nat) :
    (runsModule n).store =
      runsFront ++ arrayHeader (lengthWord n) ++ itemOctets (List.replicate n (packRun ⟨1, 2⟩)) := by
  have table : packLines ⟨Array.replicate n ⟨1, 2⟩⟩ =
      .array [.array (List.replicate n (packRun ⟨1, 2⟩))] := by
    simp [packLines]
  have main : packProto (runsModule n).main =
      .array [packString "", .unsigned 0, .array [], .bool false, .unsigned 0,
        .array [.array [packOp .null, packOp .return], .array [],
          packLines ⟨Array.replicate n ⟨1, 2⟩⟩]] := rfl
  have header : ∀ k ≤ 6, lengthWord k = k := by decide
  rw [Module.store, toList_write_nil, packModule, main, table]
  simp [runsModule, runsFront, octets, itemOctets, header]

/-- Where the table has as many runs as its header says and `more`, all that is stored of it up to
these is what is stored of the module without them. -/
theorem store_runsModule_of_wraps {n more : Nat} (wraps : lengthWord (n + more) = lengthWord n) :
    (runsModule (n + more)).store =
      (runsModule n).store ++ itemOctets (List.replicate more (packRun ⟨1, 2⟩)) := by
  rw [store_runsModule, store_runsModule, wraps, ← List.replicate_append_replicate, itemOctets_append,
    List.append_assoc, List.append_assoc, List.append_assoc]

/-- Runs of lines take up octets. -/
theorem itemOctets_replicate_ne_nil {n : Nat} (some : 0 < n) :
    itemOctets (List.replicate n (packRun ⟨1, 2⟩)) ≠ [] := by
  obtain ⟨n, rfl⟩ := Nat.exists_eq_add_of_lt some
  have first : octets (packRun ⟨1, 2⟩) ≠ [] := by decide
  rw [Nat.zero_add, List.replicate_succ, itemOctets]
  exact fun nil => first (List.append_eq_nil_iff.1 nil).1

/-- Of a module whose line table has `2 ^ 32 + 1` runs, which the header of the table counts modulo
`2 ^ 32`, the octets up to and with the first run are read as a module with that one run. -/
theorem Module.load_truncated_runsModule :
    (runsModule 1).store <+: (runsModule (1 + 2 ^ 32)).store ∧
    (runsModule 1).store ≠ (runsModule (1 + 2 ^ 32)).store ∧
    Module.load (runsModule 1).store = .ok (runsModule 1) := by
  have longer := store_runsModule_of_wraps
    (show lengthWord (1 + 2 ^ 32) = lengthWord 1 from Nat.add_mod_right _ _)
  refine ⟨⟨_, longer.symm⟩, fun equal => ?_, Storable.load_store ?_⟩
  · rw [longer, List.self_eq_append_right] at equal
    exact itemOctets_replicate_ne_nil (Nat.two_pow_pos 32) equal
  · refine ⟨by decide, by decide, ?_⟩
    simp [runsModule, packModule, packProto, packConstants, packLines, packRun, packOp_eq,
      packNamed, packString, Op.named, Sized, SizedItems]
    decide

end ScriptEngine.Bytecode
