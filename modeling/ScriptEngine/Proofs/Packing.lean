import Mathlib.Tactic.Ring
import ScriptEngine.Bytecode.Packed

/-!
# Packed values as octets

Writing a value and reading the octets back gives the value again and leaves whatever follows it,
provided that the lengths in the value fit the widest length field of the format and that the
reader may descend far enough. Conversely a value that was read has lengths that fit, and reading
with more levels to spare finds the same value.
-/

namespace ScriptEngine.Bytecode.Packed

/-! ## Numbers in octets -/

@[simp] theorem length_bigEndian (width n : Nat) : (bigEndian width n).length = width := by
  induction width with
  | zero => rfl
  | succ width ih => simp [bigEndian, ih]

/-- Widths in octets as powers of two. -/
theorem pow2_octets (width : Nat) : pow2 (8 * width) = 256 ^ width := by
  rw [show pow2 (8 * width) = 2 ^ (8 * width) from rfl, Nat.pow_mul]

/-- Reading the octets of a number behind some others keeps what its width can hold. -/
theorem foldl_bigEndian (width n before : Nat) :
    (bigEndian width n).foldl (fun n b => n * 256 + b.toNat) before =
      before * 256 ^ width + n % 256 ^ width := by
  induction width generalizing before with
  | zero => simp [bigEndian, Nat.mod_one]
  | succ width ih =>
    have split : n % 256 ^ (width + 1) = n % 256 ^ width + 256 ^ width * (n / 256 ^ width % 256) := by
      rw [Nat.pow_succ, Nat.mod_mul]
    rw [bigEndian, List.foldl_cons, ih, pow2_octets, UInt8.toNat_ofNat', split]
    ring

/-- A length that fits the widest length field is held as it is. -/
theorem lengthWord_of_lt {n : Nat} (h : n < 2 ^ 32) : lengthWord n = n := Nat.mod_eq_of_lt h

/-- A number written to octets is read back. -/
theorem ofBigEndian_bigEndian {width n : Nat} (h : n < 256 ^ width) :
    ofBigEndian (bigEndian width n) = n := by
  rw [ofBigEndian, foldl_bigEndian, Nat.zero_mul, Nat.zero_add, Nat.mod_eq_of_lt h]

/-- Octets read behind a number. -/
theorem foldl_octets_lt (octets : List UInt8) (before : Nat) :
    octets.foldl (fun n b => n * 256 + b.toNat) before < (before + 1) * 256 ^ octets.length := by
  induction octets generalizing before with
  | nil => simp
  | cons b rest ih =>
    have small : before * 256 + b.toNat + 1 ≤ (before + 1) * 256 := by
      have := b.toNat_lt
      omega
    calc
      _ < (before * 256 + b.toNat + 1) * 256 ^ rest.length := ih _
      _ ≤ (before + 1) * 256 * 256 ^ rest.length := Nat.mul_le_mul_right _ small
      _ = (before + 1) * 256 ^ (b :: rest).length := by rw [List.length_cons]; ring

/-- What some octets spell is bounded by their number. -/
theorem ofBigEndian_lt (octets : List UInt8) : ofBigEndian octets < 256 ^ octets.length := by
  simpa [ofBigEndian] using foldl_octets_lt octets 0

/-! ## Taking octets -/

section

variable {n width : Nat} {input rest taken : List UInt8}

/-- Taking octets splits the input. -/
theorem take_eq_some :
    take n input = some (taken, rest) ↔ input = taken ++ rest ∧ taken.length = n := by
  induction n generalizing input taken with
  | zero => cases taken <;> simp [take]
  | succ n ih =>
    cases input with
    | nil => cases taken <;> simp [take]
    | cons b input =>
      cases taken with
      | nil => simp [take]
      | cons o taken =>
        simp only [take, Option.map_eq_some_iff, Prod.exists, Prod.mk.injEq, List.cons.injEq,
          List.cons_append, List.length_cons, Nat.add_right_cancel_iff]
        grind

@[simp] theorem take_append : take taken.length (taken ++ rest) = some (taken, rest) :=
  take_eq_some.2 ⟨rfl, rfl⟩

/-- Taking a number that was written. -/
theorem takeNat_bigEndian (width : Nat) (h : n < 256 ^ width) :
    takeNat width (bigEndian width n ++ rest) = some (n, rest) := by
  have taken : take width (bigEndian width n ++ rest) = some (bigEndian width n, rest) :=
    take_eq_some.2 ⟨rfl, length_bigEndian width n⟩
  simp [takeNat, taken, ofBigEndian_bigEndian h]

/-- A number that was taken is bounded by the octets taken. -/
theorem takeNat_lt (h : takeNat width input = some (n, rest)) : n < 256 ^ width := by
  obtain ⟨⟨taken, left⟩, ht, eq⟩ := Option.map_eq_some_iff.1 h
  obtain ⟨rfl, rfl⟩ := Prod.mk.inj eq
  exact (take_eq_some.1 ht).2 ▸ ofBigEndian_lt taken

end

/-! ## What writing appends -/

mutual

/-- The octets of a value. -/
def octets : Packed → List UInt8
  | .nil => [0xc0]
  | .bool b => [if b then 0xc3 else 0xc2]
  | .unsigned n => unsignedOctets n
  | .signed i => if i < 0 then negativeOctets i else unsignedOctets i.toNat
  | .float n => 0xcb :: bigEndian 8 n.bits.toNat
  | .text o => textHeader (lengthWord o.length) ++ o
  | .binary o => binaryHeader (lengthWord o.length) ++ o
  | .array items => arrayHeader (lengthWord items.length) ++ itemOctets items
  | .map entries => mapHeader (lengthWord entries.length) ++ entryOctets entries
  | .extension kind o => extensionHeader (lengthWord o.length) ++ kind :: o

/-- The octets of values one after another. -/
def itemOctets : List Packed → List UInt8
  | [] => []
  | p :: rest => octets p ++ itemOctets rest

/-- The octets of keys and values one after another. -/
def entryOctets : List (Packed × Packed) → List UInt8
  | [] => []
  | (k, v) :: rest => octets k ++ (octets v ++ entryOctets rest)

end

mutual

/-- Writing appends the octets of a value. -/
theorem toList_write (out : Array UInt8) (p : Packed) :
    (write out p).toList = out.toList ++ octets p := by
  cases p with
  | array items => simp [write, octets, toList_writeItems]
  | map entries => simp [write, octets, toList_writeEntries]
  | _ => simp [write, octets]

/-- So it does for items. -/
theorem toList_writeItems (out : Array UInt8) (items : List Packed) :
    (writeItems out items).toList = out.toList ++ itemOctets items := by
  cases items with
  | nil => simp [writeItems, itemOctets]
  | cons p rest => simp [writeItems, itemOctets, toList_writeItems, toList_write]

/-- So it does for entries. -/
theorem toList_writeEntries (out : Array UInt8) (entries : List (Packed × Packed)) :
    (writeEntries out entries).toList = out.toList ++ entryOctets entries := by
  match entries with
  | [] => simp [writeEntries, entryOctets]
  | (k, v) :: rest => simp [writeEntries, entryOctets, toList_writeEntries, toList_write]

end

/-! ## Headers -/

section

variable {n levels : Nat} {rest : List UInt8}

/-- The header of a number. -/
theorem read_unsignedOctets (h : n < 2 ^ 64) :
    read (levels + 1) (unsignedOctets n ++ rest) = some (.unsigned n, rest) := by
  unfold unsignedOctets
  split_ifs with h₁ h₂ h₃ h₄
  · have tag : (UInt8.ofNat n).toNat = n := by rw [UInt8.toNat_ofNat']; omega
    simp [read, readTagged, tag, h₁]
  · simp [read, readTagged, takeNat_bigEndian 1 h₂]
  · simp [read, readTagged, takeNat_bigEndian 2 h₃]
  · simp [read, readTagged, takeNat_bigEndian 4 h₄]
  · simp [read, readTagged, takeNat_bigEndian 8 h]

/-- The header of a text. -/
theorem read_textHeader (h : n < 2 ^ 32) :
    read (levels + 1) (textHeader n ++ rest) =
      (take n rest).map fun (o, rest) => (.text o, rest) := by
  unfold textHeader
  split_ifs with h₁ h₂ h₃
  · have tag : (UInt8.ofNat (0xa0 + n)).toNat = 0xa0 + n := by rw [UInt8.toNat_ofNat']; omega
    rw [List.singleton_append, read, tag, readTagged, if_neg (by omega), if_neg (by omega),
      if_neg (by omega), if_pos (by omega), Nat.add_sub_cancel_left]
  · simp [read, readTagged, readSized, takeNat_bigEndian 1 h₂]
  · simp [read, readTagged, readSized, takeNat_bigEndian 2 h₃]
  · simp [read, readTagged, readSized, takeNat_bigEndian 4 h]

/-- The header of raw octets. -/
theorem read_binaryHeader (h : n < 2 ^ 32) :
    read (levels + 1) (binaryHeader n ++ rest) =
      (take n rest).map fun (o, rest) => (.binary o, rest) := by
  unfold binaryHeader
  split_ifs with h₁ h₂
  · simp [read, readTagged, readSized, takeNat_bigEndian 1 h₁]
  · simp [read, readTagged, readSized, takeNat_bigEndian 2 h₂]
  · simp [read, readTagged, readSized, takeNat_bigEndian 4 h]

/-- The header of a list. -/
theorem read_arrayHeader (h : n < 2 ^ 32) :
    read (levels + 1) (arrayHeader n ++ rest) = readArray (read levels) n rest := by
  unfold arrayHeader
  split_ifs with h₁ h₂
  · have tag : (UInt8.ofNat (0x90 + n)).toNat = 0x90 + n := by rw [UInt8.toNat_ofNat']; omega
    rw [List.singleton_append, read, tag, readTagged, if_neg (by omega), if_neg (by omega),
      if_pos (by omega), Nat.add_sub_cancel_left]
  · simp [read, readTagged, takeNat_bigEndian 2 h₂]
  · simp [read, readTagged, takeNat_bigEndian 4 h]

/-- The header of a map. -/
theorem read_mapHeader (h : n < 2 ^ 32) :
    read (levels + 1) (mapHeader n ++ rest) = readMap (read levels) n rest := by
  unfold mapHeader
  split_ifs with h₁ h₂
  · have tag : (UInt8.ofNat (0x80 + n)).toNat = 0x80 + n := by rw [UInt8.toNat_ofNat']; omega
    rw [List.singleton_append, read, tag, readTagged, if_neg (by omega), if_pos (by omega),
      Nat.add_sub_cancel_left]
  · simp [read, readTagged, takeNat_bigEndian 2 h₂]
  · simp [read, readTagged, takeNat_bigEndian 4 h]

end

/-! ## Reading what was written -/

mutual

/-- The levels a reader needs for a value, itself included. -/
def height : Packed → Nat
  | .array items => itemHeight items + 1
  | .map entries => entryHeight entries + 1
  | _ => 1

/-- The levels a reader needs for the highest of some values. -/
def itemHeight : List Packed → Nat
  | [] => 0
  | p :: rest => max (height p) (itemHeight rest)

/-- The levels a reader needs for the highest of some keys and values. -/
def entryHeight : List (Packed × Packed) → Nat
  | [] => 0
  | (k, v) :: rest => max (max (height k) (height v)) (entryHeight rest)

end

mutual

/-- Whether every length in a value fits the widest length field, which has 32 bits. -/
def Sized : Packed → Prop
  | .text o | .binary o | .extension _ o => o.length < 2 ^ 32
  | .array items => items.length < 2 ^ 32 ∧ SizedItems items
  | .map entries => entries.length < 2 ^ 32 ∧ SizedEntries entries
  | _ => True

/-- Whether every length in some values fits. -/
def SizedItems : List Packed → Prop
  | [] => True
  | p :: rest => Sized p ∧ SizedItems rest

/-- Whether every length in some keys and values fits. -/
def SizedEntries : List (Packed × Packed) → Prop
  | [] => True
  | (k, v) :: rest => Sized k ∧ Sized v ∧ SizedEntries rest

end

mutual

/-- Decides whether the lengths in a value fit. -/
def decideSized : (p : Packed) → Decidable (Sized p)
  | .text o | .binary o | .extension _ o => inferInstanceAs (Decidable (o.length < 2 ^ 32))
  | .array items =>
    have := decideSizedItems items
    inferInstanceAs (Decidable (items.length < 2 ^ 32 ∧ SizedItems items))
  | .map entries =>
    have := decideSizedEntries entries
    inferInstanceAs (Decidable (entries.length < 2 ^ 32 ∧ SizedEntries entries))
  | .nil | .bool _ | .unsigned _ | .signed _ | .float _ => inferInstanceAs (Decidable True)

/-- Decides whether the lengths in some values fit. -/
def decideSizedItems : (items : List Packed) → Decidable (SizedItems items)
  | [] => inferInstanceAs (Decidable True)
  | p :: rest =>
    have := decideSized p
    have := decideSizedItems rest
    inferInstanceAs (Decidable (Sized p ∧ SizedItems rest))

/-- Decides whether the lengths in some keys and values fit. -/
def decideSizedEntries : (entries : List (Packed × Packed)) → Decidable (SizedEntries entries)
  | [] => inferInstanceAs (Decidable True)
  | (k, v) :: rest =>
    have := decideSized k
    have := decideSized v
    have := decideSizedEntries rest
    inferInstanceAs (Decidable (Sized k ∧ Sized v ∧ SizedEntries rest))

end

instance (p : Packed) : Decidable (Sized p) := decideSized p

mutual

/-- Whether a value is of the kinds that stand for modules: integers are unsigned words, and there
are no extensions. -/
def Simple : Packed → Prop
  | .unsigned n => n < 2 ^ 64
  | .signed _ | .extension _ _ => False
  | .array items => SimpleItems items
  | .map entries => SimpleEntries entries
  | _ => True

/-- Whether values are all simple. -/
def SimpleItems : List Packed → Prop
  | [] => True
  | p :: rest => Simple p ∧ SimpleItems rest

/-- Whether keys and values are all simple. -/
def SimpleEntries : List (Packed × Packed) → Prop
  | [] => True
  | (k, v) :: rest => Simple k ∧ Simple v ∧ SimpleEntries rest

end

/-- Every value has some height. -/
theorem height_pos (p : Packed) : 0 < height p := by
  cases p <;> simp [height]

mutual

/-- A simple value whose lengths fit is read back, whatever follows it. -/
theorem read_octets (p : Packed) (levels : Nat) (rest : List UInt8) (simple : Simple p)
    (sized : Sized p) (high : height p ≤ levels) :
    read levels (octets p ++ rest) = some (p, rest) := by
  obtain ⟨levels, rfl⟩ := Nat.exists_eq_add_one_of_ne_zero
    (Nat.ne_of_gt (Nat.lt_of_lt_of_le (height_pos p) high))
  cases p with
  | nil => rfl
  | bool b => cases b <;> rfl
  | unsigned n => exact read_unsignedOctets simple
  | signed i => exact simple.elim
  | float n => simp [octets, read, readTagged, takeNat_bigEndian 8 n.bits.toNat_lt]
  | text o => simp [octets, lengthWord_of_lt sized, read_textHeader sized]
  | binary o => simp [octets, lengthWord_of_lt sized, read_binaryHeader sized]
  | array items =>
    have fits : itemHeight items ≤ levels := Nat.le_of_succ_le_succ high
    have items := readItems_itemOctets items levels rest simple sized.2 fits
    simp [octets, lengthWord_of_lt sized.1, read_arrayHeader sized.1, readArray, items]
  | map entries =>
    have fits : entryHeight entries ≤ levels := Nat.le_of_succ_le_succ high
    have entries := readEntries_entryOctets entries levels rest simple sized.2 fits
    simp [octets, lengthWord_of_lt sized.1, read_mapHeader sized.1, readMap, entries]
  | extension kind o => exact simple.elim

/-- Items that were written are read back. -/
theorem readItems_itemOctets (items : List Packed) (levels : Nat) (rest : List UInt8)
    (simple : SimpleItems items) (sized : SizedItems items) (high : itemHeight items ≤ levels) :
    readItems (read levels) items.length (itemOctets items ++ rest) = some (items, rest) := by
  match items with
  | [] => rfl
  | p :: others =>
    have first := read_octets p levels (itemOctets others ++ rest) simple.1 sized.1
      (Nat.le_trans (Nat.le_max_left _ _) high)
    have others := readItems_itemOctets others levels rest simple.2 sized.2
      (Nat.le_trans (Nat.le_max_right _ _) high)
    simp [itemOctets, readItems, first, others]

/-- So are entries. -/
theorem readEntries_entryOctets (entries : List (Packed × Packed)) (levels : Nat)
    (rest : List UInt8) (simple : SimpleEntries entries) (sized : SizedEntries entries)
    (high : entryHeight entries ≤ levels) :
    readEntries (read levels) entries.length (entryOctets entries ++ rest) =
      some (entries, rest) := by
  match entries with
  | [] => rfl
  | (k, v) :: others =>
    obtain ⟨highKey, highValue, highOthers⟩ : height k ≤ levels ∧ height v ≤ levels ∧
        entryHeight others ≤ levels := by
      simpa [entryHeight] using high
    have key := read_octets k levels (octets v ++ (entryOctets others ++ rest)) simple.1 sized.1
      highKey
    have value := read_octets v levels (entryOctets others ++ rest) simple.2.1 sized.2.1 highValue
    have others := readEntries_entryOctets others levels rest simple.2.2 sized.2.2 highOthers
    simp [entryOctets, readEntries, key, value, others]

end

/-! ## What reading gives -/

section

variable {item item' : Reader Packed} {count tag width levels levels' : Nat}
  {input rest left : List UInt8} {p : Packed} {items : List Packed}
  {entries : List (Packed × Packed)}

/-- Octets that were taken, as many as fit. -/
theorem sized_of_take {wrap : List UInt8 → Packed}
    (h : (take count input).map (fun (o, rest) => (wrap o, rest)) = some (p, rest))
    (small : count < 2 ^ 32) (sized : ∀ o, o.length < 2 ^ 32 → Sized (wrap o)) : Sized p := by
  obtain ⟨⟨o, left⟩, taken, eq⟩ := Option.map_eq_some_iff.1 h
  have length : o.length = count := (take_eq_some.1 taken).2
  exact (Prod.mk.inj eq).1 ▸ sized o (length ▸ small)

/-- A count of at most four octets. -/
theorem takeNat_small (h : takeNat width input = some (count, left)) (narrow : width ≤ 4) :
    count < 2 ^ 32 :=
  Nat.lt_of_lt_of_le (takeNat_lt h) (Nat.pow_le_pow_right (by decide : 0 < 256) narrow)

/-- Octets behind a count of at most four octets. -/
theorem sized_of_readSized {wrap : List UInt8 → Packed}
    (h : readSized wrap width input = some (p, rest)) (narrow : width ≤ 4)
    (sized : ∀ o, o.length < 2 ^ 32 → Sized (wrap o)) : Sized p := by
  unfold readSized at h
  split at h
  · cases h
  · next n left length => exact sized_of_take h (takeNat_small length narrow) sized

/-- An extension that was read. -/
theorem sized_of_readExtension (h : readExtension count input = some (p, rest))
    (small : count < 2 ^ 32) : Sized p := by
  cases input with
  | nil => cases h
  | cons kind input => exact sized_of_take h small fun _ length => length

/-- Reading one item more. -/
theorem readItems_succ :
    readItems item (count + 1) input = some (items, rest) ↔
      ∃ p left others, item input = some (p, left) ∧
        readItems item count left = some (others, rest) ∧ items = p :: others := by
  rw [readItems]
  split
  · next none => simp [none]
  · next p left first =>
    split <;> grind

/-- Reading one entry more. -/
theorem readEntries_succ :
    readEntries item (count + 1) input = some (entries, rest) ↔
      ∃ k v left left' others, item input = some (k, left) ∧ item left = some (v, left') ∧
        readEntries item count left' = some (others, rest) ∧ entries = (k, v) :: others := by
  rw [readEntries]
  split
  · next none => simp [none]
  · next k left key =>
    split
    · grind
    · next v left' value => split <;> grind

/-- As many items are read as were asked for. -/
theorem length_of_readItems (h : readItems item count input = some (items, rest)) :
    items.length = count := by
  induction count generalizing input items with
  | zero => cases h; rfl
  | succ count ih =>
    obtain ⟨p, left, others, -, read, rfl⟩ := readItems_succ.1 h
    exact congrArg (· + 1) (ih read)

/-- As many entries are read as were asked for. -/
theorem length_of_readEntries (h : readEntries item count input = some (entries, rest)) :
    entries.length = count := by
  induction count generalizing input entries with
  | zero => cases h; rfl
  | succ count ih =>
    obtain ⟨k, v, left, left', others, -, -, read, rfl⟩ := readEntries_succ.1 h
    exact congrArg (· + 1) (ih read)

/-- A list that was read has its items. -/
theorem readArray_eq_some :
    readArray item count input = some (p, rest) ↔
      ∃ items, p = .array items ∧ items.length = count ∧
        readItems item count input = some (items, rest) := by
  simp only [readArray, Option.map_eq_some_iff, Prod.exists, Prod.mk.injEq]
  constructor
  · rintro ⟨items, left, read, rfl, rfl⟩
    exact ⟨items, rfl, length_of_readItems read, read⟩
  · rintro ⟨items, rfl, -, read⟩
    exact ⟨items, rest, read, rfl, rfl⟩

/-- A map that was read has its entries. -/
theorem readMap_eq_some :
    readMap item count input = some (p, rest) ↔
      ∃ entries, p = .map entries ∧ entries.length = count ∧
        readEntries item count input = some (entries, rest) := by
  simp only [readMap, Option.map_eq_some_iff, Prod.exists, Prod.mk.injEq]
  constructor
  · rintro ⟨entries, left, read, rfl, rfl⟩
    exact ⟨entries, rfl, length_of_readEntries read, read⟩
  · rintro ⟨entries, rfl, -, read⟩
    exact ⟨entries, rest, read, rfl, rfl⟩

/-- What reading behind a tag comes to: a value without parts, whatever reads its parts, or an array
or a map, whose number of parts stands in front of them. -/
theorem readTagged_cases (h : readTagged item tag input = some (p, rest)) :
    (Sized p ∧ ∀ item', readTagged item' tag input = some (p, rest)) ∨
    (∃ items left, p = .array items ∧ items.length < 2 ^ 32 ∧
      readItems item items.length left = some (items, rest) ∧
      ∀ item', readItems item' items.length left = some (items, rest) →
        readTagged item' tag input = some (p, rest)) ∨
    ∃ entries left, p = .map entries ∧ entries.length < 2 ^ 32 ∧
      readEntries item entries.length left = some (entries, rest) ∧
      ∀ item', readEntries item' entries.length left = some (entries, rest) →
        readTagged item' tag input = some (p, rest) := by
  unfold readTagged at h ⊢
  split_ifs at h ⊢
  · exact .inl ⟨(Prod.mk.inj (Option.some.inj h)).1 ▸ trivial, fun _ => h⟩
  · obtain ⟨entries, rfl, length, read⟩ := readMap_eq_some.1 h
    refine .inr (.inr ⟨entries, input, rfl, by omega, length ▸ read, fun item' read' => ?_⟩)
    exact readMap_eq_some.2 ⟨entries, rfl, length, length ▸ read'⟩
  · obtain ⟨items, rfl, length, read⟩ := readArray_eq_some.1 h
    refine .inr (.inl ⟨items, input, rfl, by omega, length ▸ read, fun item' read' => ?_⟩)
    exact readArray_eq_some.2 ⟨items, rfl, length, length ▸ read'⟩
  · exact .inl ⟨sized_of_take h (by omega) fun _ length => length, fun _ => h⟩
  · exact .inl ⟨(Prod.mk.inj (Option.some.inj h)).1 ▸ trivial, fun _ => h⟩
  · split at h
    case h_1 | h_2 | h_3 => exact .inl ⟨(Prod.mk.inj (Option.some.inj h)).1 ▸ trivial, fun _ => h⟩
    case h_4 | h_5 | h_6 | h_25 | h_26 | h_27 =>
      exact .inl ⟨sized_of_readSized h (by decide) fun _ length => length, fun _ => h⟩
    case h_7 | h_8 | h_9 =>
      obtain ⟨⟨n, left⟩, length, read⟩ := Option.bind_eq_some_iff.1 h
      exact .inl ⟨sized_of_readExtension read (takeNat_small length (by decide)), fun _ => h⟩
    case h_10 | h_11 | h_12 | h_13 | h_14 | h_15 | h_16 | h_17 | h_18 | h_19 =>
      obtain ⟨⟨n, left⟩, -, eq⟩ := Option.map_eq_some_iff.1 h
      exact .inl ⟨(Prod.mk.inj eq).1 ▸ trivial, fun _ => h⟩
    case h_20 | h_21 | h_22 | h_23 | h_24 =>
      exact .inl ⟨sized_of_readExtension h (by decide), fun _ => h⟩
    case h_28 | h_29 =>
      obtain ⟨⟨n, left⟩, length, read⟩ := Option.bind_eq_some_iff.1 h
      obtain ⟨items, rfl, rfl, read⟩ := readArray_eq_some.1 read
      refine .inr (.inl ⟨items, left, rfl, takeNat_small length (by decide), read, ?_⟩)
      intro item' read'
      exact Option.bind_eq_some_iff.2 ⟨_, length, readArray_eq_some.2 ⟨items, rfl, rfl, read'⟩⟩
    case h_30 | h_31 =>
      obtain ⟨⟨n, left⟩, length, read⟩ := Option.bind_eq_some_iff.1 h
      obtain ⟨entries, rfl, rfl, read⟩ := readMap_eq_some.1 read
      refine .inr (.inr ⟨entries, left, rfl, takeNat_small length (by decide), read, ?_⟩)
      intro item' read'
      exact Option.bind_eq_some_iff.2 ⟨_, length, readMap_eq_some.2 ⟨entries, rfl, rfl, read'⟩⟩
    case h_32 => cases h

/-- Items have lengths that fit if whatever the reader gives has. -/
theorem sizedItems_of_readItems (sound : ∀ {input p rest}, item input = some (p, rest) → Sized p)
    (h : readItems item count input = some (items, rest)) : SizedItems items := by
  induction count generalizing input items with
  | zero => cases h; trivial
  | succ count ih =>
    obtain ⟨p, left, others, first, read, rfl⟩ := readItems_succ.1 h
    exact ⟨sound first, ih read⟩

/-- So have entries. -/
theorem sizedEntries_of_readEntries
    (sound : ∀ {input p rest}, item input = some (p, rest) → Sized p)
    (h : readEntries item count input = some (entries, rest)) : SizedEntries entries := by
  induction count generalizing input entries with
  | zero => cases h; trivial
  | succ count ih =>
    obtain ⟨k, v, left, left', others, key, value, read, rfl⟩ := readEntries_succ.1 h
    exact ⟨sound key, sound value, ih read⟩

/-- The lengths in a value that was read fit. -/
theorem sized_of_read (h : read levels input = some (p, rest)) : Sized p := by
  induction levels generalizing input p rest with
  | zero => cases h
  | succ levels ih =>
    cases input with
    | nil => cases h
    | cons tag input =>
      obtain ⟨sized, -⟩ | ⟨items, left, rfl, short, read, -⟩ |
        ⟨entries, left, rfl, short, read, -⟩ := readTagged_cases h
      · exact sized
      · exact ⟨short, sizedItems_of_readItems ih read⟩
      · exact ⟨short, sizedEntries_of_readEntries ih read⟩

/-- A reader that reads at least as much reads the same items. -/
theorem readItems_mono (more : ∀ {input p rest}, item input = some (p, rest) →
      item' input = some (p, rest))
    (h : readItems item count input = some (items, rest)) :
    readItems item' count input = some (items, rest) := by
  induction count generalizing input items with
  | zero => exact h
  | succ count ih =>
    obtain ⟨p, left, others, first, read, rfl⟩ := readItems_succ.1 h
    exact readItems_succ.2 ⟨p, left, others, more first, ih read, rfl⟩

/-- It reads the same entries. -/
theorem readEntries_mono (more : ∀ {input p rest}, item input = some (p, rest) →
      item' input = some (p, rest))
    (h : readEntries item count input = some (entries, rest)) :
    readEntries item' count input = some (entries, rest) := by
  induction count generalizing input entries with
  | zero => exact h
  | succ count ih =>
    obtain ⟨k, v, left, left', others, key, value, read, rfl⟩ := readEntries_succ.1 h
    exact readEntries_succ.2 ⟨k, v, left, left', others, more key, more value, ih read, rfl⟩

/-- With more levels to spare, reading finds the same value. -/
theorem read_mono (more : levels ≤ levels') (h : read levels input = some (p, rest)) :
    read levels' input = some (p, rest) := by
  induction levels generalizing levels' input p rest with
  | zero => cases h
  | succ levels ih =>
    obtain ⟨levels', rfl⟩ := Nat.exists_eq_add_of_le' (Nat.le_trans (Nat.le_add_left 1 levels) more)
    have fewer : levels ≤ levels' := Nat.le_of_succ_le_succ more
    cases input with
    | nil => cases h
    | cons tag input =>
      obtain ⟨-, same⟩ | ⟨items, left, rfl, -, read, same⟩ |
        ⟨entries, left, rfl, -, read, same⟩ := readTagged_cases h
      · exact same _
      · exact same _ (readItems_mono (ih fewer) read)
      · exact same _ (readEntries_mono (ih fewer) read)

end

end ScriptEngine.Bytecode.Packed
