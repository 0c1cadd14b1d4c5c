import ScriptEngine.Number.Basic
import ScriptEngine.Text.Octets

/-!
# MessagePack

The tagged binary format stored modules are written in, as trees and as octets. Writing uses the
shortest form for integers, strings and arrays; reading accepts every form. Nesting is limited, so
reading recurses on the number of levels left, and each level reads as many items as its header
announces. `Packed.depth` counts the levels of a value that was read.
-/

namespace ScriptEngine.Bytecode

/-- A MessagePack value. Integers keep whether they were written in a signed form. -/
inductive Packed where
  | nil
  | bool (b : Bool)
  | unsigned (n : Nat)
  | signed (i : Int)
  | float (n : Number)
  | text (octets : List UInt8)
  | binary (octets : List UInt8)
  | array (items : List Packed)
  | map (entries : List (Packed × Packed))
  /-- Octets of a kind that an application defines. -/
  | extension (kind : UInt8) (octets : List UInt8)
  deriving Inhabited

namespace Packed

/-- A natural number as `width` octets, most significant first. -/
def bigEndian : Nat → Nat → List UInt8
  | 0, _ => []
  | width + 1, n => UInt8.ofNat (n / pow2 (8 * width)) :: bigEndian width n

/-- The natural number that octets, most significant first, stand for. -/
def ofBigEndian (octets : List UInt8) : Nat := octets.foldl (fun n b => n * 256 + b.toNat) 0

/-- The header of an unsigned integer, which is all of it. -/
def unsignedOctets (n : Nat) : List UInt8 :=
  if n < 128 then [UInt8.ofNat n]
  else if n < pow2 8 then 0xcc :: bigEndian 1 n
  else if n < pow2 16 then 0xcd :: bigEndian 2 n
  else if n < pow2 32 then 0xce :: bigEndian 4 n
  else 0xcf :: bigEndian 8 n

/-- A negative integer in its shortest form. -/
def negativeOctets (i : Int) : List UInt8 :=
  if -32 ≤ i then [UInt8.ofNat (256 + i).toNat]
  else if -(pow2 7 : Nat) ≤ i then 0xd0 :: bigEndian 1 (pow2 8 + i).toNat
  else if -(pow2 15 : Nat) ≤ i then 0xd1 :: bigEndian 2 (pow2 16 + i).toNat
  else if -(pow2 31 : Nat) ≤ i then 0xd2 :: bigEndian 4 (pow2 32 + i).toNat
  else 0xd3 :: bigEndian 8 (pow2 64 + i).toNat

/-- A length as the widest length field holds it, which has 32 bits. -/
def lengthWord (n : Nat) : Nat := n % pow2 32

/-- The header of a string of `n` octets. -/
def textHeader (n : Nat) : List UInt8 :=
  if n < 32 then [UInt8.ofNat (0xa0 + n)]
  else if n < pow2 8 then 0xd9 :: bigEndian 1 n
  else if n < pow2 16 then 0xda :: bigEndian 2 n
  else 0xdb :: bigEndian 4 n

/-- The header of `n` raw octets. -/
def binaryHeader (n : Nat) : List UInt8 :=
  if n < pow2 8 then 0xc4 :: bigEndian 1 n
  else if n < pow2 16 then 0xc5 :: bigEndian 2 n
  else 0xc6 :: bigEndian 4 n

/-- The header of an array of `n` items. -/
def arrayHeader (n : Nat) : List UInt8 :=
  if n < 16 then [UInt8.ofNat (0x90 + n)]
  else if n < pow2 16 then 0xdc :: bigEndian 2 n
  else 0xdd :: bigEndian 4 n

/-- The header of a map of `n` entries. -/
def mapHeader (n : Nat) : List UInt8 :=
  if n < 16 then [UInt8.ofNat (0x80 + n)]
  else if n < pow2 16 then 0xde :: bigEndian 2 n
  else 0xdf :: bigEndian 4 n

/-- The header of an extension of `n` octets, its kind excepted. -/
def extensionHeader (n : Nat) : List UInt8 :=
  if n = 1 then [0xd4]
  else if n = 2 then [0xd5]
  else if n = 4 then [0xd6]
  else if n = 8 then [0xd7]
  else if n = 16 then [0xd8]
  else if n < pow2 8 then 0xc7 :: bigEndian 1 n
  else if n < pow2 16 then 0xc8 :: bigEndian 2 n
  else 0xc9 :: bigEndian 4 n

mutual

/-- Writes a value after `out`. -/
def write (out : Array UInt8) : Packed → Array UInt8
  | .nil => out.push 0xc0
  | .bool b => out.push (if b then 0xc3 else 0xc2)
  | .unsigned n => out ++ unsignedOctets n
  | .signed i => out ++ (if i < 0 then negativeOctets i else unsignedOctets i.toNat)
  | .float n => out.push 0xcb ++ bigEndian 8 n.bits.toNat
  | .text octets => out ++ textHeader (lengthWord octets.length) ++ octets
  | .binary octets => out ++ binaryHeader (lengthWord octets.length) ++ octets
  | .array items => writeItems (out ++ arrayHeader (lengthWord items.length)) items
  | .map entries => writeEntries (out ++ mapHeader (lengthWord entries.length)) entries
  | .extension kind octets => (out ++ extensionHeader (lengthWord octets.length)).push kind ++ octets

/-- Writes values one after another. -/
def writeItems (out : Array UInt8) : List Packed → Array UInt8
  | [] => out
  | p :: rest => writeItems (write out p) rest

/-- Writes keys and values one after another. -/
def writeEntries (out : Array UInt8) : List (Packed × Packed) → Array UInt8
  | [] => out
  | (k, v) :: rest => writeEntries (write (write out k) v) rest

end

mutual

/-- The levels of nesting of a value, of which each array, map and extension is one. -/
def depth : Packed → Nat
  | .array items => depthItems items + 1
  | .map entries => depthEntries entries + 1
  | .extension _ _ => 1
  | _ => 0

/-- The greatest depth of some values. -/
def depthItems : List Packed → Nat
  | [] => 0
  | p :: rest => max (depth p) (depthItems rest)

/-- The greatest depth of some keys and values. -/
def depthEntries : List (Packed × Packed) → Nat
  | [] => 0
  | (k, v) :: rest => max (max (depth k) (depth v)) (depthEntries rest)

end

/-- Reads from the front of some octets: a result and what is left. -/
abbrev Reader (α : Type) : Type := List UInt8 → Option (α × List UInt8)

/-- Takes exactly `n` octets. -/
def take : Nat → Reader (List UInt8)
  | 0, rest => some ([], rest)
  | _ + 1, [] => none
  | n + 1, b :: rest => (take n rest).map fun (taken, rest) => (b :: taken, rest)

/-- Takes an unsigned integer of `width` octets. -/
def takeNat (width : Nat) : Reader Nat := fun input =>
  (take width input).map fun (octets, rest) => (ofBigEndian octets, rest)

/-- Takes a two's-complement integer of `width` octets. -/
def takeInt (width : Nat) : Reader Int := fun input =>
  (takeNat width input).map fun (n, rest) =>
    (if n < pow2 (8 * width - 1) then (n : Int) else (n : Int) - pow2 (8 * width), rest)

/-- Reads `count` items. -/
def readItems (item : Reader Packed) : Nat → Reader (List Packed)
  | 0, rest => some ([], rest)
  | count + 1, input =>
    match item input with
    | none => none
    | some (p, rest) =>
      match readItems item count rest with
      | none => none
      | some (ps, rest) => some (p :: ps, rest)

/-- Reads `count` entries. -/
def readEntries (item : Reader Packed) : Nat → Reader (List (Packed × Packed))
  | 0, rest => some ([], rest)
  | count + 1, input =>
    match item input with
    | none => none
    | some (k, rest) =>
      match item rest with
      | none => none
      | some (v, rest) =>
        match readEntries item count rest with
        | none => none
        | some (es, rest) => some ((k, v) :: es, rest)

/-- The double a 32-bit float stands for. -/
def ofSingle (bits : Nat) : Number :=
  let negative := decide (bits / pow2 31 = 1)
  let exponent : Nat := bits / pow2 23 % pow2 8
  let fraction : Nat := bits % pow2 23
  if exponent = 255 then
    ⟨UInt64.ofNat ((if negative then pow2 63 else 0) + 0x7ff0000000000000 + fraction * pow2 29)⟩
  else if exponent = 0 then Number.ofScaled negative fraction (-149)
  else Number.ofScaled negative (pow2 23 + fraction) ((exponent : Int) - 150)

/-- The text or the raw octets whose length stands in the next `width` octets. -/
def readSized (wrap : List UInt8 → Packed) (width : Nat) : Reader Packed := fun input =>
  match takeNat width input with
  | none => none
  | some (n, rest) => (take n rest).map fun (octets, rest) => (wrap octets, rest)

/-- An array of `count` items. -/
def readArray (item : Reader Packed) (count : Nat) : Reader Packed := fun input =>
  (readItems item count input).map fun (ps, rest) => (.array ps, rest)

/-- A map of `count` entries. -/
def readMap (item : Reader Packed) (count : Nat) : Reader Packed := fun input =>
  (readEntries item count input).map fun (es, rest) => (.map es, rest)

/-- An extension of `n` octets, the octet before them its kind. -/
def readExtension (n : Nat) : Reader Packed
  | [] => none
  | kind :: rest => (take n rest).map fun (octets, rest) => (.extension kind octets, rest)

/-- Reads the value whose first octet is `tag`, nested values by `item`. -/
def readTagged (item : Reader Packed) (tag : Nat) : Reader Packed := fun input =>
  if tag < 0x80 then some (.unsigned tag, input)
  else if tag < 0x90 then readMap item (tag - 0x80) input
  else if tag < 0xa0 then readArray item (tag - 0x90) input
  else if tag < 0xc0 then (take (tag - 0xa0) input).map fun (o, rest) => (.text o, rest)
  else if 0xe0 ≤ tag then some (.signed ((tag : Int) - 256), input)
  else
    let unsigned (width : Nat) := (takeNat width input).map fun (n, rest) => (.unsigned n, rest)
    let signed (width : Nat) := (takeInt width input).map fun (i, rest) => (.signed i, rest)
    let counted (width : Nat) (read : Nat → Reader Packed) :=
      (takeNat width input).bind fun (n, rest) => read n rest
    match tag with
    | 0xc0 => some (.nil, input)
    | 0xc2 => some (.bool false, input)
    | 0xc3 => some (.bool true, input)
    | 0xc4 => readSized .binary 1 input
    | 0xc5 => readSized .binary 2 input
    | 0xc6 => readSized .binary 4 input
    | 0xc7 => counted 1 readExtension
    | 0xc8 => counted 2 readExtension
    | 0xc9 => counted 4 readExtension
    | 0xca => (takeNat 4 input).map fun (n, rest) => (.float (ofSingle n), rest)
    | 0xcb => (takeNat 8 input).map fun (n, rest) => (.float ⟨UInt64.ofNat n⟩, rest)
    | 0xcc => unsigned 1
    | 0xcd => unsigned 2
    | 0xce => unsigned 4
    | 0xcf => unsigned 8
    | 0xd0 => signed 1
    | 0xd1 => signed 2
    | 0xd2 => signed 4
    | 0xd3 => signed 8
    | 0xd4 => readExtension 1 input
    | 0xd5 => readExtension 2 input
    | 0xd6 => readExtension 4 input
    | 0xd7 => readExtension 8 input
    | 0xd8 => readExtension 16 input
    | 0xd9 => readSized .text 1 input
    | 0xda => readSized .text 2 input
    | 0xdb => readSized .text 4 input
    | 0xdc => counted 2 (readArray item)
    | 0xdd => counted 4 (readArray item)
    | 0xde => counted 2 (readMap item)
    | 0xdf => counted 4 (readMap item)
    | _ => none

/-- Reads one value, following values inside values `levels` times at most, itself included. -/
def read : Nat → Reader Packed
  | 0, _ => none
  | _ + 1, [] => none
  | levels + 1, tag :: rest => readTagged (read levels) tag.toNat rest

end Packed

end ScriptEngine.Bytecode
