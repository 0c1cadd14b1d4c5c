import ScriptEngine.Bytecode.Assembly
import ScriptEngine.Bytecode.Packed
import ScriptEngine.Bytecode.Verify

/-!
# Stored modules

A stored module is a header, four octets of signature and two of version, followed by the module in
MessagePack. Records are arrays of their fields in order; a choice is its name, or a map from its
name to its operands. Only the exact version is read, and a module is checked before it is handed
out. What follows the module is ignored.

Reading also accepts a record as a map from its fields' names or numbers, in which unknown fields
are ignored, and raw octets as a list of numbers. Nesting is limited: each record, each list, and
each array, map or extension that is ignored is a level; the map of a choice is none. A function
that opens a level takes the number of levels left.
-/

namespace ScriptEngine.Bytecode

open Packed

/-- The octets every stored module begins with. -/
def signature : List UInt8 := [0xb5, 0x43, 0x56, 0x44]

/-- Version of the format. -/
def formatVersion : UInt8 × UInt8 := (0, 5)

/-- Why stored octets are refused. -/
inductive ArchiveError where
  | notBytecode
  | version (found expected : UInt8 × UInt8)
  /-- The octets after the header are no module. -/
  | undecodable
  /-- They are a module, but a malformed one. -/
  | malformed (m : Malformed)

/-- The text of an archive error. -/
def ArchiveError.message : ArchiveError → String
  | .notBytecode => "not a corvid bytecode file"
  | .version f e =>
    "incompatible bytecode version " ++ toString f.1.toNat ++ "." ++ toString f.2.toNat ++
      " (expected " ++ toString e.1.toNat ++ "." ++ toString e.2.toNat ++ ")"
  | .undecodable => "corrupt bytecode"
  | .malformed m => "corrupt bytecode: " ++ m.message

/-! ## Writing -/

/-- A string as MessagePack text. -/
def packString (s : String) : Packed := .text s.toUTF8.toList

/-- A choice with a payload. -/
def packChoice (name : String) (payload : Packed) : Packed := .map [(packString name, payload)]

/-- A capture as the record of its fields. -/
def packCapture (c : Capture) : Packed := .array [.bool c.isLocal, .unsigned c.index.toNat]

/-- An operand. -/
def packOperand : Operand → Packed
  | .byte n => .unsigned n.toNat
  | .word n => .unsigned n.toNat
  | .captures cs => .array (cs.map packCapture)

/-- An instruction: its name alone, or with one operand, or with an array of operands. -/
def packOp (op : Op) : Packed :=
  match op.named with
  | (name, []) => packString name
  | (name, [operand]) => packChoice name (packOperand operand)
  | (name, operands) => packChoice name (.array (operands.map packOperand))

/-- A run of the line table. -/
def packRun (r : LineRun) : Packed := .array [.unsigned r.line.toNat, .unsigned r.count.toNat]

/-- A line table, a record of one field. -/
def packLines (t : LineTable) : Packed := .array [.array (t.runs.toList.map packRun)]

mutual

/-- A constant. -/
def packConstant : Constant → Packed
  | .number n => packChoice "Number" (.float n)
  | .string s => packChoice "String" (packString s)
  | .bool b => packChoice "Bool" (.bool b)
  | .null => packString "Null"
  | .function p => packChoice "Function" (packProto p)
  | .native n => packChoice "Native" (packNative n)

/-- A native signature. -/
def packNative : NativeProto → Packed
  | ⟨name, arity, ⟨defaults⟩, vararg⟩ =>
    .array [packString name, .unsigned arity.toNat, .array (packConstants defaults), .bool vararg]

/-- A prototype. -/
def packProto : Proto → Packed
  | ⟨name, arity, ⟨defaults⟩, vararg, upvalueCount, ⟨code, ⟨constants⟩, lines⟩⟩ =>
    .array [packString name, .unsigned arity.toNat, .array (packConstants defaults),
      .bool vararg, .unsigned upvalueCount.toNat,
      .array [.array (code.toList.map packOp), .array (packConstants constants), packLines lines]]

/-- Constants in order. -/
def packConstants : List Constant → List Packed
  | [] => []
  | c :: rest => packConstant c :: packConstants rest

end

/-- A module as a MessagePack value. -/
def packModule (m : Module) : Packed := .array [packString m.file, packProto m.main]

/-- The octets of a stored module. -/
def Module.store (m : Module) : List UInt8 :=
  signature ++ [formatVersion.1, formatVersion.2] ++ (write #[] (packModule m)).toList

/-! ## Reading -/

/-- Text, also when it was written as raw octets, if it is UTF-8. -/
def unpackString? : Packed → Option String
  | .text o | .binary o => String.fromUTF8? (ByteArray.mk o.toArray)
  | _ => none

/-- A natural number below `bound`. -/
def unpackNat? (bound : Nat) : Packed → Option Nat
  | .unsigned n => if n < bound then some n else none
  | .signed i => if 0 ≤ i ∧ i < bound then some i.toNat else none
  | _ => none

/-- A truth value. -/
def unpackBool? : Packed → Option Bool
  | .bool b => some b
  | _ => none

/-- A number; integers are converted. -/
def unpackNumber? : Packed → Option Number
  | .float n => some n
  | .unsigned n => some (Number.ofNat n)
  | .signed i => some (Number.ofInt i)
  | _ => none

/-- The levels of nesting a module may have. -/
def maxDepth : Nat := 1023

/-- The items of a list. Raw octets are a list of numbers, and no list of a module holds numbers,
so there must be none of them. -/
def unpackList? (levels : Nat) : Packed → Option (List Packed)
  | .array items => if 0 < levels then some items else none
  | .binary [] => some []
  | _ => none

/-- The position a map key gives: a field's name or its number. -/
def fieldIndex? (names : List String) (key : Packed) : Option (Option Nat) :=
  match key with
  | .unsigned n => some (if n < names.length then some n else none)
  | .text o | .binary o =>
    some (names.findIdx? fun name => decide (name.toUTF8.toList = o))
  | _ => none

/-- The fields of a record written as a map: each known field once. Unknown fields are ignored, but
for their nesting. -/
def fieldsOfMap? (names : List String) (levels : Nat) (entries : List (Packed × Packed)) :
    Option (List Packed) := do
  let keyed ← entries.mapM fun (k, v) => (fieldIndex? names k).map (·, v)
  guard (keyed.all fun (i?, v) => i?.isSome || decide (v.depth ≤ levels))
  (List.range names.length).mapM fun i =>
    match keyed.filter (·.1 == some i) with
    | [(_, v)] => some v
    | _ => none

/-- The first `count` of some raw octets as numbers. -/
def firstOctets? (count : Nat) (octets : List UInt8) : Option (List Packed) :=
  if count ≤ octets.length then some ((octets.take count).map fun o => .unsigned o.toNat) else none

/-- The fields of a record, from an array of exactly as many items, from a map, or from at least as
many raw octets, of which those left over are ignored. -/
def fields? (names : List String) (levels : Nat) : Packed → Option (List Packed)
  | .array items => if 0 < levels ∧ items.length = names.length then some items else none
  | .map entries => if 0 < levels then fieldsOfMap? names (levels - 1) entries else none
  | .binary octets => firstOctets? names.length octets
  | _ => none

/-- The name of a choice, given as text or by its number among `names`. -/
def choiceName? (names : List String) : Packed → Option String
  | .unsigned n => names[n]?
  | .text o => String.fromUTF8? (ByteArray.mk o.toArray)
  | .binary o => String.fromUTF8? (ByteArray.mk o.toArray)
  | _ => none

/-- A choice and its payload, if it has one. -/
def choice? (names : List String) : Packed → Option (String × Option Packed)
  | .map [(k, v)] => (choiceName? names k).map (·, some v)
  | .map _ => none
  | p => (choiceName? names p).map (·, none)

/-- A capture. -/
def unpackCapture? (levels : Nat) (p : Packed) : Option Capture := do
  match ← fields? ["is_local", "index"] levels p with
  | [a, b] => return ⟨← unpackBool? a, UInt16.ofNat (← unpackNat? 65536 b)⟩
  | _ => none

/-- Two operands, from an array of two or from at least two raw octets. -/
def pair? (levels : Nat) : Packed → Option (Packed × Packed)
  | .array [a, b] => if 0 < levels then some (a, b) else none
  | .binary (a :: b :: _) => some (.unsigned a.toNat, .unsigned b.toNat)
  | _ => none

/-- An instruction of a given form from its payload. -/
def OpForm.unpack? (form : OpForm) (levels : Nat) (payload : Option Packed) : Option Op :=
  match form, payload with
  | .plain op, none => some op
  | .plain op, some .nil => some op
  | .byte make, some p => (unpackNat? 256 p).map (make ∘ UInt8.ofNat)
  | .word make, some p => (unpackNat? 65536 p).map (make ∘ UInt16.ofNat)
  | .byteWord make, some p => do
    let (a, b) ← pair? levels p
    return make (UInt8.ofNat (← unpackNat? 256 a)) (UInt16.ofNat (← unpackNat? 65536 b))
  | .wordWord make, some p => do
    let (a, b) ← pair? levels p
    return make (UInt16.ofNat (← unpackNat? 65536 a)) (UInt16.ofNat (← unpackNat? 65536 b))
  | .closure make, some p => do
    let (a, b) ← pair? levels p
    let captures ← (← unpackList? (levels - 1) b).mapM (unpackCapture? (levels - 2))
    return make (UInt16.ofNat (← unpackNat? 65536 a)) captures
  | _, _ => none

/-- An instruction. -/
def unpackOp? (levels : Nat) (p : Packed) : Option Op := do
  let (name, payload) ← choice? (opForms.map (·.1)) p
  (← opForm? name).unpack? levels payload

/-- A run of the line table. -/
def unpackRun? (levels : Nat) (p : Packed) : Option LineRun := do
  match ← fields? ["line", "count"] levels p with
  | [a, b] =>
    return ⟨UInt32.ofNat (← unpackNat? (pow2 32) a), UInt32.ofNat (← unpackNat? (pow2 32) b)⟩
  | _ => none

/-- A line table. -/
def unpackLines? (levels : Nat) (p : Packed) : Option LineTable := do
  match ← fields? ["runs"] levels p with
  | [runs] =>
    return ⟨(← (← unpackList? (levels - 1) runs).mapM (unpackRun? (levels - 2))).toArray⟩
  | _ => none

/-- The kinds of constants, in the order of their numbers. -/
def constantNames : List String := ["Number", "String", "Bool", "Null", "Function", "Native"]

/-- Constants in order, read by `constant` with the levels that are left inside their list. -/
def unpackConstants? (constant : Nat → Packed → Option Constant) (levels : Nat) (p : Packed) :
    Option (Array Constant) := do
  return (← (← unpackList? levels p).mapM (constant (levels - 1))).toArray

/-- A native signature, its defaults read by `constant`. -/
def unpackNative? (constant : Nat → Packed → Option Constant) (levels : Nat) (p : Packed) :
    Option NativeProto := do
  match ← fields? ["name", "arity", "defaults", "vararg"] levels p with
  | [name, arity, defaults, vararg] =>
    return {
      name := ← unpackString? name
      arity := UInt8.ofNat (← unpackNat? 256 arity)
      defaults := ← unpackConstants? constant (levels - 1) defaults
      vararg := ← unpackBool? vararg }
  | _ => none

/-- A chunk, its constants read by `constant`. -/
def unpackChunk? (constant : Nat → Packed → Option Constant) (levels : Nat) (p : Packed) :
    Option Chunk := do
  match ← fields? ["code", "constants", "lines"] levels p with
  | [code, constants, lines] =>
    return {
      code := (← (← unpackList? (levels - 1) code).mapM (unpackOp? (levels - 2))).toArray
      constants := ← unpackConstants? constant (levels - 1) constants
      lines := ← unpackLines? (levels - 1) lines }
  | _ => none

/-- A prototype, its constants read by `constant`. -/
def unpackProto? (constant : Nat → Packed → Option Constant) (levels : Nat) (p : Packed) :
    Option Proto := do
  match ← fields? ["name", "arity", "defaults", "vararg", "upvalue_count", "chunk"] levels p with
  | [name, arity, defaults, vararg, upvalueCount, chunk] =>
    return {
      name := ← unpackString? name
      arity := UInt8.ofNat (← unpackNat? 256 arity)
      defaults := ← unpackConstants? constant (levels - 1) defaults
      vararg := ← unpackBool? vararg
      upvalueCount := UInt16.ofNat (← unpackNat? 65536 upvalueCount)
      chunk := ← unpackChunk? constant (levels - 1) chunk }
  | _ => none

/-- A constant with `levels` levels left, following functions in functions `fuel` times at most. -/
def unpackConstant? : Nat → Nat → Packed → Option Constant
  | 0, _, _ => none
  | fuel + 1, levels, p => do
    match ← choice? constantNames p with
    | ("Number", some v) => (unpackNumber? v).map .number
    | ("String", some v) => (unpackString? v).map .string
    | ("Bool", some v) => (unpackBool? v).map .bool
    | ("Null", none) => some .null
    | ("Null", some .nil) => some .null
    | ("Function", some v) => (unpackProto? (unpackConstant? fuel) levels v).map .function
    | ("Native", some v) => (unpackNative? (unpackConstant? fuel) levels v).map .native
    | _ => none

/-- A module. A function takes up levels of its own, so there is fuel for every one. -/
def unpackModule? (p : Packed) : Option Module := do
  match ← fields? ["file", "main"] maxDepth p with
  | [file, main] =>
    return ⟨← unpackString? file, ← unpackProto? (unpackConstant? maxDepth) (maxDepth - 1) main⟩
  | _ => none

/-- Whether octets begin with the signature. -/
def hasSignature (octets : List UInt8) : Bool := octets.take 4 == signature

/-- Reads a stored module and checks it. Each level has at most the map of a choice above it, and
the last one holds a value that is no level, hence the levels of the octet reader. -/
def Module.load (octets : List UInt8) : Except ArchiveError Module :=
  match octets.drop 4 with
  | major :: minor :: body =>
    if !hasSignature octets then .error .notBytecode
    else if (major, minor) ≠ formatVersion then .error (.version (major, minor) formatVersion)
    else
      match read (2 * maxDepth + 1) body with
      | none => .error .undecodable
      | some (p, _) =>
        match unpackModule? p with
        | none => .error .undecodable
        | some m =>
          match m.main.verify with
          | .error e => .error (.malformed e)
          | .ok () => .ok m
  | _ => .error .notBytecode

end ScriptEngine.Bytecode
