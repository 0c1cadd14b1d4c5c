import ScriptEngine.Bytecode.Chunk
import ScriptEngine.Number.Decimal

/-!
# Listings

A readable listing of a prototype: a heading, one line for each instruction with its offset, its
source line and its operands, and then the listings of the nested prototypes, each after a blank
line. A closure's captures stand on lines of their own.
-/

namespace ScriptEngine.Bytecode

/-- Pads with `fill` on the left to at least `width` characters. -/
def padLeft (width : Nat) (fill : Char) (s : String) : String :=
  String.ofList (List.replicate (width - s.length) fill) ++ s

/-- Pads with blanks on the right to at least `width` characters. -/
def padRight (width : Nat) (s : String) : String :=
  s ++ String.ofList (List.replicate (width - s.length) ' ')

/-- A label in its column, followed by a number in its column. -/
def labelled (label : String) (n : Nat) : String :=
  padRight 13 label ++ padLeft 5 ' ' (toString n)

/-- The name a constant index stands for, or the index itself if it is no name. -/
def nameText (constants : Array Constant) (i : UInt16) : String :=
  match constants[i.toNat]? with
  | some (.string s) => s
  | _ => "?" ++ toString i.toNat

/-- A constant as shown in a listing. -/
def constantText : Option Constant → String
  | some (.number n) => n.display
  | some (.string s) => "\"" ++ s ++ "\""
  | some (.bool b) => if b then "true" else "false"
  | some .null => "null"
  | some (.function p) => "<fn " ++ p.displayName ++ ">"
  | some (.native n) => "<native " ++ n.name ++ ">"
  | none => "???"

/-- The instruction part of a listing line. -/
def opText (constants : Array Constant) (op : Op) (offset : Nat) : String :=
  let named (label : String) (i : UInt16) : String :=
    labelled label i.toNat ++ " (" ++ nameText constants i ++ ")"
  let valued (label : String) (i : UInt16) : String :=
    labelled label i.toNat ++ " (" ++ constantText constants[i.toNat]? ++ ")"
  let jump (label : String) (target : Nat) : String :=
    labelled label offset ++ " -> " ++ toString target
  let forward (label : String) (j : UInt16) : String := jump label (offset + 1 + j.toNat)
  match op with
  | .constant i => valued "CONSTANT" i
  | .null => "NULL"
  | .true => "TRUE"
  | .false => "FALSE"
  | .pop => "POP"
  | .dup => "DUP"
  | .dup2 => "DUP2"
  | .getLocal slot => labelled "GET_LOCAL" slot.toNat
  | .setLocal slot => labelled "SET_LOCAL" slot.toNat
  | .getGlobal i => named "GET_GLOBAL" i
  | .setGlobal i => named "SET_GLOBAL" i
  | .defineGlobal i => named "DEF_GLOBAL" i
  | .getUpvalue i => labelled "GET_UPVALUE" i.toNat
  | .setUpvalue i => labelled "SET_UPVALUE" i.toNat
  | .closeUpvalue => "CLOSE_UPVALUE"
  | .getField i => named "GET_FIELD" i
  | .setField i => named "SET_FIELD" i
  | .getSubscript => "GET_SUBSCR"
  | .setSubscript => "SET_SUBSCR"
  | .add => "ADD"
  | .subtract => "SUBTRACT"
  | .multiply => "MULTIPLY"
  | .divide => "DIVIDE"
  | .modulo => "MODULO"
  | .power => "POWER"
  | .negate => "NEGATE"
  | .bitAnd => "BAND"
  | .bitOr => "BOR"
  | .xor => "XOR"
  | .shiftLeft => "LSHIFT"
  | .shiftRight => "RSHIFT"
  | .invert => "INVERT"
  | .equal => "EQUAL"
  | .less => "LESS"
  | .lessEqual => "LESS_EQUAL"
  | .greater => "GREATER"
  | .greaterEqual => "GREATER_EQUAL"
  | .is => "IS"
  | .not => "NOT"
  | .jump j => forward "JUMP" j
  | .jumpIfFalse j => forward "JUMP_FALSE" j
  | .jumpIfTrue j => forward "JUMP_TRUE" j
  | .setupExcept j => forward "SETUP_EXCEPT" j
  | .setupEnsure j => forward "SETUP_ENSURE" j
  | .forNext j => forward "FOR_NEXT" j
  | .loop back => jump "LOOP" (offset + 1 - back.toNat)
  | .callShort n => labelled "CALL" n.val
  | .callLong n => labelled "CALL" n.toNat
  | .invokeShort n i => named "INVOKE" i ++ " argc=" ++ toString n.val
  | .invokeLong n i => named "INVOKE" i ++ " argc=" ++ toString n.toNat
  | .superCall argc i => named "SUPER" i ++ " argc=" ++ toString argc.toNat
  | .superBind i => named "SUPER_BIND" i
  | .superUnpack i => named "SUPER_UNPACK" i
  | .callUnpack => "CALL_UNPACK"
  | .invokeUnpack i => named "INVOKE_UNPACK" i
  | .return => "RETURN"
  | .closure i captures =>
    captures.foldl (fun text c =>
      text ++ "\n     |        " ++ (if c.isLocal then "local " else "upvalue ") ++
        toString c.index.toNat) (valued "CLOSURE" i)
  | .native i => named "NATIVE" i
  | .newList n => labelled "NEW_LIST" n.toNat
  | .newTuple n => labelled "NEW_TUPLE" n.toNat
  | .newTable n => labelled "NEW_TABLE" n.toNat
  | .unpack n => labelled "UNPACK" n.toNat
  | .appendList => "APPEND_LIST"
  | .extendList => "EXTEND_LIST"
  | .listToTuple => "LIST_TO_TUPLE"
  | .getObject => "GET_OBJECT"
  | .newClass i => named "NEW_CLASS" i
  | .subclass => "SUBCLASS"
  | .defMethod i => named "DEF_METHOD" i
  | .nativeMethod i => named "NAT_METHOD" i
  | .popHandler => "POP_HANDLER"
  | .endHandler => "END_HANDLER"
  | .raise => "RAISE"
  | .forPrep => "FOR_PREP"
  | .forIter => "FOR_ITER"
  | .generator => "GENERATOR"
  | .yield => "YIELD"
  | .generatorClose => "GEN_CLOSE"
  | .importModule i => named "IMPORT" i
  | .importFrom i => named "IMPORT_FROM" i
  | .importName m i =>
    labelled "IMPORT_NAME" i.toNat ++ " (" ++ nameText constants m ++ "." ++
      nameText constants i ++ ")"
  | .importAll i => named "IMPORT_ALL" i

/-- The line column: a bar for the line of the instruction before. -/
def lineColumn (line previous : Option Nat) : String :=
  match line with
  | some n => if line = previous then "   |" else padLeft 4 ' ' (toString n)
  | none => "   ?"

/-- The lines of the instructions from `offset` on. -/
def listingFrom (constants : Array Constant) (lines : LineTable) :
    Nat → Option Nat → List Op → String → String
  | _, _, [], out => out
  | offset, previous, op :: rest, out =>
    let line := lines.lineAt? offset
    listingFrom constants lines (offset + 1) line rest
      (out ++ padLeft 4 '0' (toString offset) ++ " " ++ lineColumn line previous ++ " " ++
        opText constants op offset ++ "\n")

/-- The heading of a prototype's listing. -/
def heading (p : Proto) : String :=
  "== " ++ p.displayName ++ " (arity=" ++ toString p.arity.toNat ++ ", upvalues=" ++
    toString p.upvalueCount.toNat ++ (if p.vararg then ", vararg" else "") ++ ") ==\n"

mutual

/-- The listing of a prototype and of those nested in it. -/
def Proto.listing : Proto → String
  | ⟨name, arity, defaults, vararg, upvalueCount, ⟨code, ⟨constants⟩, lines⟩⟩ =>
    heading ⟨name, arity, defaults, vararg, upvalueCount, ⟨code, ⟨constants⟩, lines⟩⟩ ++
      listingFrom ⟨constants⟩ lines 0 none code.toList "" ++ nestedListings constants

/-- The listings of the prototypes among the constants, each after a blank line. -/
def nestedListings : List Constant → String
  | [] => ""
  | .function p :: rest => "\n" ++ p.listing ++ nestedListings rest
  | _ :: rest => nestedListings rest

end

end ScriptEngine.Bytecode
