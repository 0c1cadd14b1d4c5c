import ScriptEngine.Bytecode.Chunk

/-!
# Structural checks

What has to hold of a prototype before the machine may run it: the line table covers the code, there
are no more defaults than parameters, the code ends in a return, operands refer to constants of the
right kind, jumps land in the code, and captures are known. `Proto.verify` checks a prototype and
every prototype nested in its constants, and names the first offence.
-/

namespace ScriptEngine.Bytecode

/-- The kind of constant an operand has to refer to. -/
inductive ConstantKind where
  | any | name | function | native
  deriving DecidableEq, Repr

/-- The word for a kind in messages. -/
def ConstantKind.describe : ConstantKind → String
  | .any => "value"
  | .name => "name"
  | .function => "function"
  | .native => "native"

/-- Whether a constant is of a kind. -/
def ConstantKind.admits : ConstantKind → Constant → Bool
  | .any, _ => true
  | .name, .string _ => true
  | .function, .function _ => true
  | .native, .native _ => true
  | _, _ => false

/-- The constants an instruction refers to and the kind each has to be. -/
def Op.constantOperands : Op → List (UInt16 × ConstantKind)
  | .invokeShort _ name | .invokeLong _ name => [(name, .name)]
  | .constant i => [(i, .any)]
  | .getGlobal i | .setGlobal i | .defineGlobal i | .getField i | .setField i | .superCall _ i
  | .superUnpack i | .invokeUnpack i | .superBind i | .newClass i | .defMethod i
  | .importModule i | .importFrom i | .importAll i => [(i, .name)]
  | .importName m n => [(m, .name), (n, .name)]
  | .closure i _ => [(i, .function)]
  | .native i | .nativeMethod i => [(i, .native)]
  | _ => []

/-- Ways in which a prototype can be malformed. -/
inductive Offence where
  | linesMismatch
  | tooManyDefaults
  | noFinalReturn
  | yieldOutsideGenerator
  | badConstant (kind : ConstantKind) (index : UInt16)
  | jumpOutOfRange (target : Nat)
  | loopOutOfRange (distance : UInt16)
  | unknownUpvalue (index : UInt16)
  | upvalueMismatch
  deriving DecidableEq, Repr

/-- The text of an offence. -/
def Offence.message : Offence → String
  | .linesMismatch => "line table does not cover the code"
  | .tooManyDefaults => "more defaults than parameters"
  | .noFinalReturn => "chunk does not end in RETURN"
  | .yieldOutsideGenerator => "yield outside a generator"
  | .badConstant kind index => s!"bad {kind.describe} constant {index.toNat}"
  | .jumpOutOfRange target => s!"jump to {target} out of range"
  | .loopOutOfRange distance => s!"loop back {distance.toNat} out of range"
  | .unknownUpvalue index => s!"unknown upvalue {index.toNat}"
  | .upvalueMismatch => "upvalue count mismatch"

/-- A malformed prototype: which function, at which instruction, and how. -/
structure Malformed where
  /-- Name of the function. -/
  function : String
  /-- Offset of the instruction. -/
  offset : Nat
  /-- What is wrong. -/
  offence : Offence
  deriving DecidableEq, Repr

/-- The full message. -/
def Malformed.message (m : Malformed) : String :=
  "invalid bytecode in `" ++ m.function ++ "` at " ++ toString m.offset ++ ": " ++
    m.offence.message

/-- The first operand that refers to no constant of its kind. -/
def operandOffence? (constants : Array Constant) (op : Op) : Option Offence :=
  op.constantOperands.findSome? fun (index, kind) =>
    match constants[index.toNat]? with
    | some c => if kind.admits c then none else some (.badConstant kind index)
    | none => some (.badConstant kind index)

/-- Whether a forward jump leaves the code. -/
def jumpOffence? (size : Nat) (op : Op) (offset : Nat) : Option Offence :=
  match op.forwardTarget? offset with
  | some target => if target > size then some (.jumpOutOfRange target) else none
  | none => none

/-- Backward jumps and captures. -/
def shapeOffence? (constants : Array Constant) (upvalueCount : UInt16) (op : Op) (offset : Nat) :
    Option Offence :=
  match op with
  | .loop back => if back.toNat > offset + 1 then some (.loopOutOfRange back) else none
  | .getUpvalue i | .setUpvalue i => if i ≥ upvalueCount then some (.unknownUpvalue i) else none
  | .closure i captures =>
    let mismatch :=
      match constants[i.toNat]? with
      | some (.function nested) => nested.upvalueCount.toNat != captures.length
      | _ => false
    if mismatch then some .upvalueMismatch
    else
      captures.findSome? fun c =>
        if !c.isLocal && c.index ≥ upvalueCount then some (.unknownUpvalue c.index) else none
  | _ => none

/-- The first thing wrong with one instruction. -/
def instructionOffence? (p : Proto) (isGenerator : Bool) (op : Op) (offset : Nat) :
    Option Offence :=
  if (op == .yield || op == .generatorClose) && !isGenerator then some .yieldOutsideGenerator
  else
    (operandOffence? p.chunk.constants op).or <|
      (jumpOffence? p.chunk.code.size op offset).or <|
        shapeOffence? p.chunk.constants p.upvalueCount op offset

/-- The first offending instruction of a list that starts at `offset`. -/
def codeOffence? (p : Proto) (isGenerator : Bool) : Nat → List Op → Option (Nat × Offence)
  | _, [] => none
  | offset, op :: rest =>
    match instructionOffence? p isGenerator op offset with
    | some o => some (offset, o)
    | none => codeOffence? p isGenerator (offset + 1) rest

/-- The first thing wrong with a prototype, nested prototypes aside. -/
def Proto.ownOffence? (p : Proto) : Option (Nat × Offence) :=
  if p.chunk.lines.size ≠ p.chunk.code.size then some (0, .linesMismatch)
  else if p.defaults.size > p.arity.toNat then some (0, .tooManyDefaults)
  else if p.chunk.code.back? != some .return then some (p.chunk.code.size, .noFinalReturn)
  else codeOffence? p (p.chunk.code.contains .generator) 0 p.chunk.code.toList

mutual

/-- Checks a prototype, then those nested in its constants, in order. -/
def Proto.verify : Proto → Except Malformed Unit
  | ⟨name, arity, defaults, vararg, upvalueCount, ⟨code, ⟨constants⟩, lines⟩⟩ =>
    let p : Proto := ⟨name, arity, defaults, vararg, upvalueCount, ⟨code, ⟨constants⟩, lines⟩⟩
    match p.ownOffence? with
    | some (offset, offence) => .error ⟨p.displayName, offset, offence⟩
    | none => verifyNested constants

/-- Checks the prototypes among the constants. -/
def verifyNested : List Constant → Except Malformed Unit
  | [] => .ok ()
  | .function p :: rest =>
    match p.verify with
    | .error m => .error m
    | .ok () => verifyNested rest
  | _ :: rest => verifyNested rest

end

end ScriptEngine.Bytecode
