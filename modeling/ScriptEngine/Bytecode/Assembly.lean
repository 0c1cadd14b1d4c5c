import ScriptEngine.Bytecode.Op

/-!
# Instructions by name

Every instruction has a name and a list of operands; stored code and tools refer to instructions in
this form. `opForms` lists all names, in the order of their numbers, with the operands each takes.
-/

namespace ScriptEngine.Bytecode

/-- An operand of an instruction. -/
inductive Operand where
  | byte (n : UInt8)
  | word (n : UInt16)
  | captures (cs : List Capture)
  deriving DecidableEq, Repr

/-- The operands an instruction takes, and the instruction they make. -/
inductive OpForm where
  | plain (op : Op)
  | byte (make : UInt8 → Op)
  | word (make : UInt16 → Op)
  | byteWord (make : UInt8 → UInt16 → Op)
  | wordWord (make : UInt16 → UInt16 → Op)
  | closure (make : UInt16 → List Capture → Op)

/-- All instruction names with their forms. -/
def opForms : List (String × OpForm) :=
  [("Constant", .word .constant), ("Null", .plain .null), ("True", .plain .true),
   ("False", .plain .false), ("Pop", .plain .pop), ("Dup", .plain .dup), ("Dup2", .plain .dup2),
   ("GetLocal", .word .getLocal), ("SetLocal", .word .setLocal), ("GetGlobal", .word .getGlobal),
   ("SetGlobal", .word .setGlobal), ("DefineGlobal", .word .defineGlobal),
   ("GetUpvalue", .word .getUpvalue), ("SetUpvalue", .word .setUpvalue),
   ("CloseUpvalue", .plain .closeUpvalue), ("GetField", .word .getField),
   ("SetField", .word .setField), ("GetSubscript", .plain .getSubscript),
   ("SetSubscript", .plain .setSubscript), ("Add", .plain .add), ("Subtract", .plain .subtract),
   ("Multiply", .plain .multiply), ("Divide", .plain .divide), ("Modulo", .plain .modulo),
   ("Power", .plain .power), ("Negate", .plain .negate), ("BitAnd", .plain .bitAnd),
   ("BitOr", .plain .bitOr), ("Xor", .plain .xor), ("ShiftLeft", .plain .shiftLeft),
   ("ShiftRight", .plain .shiftRight), ("Invert", .plain .invert), ("Equal", .plain .equal),
   ("Less", .plain .less), ("LessEqual", .plain .lessEqual), ("Greater", .plain .greater),
   ("GreaterEqual", .plain .greaterEqual), ("Is", .plain .is), ("Not", .plain .not),
   ("Jump", .word .jump), ("JumpIfFalse", .word .jumpIfFalse), ("JumpIfTrue", .word .jumpIfTrue),
   ("Loop", .word .loop), ("Call0", .plain (.callShort 0)), ("Call1", .plain (.callShort 1)),
   ("Call2", .plain (.callShort 2)), ("Call3", .plain (.callShort 3)),
   ("Call4", .plain (.callShort 4)), ("Call5", .plain (.callShort 5)),
   ("Call6", .plain (.callShort 6)), ("Call7", .plain (.callShort 7)),
   ("Call8", .plain (.callShort 8)), ("Call9", .plain (.callShort 9)),
   ("Call10", .plain (.callShort 10)), ("Call", .byte .callLong),
   ("Invoke0", .word (.invokeShort 0)), ("Invoke1", .word (.invokeShort 1)),
   ("Invoke2", .word (.invokeShort 2)), ("Invoke3", .word (.invokeShort 3)),
   ("Invoke4", .word (.invokeShort 4)), ("Invoke5", .word (.invokeShort 5)),
   ("Invoke6", .word (.invokeShort 6)), ("Invoke7", .word (.invokeShort 7)),
   ("Invoke8", .word (.invokeShort 8)), ("Invoke9", .word (.invokeShort 9)),
   ("Invoke10", .word (.invokeShort 10)), ("Invoke", .byteWord .invokeLong),
   ("CallUnpack", .plain .callUnpack), ("InvokeUnpack", .word .invokeUnpack),
   ("Super", .byteWord .superCall), ("SuperUnpack", .word .superUnpack),
   ("SuperBind", .word .superBind), ("Return", .plain .return), ("Closure", .closure .closure),
   ("Native", .word .native), ("NewList", .word .newList), ("NewTuple", .word .newTuple),
   ("NewTable", .word .newTable), ("Unpack", .byte .unpack), ("AppendList", .plain .appendList),
   ("ExtendList", .plain .extendList), ("ListToTuple", .plain .listToTuple),
   ("GetObject", .plain .getObject), ("NewClass", .word .newClass),
   ("Subclass", .plain .subclass), ("DefMethod", .word .defMethod),
   ("NativeMethod", .word .nativeMethod), ("SetupExcept", .word .setupExcept),
   ("SetupEnsure", .word .setupEnsure), ("PopHandler", .plain .popHandler),
   ("EndHandler", .plain .endHandler), ("Raise", .plain .raise), ("ForPrep", .plain .forPrep),
   ("ForIter", .plain .forIter), ("ForNext", .word .forNext), ("Generator", .plain .generator),
   ("Yield", .plain .yield), ("GeneratorClose", .plain .generatorClose),
   ("Import", .word .importModule), ("ImportFrom", .word .importFrom),
   ("ImportName", .wordWord .importName), ("ImportAll", .word .importAll)]

/-- The form of the instruction with a given name. -/
def opForm? (name : String) : Option OpForm := opForms.lookup name

/-- The name and the operands of an instruction. -/
def Op.named : Op → String × List Operand
  | .constant i => ("Constant", [.word i])
  | .null => ("Null", [])
  | .true => ("True", [])
  | .false => ("False", [])
  | .pop => ("Pop", [])
  | .dup => ("Dup", [])
  | .dup2 => ("Dup2", [])
  | .getLocal i => ("GetLocal", [.word i])
  | .setLocal i => ("SetLocal", [.word i])
  | .getGlobal i => ("GetGlobal", [.word i])
  | .setGlobal i => ("SetGlobal", [.word i])
  | .defineGlobal i => ("DefineGlobal", [.word i])
  | .getUpvalue i => ("GetUpvalue", [.word i])
  | .setUpvalue i => ("SetUpvalue", [.word i])
  | .closeUpvalue => ("CloseUpvalue", [])
  | .getField i => ("GetField", [.word i])
  | .setField i => ("SetField", [.word i])
  | .getSubscript => ("GetSubscript", [])
  | .setSubscript => ("SetSubscript", [])
  | .add => ("Add", [])
  | .subtract => ("Subtract", [])
  | .multiply => ("Multiply", [])
  | .divide => ("Divide", [])
  | .modulo => ("Modulo", [])
  | .power => ("Power", [])
  | .negate => ("Negate", [])
  | .bitAnd => ("BitAnd", [])
  | .bitOr => ("BitOr", [])
  | .xor => ("Xor", [])
  | .shiftLeft => ("ShiftLeft", [])
  | .shiftRight => ("ShiftRight", [])
  | .invert => ("Invert", [])
  | .equal => ("Equal", [])
  | .less => ("Less", [])
  | .lessEqual => ("LessEqual", [])
  | .greater => ("Greater", [])
  | .greaterEqual => ("GreaterEqual", [])
  | .is => ("Is", [])
  | .not => ("Not", [])
  | .jump i => ("Jump", [.word i])
  | .jumpIfFalse i => ("JumpIfFalse", [.word i])
  | .jumpIfTrue i => ("JumpIfTrue", [.word i])
  | .loop i => ("Loop", [.word i])
  | .callLong n => ("Call", [.byte n])
  | .invokeLong n i => ("Invoke", [.byte n, .word i])
  | .callUnpack => ("CallUnpack", [])
  | .invokeUnpack i => ("InvokeUnpack", [.word i])
  | .superCall n i => ("Super", [.byte n, .word i])
  | .superUnpack i => ("SuperUnpack", [.word i])
  | .superBind i => ("SuperBind", [.word i])
  | .return => ("Return", [])
  | .closure i captures => ("Closure", [.word i, .captures captures])
  | .native i => ("Native", [.word i])
  | .newList i => ("NewList", [.word i])
  | .newTuple i => ("NewTuple", [.word i])
  | .newTable i => ("NewTable", [.word i])
  | .unpack n => ("Unpack", [.byte n])
  | .appendList => ("AppendList", [])
  | .extendList => ("ExtendList", [])
  | .listToTuple => ("ListToTuple", [])
  | .getObject => ("GetObject", [])
  | .newClass i => ("NewClass", [.word i])
  | .subclass => ("Subclass", [])
  | .defMethod i => ("DefMethod", [.word i])
  | .nativeMethod i => ("NativeMethod", [.word i])
  | .setupExcept i => ("SetupExcept", [.word i])
  | .setupEnsure i => ("SetupEnsure", [.word i])
  | .popHandler => ("PopHandler", [])
  | .endHandler => ("EndHandler", [])
  | .raise => ("Raise", [])
  | .forPrep => ("ForPrep", [])
  | .forIter => ("ForIter", [])
  | .forNext i => ("ForNext", [.word i])
  | .generator => ("Generator", [])
  | .yield => ("Yield", [])
  | .generatorClose => ("GeneratorClose", [])
  | .importModule i => ("Import", [.word i])
  | .importFrom i => ("ImportFrom", [.word i])
  | .importName m i => ("ImportName", [.word m, .word i])
  | .importAll i => ("ImportAll", [.word i])
  | .callShort n => ("Call" ++ toString n.val, [])
  | .invokeShort n i => ("Invoke" ++ toString n.val, [.word i])

end ScriptEngine.Bytecode
