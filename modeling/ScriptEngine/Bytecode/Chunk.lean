import ScriptEngine.Bytecode.Proto

/-!
# Building chunks

Instructions are appended one at a time with their lines. Strings and numbers enter the constant
pool once, numbers being compared by bit pattern. A forward jump is emitted before its target is
known and patched when the target is the next instruction.
-/

namespace ScriptEngine.Bytecode.Chunk

/-- Number of instructions, and the offset of the next one. -/
def size (c : Chunk) : Nat := c.code.size

/-- Whether there is no instruction. -/
def isEmpty (c : Chunk) : Bool := c.code.isEmpty

/-- Appends an instruction from a source line. -/
def emit : Chunk → Op → Nat → Chunk
  | ⟨code, constants, lines⟩, op, line => ⟨code.push op, constants, lines.push line⟩

/-- Whether the line of one more instruction cannot be counted. -/
def linesFull (c : Chunk) (line : Nat) : Bool := c.lines.isFull line

/-- Whether a pool entry stands for the constant, so that it need not be added again. -/
def shares (entry constant : Constant) : Bool :=
  match entry, constant with
  | .string a, .string b => a == b
  | .number a, .number b => a.bits == b.bits
  | _, _ => false

/-- Whether constants of this kind are entered once. -/
def isShared : Constant → Bool
  | .string _ | .number _ => true
  | _ => false

/-- The most entries a constant pool can have, since an index has sixteen bits. -/
def maxConstants : Nat := 65536

/-- Enters a constant into the pool and gives its index, or `none` if the pool is full. -/
def addConstant? (c : Chunk) (constant : Constant) : Option (UInt16 × Chunk) :=
  let existing := if isShared constant then c.constants.findIdx? (shares · constant) else none
  match existing with
  | some i => some (UInt16.ofNat i, c)
  | none =>
    match c with
    | ⟨code, constants, lines⟩ =>
      if constants.size < maxConstants then
        some (UInt16.ofNat constants.size, ⟨code, constants.push constant, lines⟩)
      else none

/-- The line of the instruction at `offset`. -/
def lineAt? (c : Chunk) (offset : Nat) : Option Nat := c.lines.lineAt? offset

/-- The greatest distance a jump can cover. -/
def maxJump : Nat := 65535

/-- Makes the forward jump at `offset` land on the next instruction to be emitted, or gives `none`
if the distance does not fit. -/
def patchJump? : Chunk → Nat → Option Chunk
  | ⟨code, constants, lines⟩, offset =>
    let distance := code.size - offset - 1
    if distance ≤ maxJump then
      some ⟨code.modify offset fun op => (op.retarget? (UInt16.ofNat distance)).getD op,
        constants, lines⟩
    else none

/-- The string constant at an index. -/
def string? (c : Chunk) (index : UInt16) : Option String :=
  match c.constants[index.toNat]? with
  | some (.string s) => some s
  | _ => none

end ScriptEngine.Bytecode.Chunk
