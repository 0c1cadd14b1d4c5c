import ScriptEngine.Machine.Display

/-!
# Functions of the core module

What the functions of the core module do. Slot 0 is the receiver, arguments follow, and the result
is pushed.
-/

namespace ScriptEngine

/-- The next state of an iteration by position over so many elements; `none` if the successor of the
position overflows. -/
def nextIndex (length : Nat) : Value → Option Value
  | .null => some (if 0 < length then .number .zero else .bool false)
  | .number i =>
    if Number.zero.lessEq i then
      (nextWord? i.clampWord).map fun next =>
        if next < length then .number (i.add (.ofNat 1)) else .bool false
    else some (.bool false)
  | _ => some (.bool false)

/-- The position an iteration state stands for. -/
def positionOf (state : Value) : Option Nat :=
  match state.index? with
  | some i => if 0 ≤ i then some i.toNat else none
  | none => none

/-- One step of the hash of a sequence. -/
def mixHash (hash item : UInt64) : UInt64 := hash * 1000003 ^^^ item

namespace Act

/-- Pushes a number. -/
def pushNumber (n : Number) : Act Unit := push (.number n)

/-- Pushes a count. -/
def pushCount (n : Nat) : Act Unit := pushNumber (.ofNat n)

/-- Pushes a truth value. -/
def pushBool (b : Bool) : Act Unit := push (.bool b)

/-- Pushes what a function of the receiver gives. -/
def pushOfReceiver (f : State → Value → Value) : Act Unit := do
  let v ← getSlot 0
  push (← gets (f · v))

/-- Pushes the element that the receiver has at the position in slot 1. -/
def pushElement (items : State → Value → Option (Array Value)) : Act Unit := do
  let v ← getSlot 0
  let state ← getSlot 1
  let element ← gets fun s => do
    let items ← items s v
    let i ← positionOf state
    items[i]?
  push (element.getD .null)

/-- The number of elements of a value, zero if it is no such sequence. -/
def sizeOf (items : State → Value → Option (Array Value)) (s : State) (v : Value) : Nat :=
  ((items s v).map (·.size)).getD 0

/-- The number of octets of a string. -/
def octetCount (s : State) (v : Value) : Nat := ((s.string? v).map (·.data.size)).getD 0

/-- Pushes the number of elements of the receiver. -/
def pushLength (size : State → Value → Nat) : Act Unit :=
  pushOfReceiver fun s v => .number (.ofNat (size s v))

/-- Pushes the next iteration state over the receiver after the state in slot 1. -/
def pushNextIndex (size : State → Value → Nat) : Act Unit := do
  let v ← getSlot 0
  let state ← getSlot 1
  push (← require (fun s => nextIndex (size s v) state) .overflow)

/-- Hash of a sequence of values. -/
def hashItems (hash : UInt64) : List Value → Act UInt64
  | [] => pure hash
  | v :: rest => do
    let item ← Act.hash v
    hashItems (mixHash hash item) rest

/-- Pushes whether the receiver and slot 1 are sequences with equal elements. -/
def pushItemsEqual (items : State → Value → Option (Array Value)) : Act Unit := do
  let a ← getSlot 0
  let b ← getSlot 1
  match ← gets (fun s => (items s a, items s b)) with
  | (some x, some y) => pushBool (← itemsEqual x y)
  | _ => pushBool false

/-- Whether the receiver is a generator that has completed, or no generator at all. -/
def generatorDone : Act Bool := do
  let v ← getSlot 0
  gets fun s =>
    match v.handle?.bind s.generator? with
    | some g => decide (g.state = .done)
    | none => true

/-- The receiver, if it is a table. -/
def receiverTable : Act (Option Handle) := do
  let v ← getSlot 0
  gets fun s => if (s.table? v).isSome then v.handle? else none

/-- The position after an iteration state of a table; `none` if the state is no position. -/
def tablePosition? : Value → Option (Option Nat)
  | .null => some none
  | .number n => if Number.zero.lessEq n then some (some n.clampWord) else none
  | _ => none

/-- The position of the entry after a given one; a value that is no table has none. -/
def nextEntry : Option ValueTable → Option Nat → Option (Option Nat)
  | some t, after => t.nextPosition? after
  | none, _ => some none

/-- Runs a function of the core module. -/
def runCore : CoreFunction → Act Unit
  | .objectEq => do
    let a ← getSlot 0
    let b ← getSlot 1
    pushBool (a.same b)
  | .objectHash => do
    match ← getSlot 0 with
    | .object h => pushCount (identityHash h).toNat
    | v => pushCount (← hash v).toNat
  | .objectString => do
    let v ← getSlot 0
    if (← gets (·.slotKind v)) = .instanceOf then pushText (← gets (·.plainText v))
    else pushText (← display v)
  | .numberString => do pushText (← checkNumber 0 "this").display
  | .stringLen => pushLength octetCount
  | .stringEq => do
    let a ← getSlot 0
    let b ← getSlot 1
    match ← bothStrings a b with
    | some (x, y) => pushBool (x == y)
    | none => pushBool false
  | .stringHash =>
    pushOfReceiver fun s v => .number (.ofNat ((s.string? v).map (·.hash.toNat) |>.getD 0))
  | .stringIter => pushNextIndex octetCount
  | .stringNext => do
    let v ← getSlot 0
    let state ← getSlot 1
    let octet ← gets fun s => do
      let str ← s.string? v
      let i ← positionOf state
      if h : i < str.data.size then some (str.data.get i h) else none
    match octet with
    | some b => push (.object (← intern ⟨#[b]⟩))
    | none => push .null
  | .listAdd => do
    let v ← getSlot 1
    match ← getSlot 0 with
    | .object h => modify (·.appendTo h v)
    | _ => pure ()
    push .null
  | .listLen => pushLength (sizeOf State.list?)
  | .listEq => do
    let a ← getSlot 0
    let b ← getSlot 1
    if a.same b then pushBool true else pushItemsEqual State.list?
  | .listIter => pushNextIndex (sizeOf State.list?)
  | .listNext => pushElement State.list?
  | .tupleLen => pushLength (sizeOf State.tuple?)
  | .tupleEq => pushItemsEqual State.tuple?
  | .tupleHash => do
    let v ← getSlot 0
    let items ← gets fun s => (s.tuple? v).getD #[]
    let hash ← hashItems 0x345678 items.toList
    -- fifty-three bits are exact as a number
    pushCount (hash.toNat % pow2 53)
  | .tupleIter => pushNextIndex (sizeOf State.tuple?)
  | .tupleNext => pushElement State.tuple?
  | .tableLen => pushLength fun s v => ((s.table? v).map (·.size)).getD 0
  | .tableContains => do
    let key ← getSlot 1
    match ← receiverTable with
    | some t => pushBool (← tableGet t key).isSome
    | none => pushBool false
  | .tableDelete => do
    let key ← getSlot 1
    match ← receiverTable with
    | some t => pushBool (← tableDelete t key)
    | none => pushBool false
  | .tableIter => do
    let v ← getSlot 0
    match tablePosition? (← getSlot 1) with
    | none => pushBool false
    | some after =>
      match ← require (fun s => nextEntry (s.table? v) after) .overflow with
      | some p => pushCount p
      | none => pushBool false
  | .tableNext => do
    let v ← getSlot 0
    let state ← getSlot 1
    let entry ← gets fun s => do
      let t ← s.table? v
      let i ← positionOf state
      t.entryAt? i
    push ((entry.map (·.key)).getD .null)
  | .generatorIsDone => do pushBool (← generatorDone)
  | .generatorIter => do
    if ← generatorDone then pushBool false
    else
      push (← getSlot 0)
      callSync 0
      modify State.drop
      pushBool (!(← generatorDone))
  | .generatorNext => do
    let v ← getSlot 0
    push (← gets fun s => ((v.handle?.bind s.generator?).map (·.lastYield)).getD .null)
  | .exceptionConstruct => do
    let v ← getSlot 0
    let err ← getSlot 1
    let cause ← getSlot 2
    if (← gets (·.string? err)).isNone then fail .typeException "err must be a String"
    else
      match v with
      | .object h =>
        modify fun s => s.setInstanceField h (s.special .err) err
        modify fun s => s.setInstanceField h (s.special .cause) cause
      | _ => pure ()
      push v
  | .exceptionPrintStacktrace => do
    let _ ← getSlot 0
    push .null
  | .exceptionGetStacktrace => do
    let v ← getSlot 0
    pushText (← require (·.traceback State.maxCauses v) .endless)
  | .print => do
    let v ← getSlot 1
    let items ← gets fun s => (s.tuple? v).getD #[]
    let parts ← items.toList.mapM display
    let line := String.intercalate " " parts
    modify fun s => { s with output := s.output.push line }
    push .null
  | .type => do
    let v ← getSlot 1
    push (.object (← classOf v))
  | .str => do
    let v ← getSlot 1
    pushText (← display v)
  | .assert => do
    if (← getSlot 1).isTruthy then push .null
    else
      let message ← display (← getSlot 2)
      fail .assertException message

end Act

end ScriptEngine
