import ScriptEngine.Machine.CoreFunctions

/-!
# Functions of the host

What the functions that a host can register do, in terms of slots.
-/

namespace ScriptEngine.Act

/-- How many whole numbers, from zero on, are below a number. -/
def countBelow (n : Number) : Nat :=
  if Number.zero.less n then n.clampWord + if n.isWhole then 0 else 1 else 0

/-- Appends the whole numbers from `first` on to the list on top of the stack. -/
def appendRange (first : Nat) : Nat → Act Unit
  | 0 => pure ()
  | count + 1 => do
    pushCount first
    listAppend (-2)
    appendRange (first + 1) count

/-- The module whose globals a host function reads. -/
def mainModule : String := "__main__"

/-- Runs a function of the host. -/
def runHost : HostFunction → Act Unit
  | .add => do
    let a ← checkNumber 1 "a"
    let b ← checkNumber 2 "b"
    pushNumber (a.add b)
  | .concat => do
    let a ← checkText 1 "a"
    let b ← checkText 2 "b"
    pushText (a ++ b)
  | .pack2 => do
    push (← getSlot 1)
    push (← getSlot 2)
    pushTuple 2
  | .first => do push (← getSlot 1)
  | .receiver => do push (← getSlot 0)
  | .call => do
    push (← getSlot 1)
    push (← getSlot 2)
    callSync 1
  | .swallow => do
    push (← getSlot 1)
    if ← attempt (callSync 0) then pure () else pushField (-1) "_err"
  | .invoke => do
    let name ← checkText 2 "name"
    push (← getSlot 1)
    callMethodNamed name 0
  | .raise => do
    let name ← checkText 1 "class"
    let message ← checkText 2 "message"
    raiseNamed name message
  | .reraise => raiseSlot 1
  | .getField => do
    let name ← checkText 2 "name"
    pushField 1 name
  | .setField => do
    let name ← checkText 2 "name"
    push (← getSlot 3)
    storeField 1 name
  | .range => do
    let n ← checkNumber 1 "n"
    pushList
    appendRange 0 (countBelow n)
  | .kind => do
    let v ← getSlot 1
    pushText (← gets (·.slotKind v)).name
  | .setSlot => do
    setSlot 1 (.number (.ofNat 99))
    push (← getSlot 1)
  | .global => do
    let name ← checkText 1 "name"
    if ← pushGlobal mainModule name then pure () else push .null
  | .interrupt => do
    modify fun s => { s with interrupt := true }
    push .null
  | .collect => do
    modify fun s => (s.collect []).1
    push .null
  | .nothing => pure ()

/-- Runs a function that is not written in the script language. -/
def runNative : NativeFunction → Act Unit
  | .core f => runCore f
  | .host f => runHost f

end ScriptEngine.Act
