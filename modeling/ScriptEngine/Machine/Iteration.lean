import ScriptEngine.Machine.Calls

/-!
# Iteration

A loop over a value keeps four slots: the value, the iteration state, and two methods of the value's
class. The first method turns a state into the next one, beginning with null, and a falsy state ends
the loop; the second gives the element of a state. Spreading a value into a list follows the same
protocol, except that lists and tuples are copied.
-/

namespace ScriptEngine.Act

/-- The two iteration methods of a value. -/
def iterationMethods (v : Value) : Act (Value × Value) := do
  let c ← classOf v
  let iterKey ← special .iter
  let nextKey ← special .next
  match ← gets (·.method? c iterKey) with
  | none => noMethod c iterKey
  | some iter =>
    match ← gets (·.method? c nextKey) with
    | none => noMethod c nextKey
    | some next => return (iter, next)

/-- `[value, state] → [value, state, iter, next]` -/
def prepareLoop : Act Unit := do
  let v ← peek 1
  let (iter, next) ← iterationMethods v
  push iter
  push next

/-- Asks for the next state of the loop. -/
def askState : Act Control := do
  let v ← peek 3
  let state ← peek 2
  let iter ← peek 1
  push v
  push state
  return .invoke iter 1

/-- `[value, old, iter, next, state]`: stores the state and asks for its element, or jumps out of
the loop by `distance` if the state is falsy. -/
def askElement (distance : Nat) : Act Control := do
  let state ← pop
  setSlotAt (← start 3) state
  if state.isTruthy then
    let v ← peek 3
    let next ← peek 0
    push v
    push state
    return .invoke next 1
  else
    modify fun s => s.modifyFrame fun f => { f with ip := f.ip + distance }
    return .next

/-- Appends values to the list on top of the stack. -/
def extendTop (items : Array Value) : Act Unit := do
  match ← peek 0 with
  | .object h =>
    modify (·.update h fun
      | .list old => .list (old ++ items)
      | o => o)
  | _ => pure ()

/-- `[list, iterable] → [list]` for lists and tuples; anything else is spread element by element
over `[list, iterable, state]`. -/
def extendList : Act Control := do
  let v ← peek 0
  match ← gets fun s => (s.list? v).or (s.tuple? v) with
  | some items =>
    modify State.drop
    extendTop items
    return .next
  | none =>
    let (iter, next) ← iterationMethods v
    push .null
    return .spread v iter next

/-- Appends one element in `[list, iterable, state]`, or ends with `[list]`. -/
def spreadElement (v iter next : Value) : Act Control := do
  let state ← peek 0
  push v
  push state
  callMethodSync iter 1
  let state ← pop
  setSlotAt (← start 1) state
  if state.isTruthy then
    push v
    push state
    callMethodSync next 1
    let item ← pop
    match ← peek 2 with
    | .object h => modify (·.appendTo h item)
    | _ => pure ()
    return .spread v iter next
  else
    dropMany 2
    return .next

end ScriptEngine.Act
