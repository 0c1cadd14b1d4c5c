import ScriptEngine.Machine.Control

/-!
# Fields and inheritance

Reading a field looks at the instance or module first and then for a method, which is bound to the
receiver. Only instances and modules can be written to. Declaring a subclass copies the methods of
its superclass.
-/

namespace ScriptEngine.Act

/-- The field an object holds by itself. -/
def ownField? (o : Object) (name : Key) : Option Value :=
  match o with
  | .instanceOf _ fields => fields.get? name
  | .module _ globals => globals.get? name
  | _ => none

/-- The object's own field of a value. -/
def ownFieldOf (v : Value) (name : Key) : Act (Option Value) :=
  match v with
  | .object h => do return ownField? (← object h) name
  | _ => pure none

/-- Whether a value is a module. -/
def isModule (v : Value) : Act Bool :=
  match v with
  | .object h => do
    match ← object h with
    | .module _ _ => return true
    | _ => return false
  | _ => pure false

/-- A method of the receiver's class, bound to it. -/
def boundMethodOf (v : Value) (name : Key) : Act Value := do
  let c ← classOf v
  match ← gets (·.method? c name) with
  | some method => bindMethod v method
  | none =>
    let message ← gets fun s =>
      "Object `" ++ s.className c ++ "` doesn't have field `" ++ s.textOf name.handle ++ "`"
    fail .fieldException message

/-- Reads a field: an instance's field, a module's global, or a method bound to the receiver. -/
def getField (v : Value) (name : Key) : Act Value := do
  match ← ownFieldOf v name with
  | some field => return field
  | none =>
    match v, ← isModule v with
    | .object h, true => noName h name
    | _, _ => boundMethodOf v name

/-- Whether fields of an object can be set. -/
def hasFields : Object → Bool
  | .instanceOf _ _ | .module _ _ => true
  | _ => false

/-- An object with a field set. -/
def withField (name : Key) (value : Value) : Object → Object
  | .instanceOf owner fields => .instanceOf owner (fields.insert name value)
  | .module text globals => .module text (globals.insert name value)
  | o => o

/-- The value has no fields. -/
def noFields {α : Type} (v : Value) : Act α := do
  let kind ← gets (·.kindOf v)
  fail .fieldException ("Object `" ++ kind ++ "` doesn't have fields")

/-- Sets a field of an instance, or a global of a module. -/
def setField (v : Value) (name : Key) (value : Value) : Act Unit := do
  match v with
  | .object h =>
    if hasFields (← object h) then modify (·.update h (withField name value)) else noFields v
  | _ => noFields v

/-- A class with a superclass and its methods, which win over those the class has. -/
def inherit (superclass : Handle) (methods : NameTable) : Object → Object
  | .classObject c =>
    .classObject { c with superclass := some superclass, methods := c.methods.merge methods }
  | o => o

/-- Makes the class on top of the stack inherit from the value below it. -/
def subclass : Act Unit := do
  let parent ← peek 1
  match ← peek 0 with
  | .object c =>
    match parent with
    | .object h =>
      match ← object h with
      | .classObject p =>
        if p.builtin then
          let name ← gets (·.className h)
          fail .typeException ("Cannot subclass builtin class `" ++ name ++ "`")
        else modify (·.update c (inherit h p.methods))
      | _ => fail .typeException "Superclass in class declaration must be a Class"
    | _ => fail .typeException "Superclass in class declaration must be a Class"
  | _ => fault .kind

/-- A method of the superclass. -/
def superMethod (superclass : Value) (name : Key) : Act Value := do
  match superclass with
  | .object h =>
    match ← object h with
    | .classObject c =>
      match c.methods.get? name with
      | some method => return method
      | none => noMethod h name
    | _ => fault .kind
  | _ => fault .kind

end ScriptEngine.Act
