/-!
# Source positions

Every node of a program carries the line and column it was read from. Positions only label
diagnostics and the line table of compiled code.
-/

namespace ScriptEngine.Source

/-- A place in a source file. Lines and columns start at one by convention only. -/
structure Position where
  /-- Line number. -/
  line : Nat
  /-- Column number. -/
  column : Nat
  deriving DecidableEq, Repr, Inhabited

/-- The start of a line. -/
def Position.ofLine (line : Nat) : Position := ⟨line, 1⟩

/-- `line:column`. -/
def Position.text (p : Position) : String := s!"{p.line}:{p.column}"

end ScriptEngine.Source
