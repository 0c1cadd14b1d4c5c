import ScriptEngine.Proofs.DataChanges

/-!
# Instructions that leave code alone

What host-side code does leaves code alone, and so do all instructions but those that move about in
code and those that make or change objects that hold code.
-/

namespace ScriptEngine.Act

open Bytecode

/-- An instruction that does not steer leaves code alone. A new class extends no class, and methods may
be added to one. -/
theorem leavesCode_execute {op : Op} (h : op.steers = false) : LeavesCode true (execute op) := by
  cases hd : op.declares with
  | false => exact (within_execute h hd).leavesCode
  | true =>
    cases op with
    | newClass i =>
      refine LeavesCode.bind (LeavesCode.bind (within_constantHandle i).leavesCode fun text => ?_)
        fun _ => (within_pure _).leavesCode
      exact LeavesCode.bind (leavesCode_alloc rfl) fun _ => (within_push _).leavesCode
    | defMethod i =>
      refine LeavesCode.bind (LeavesCode.bind (within_name i).leavesCode fun key => ?_) fun _ =>
        (within_pure _).leavesCode
      refine LeavesCode.bind within_pop.leavesCode fun m =>
        LeavesCode.bind (within_peek 0).leavesCode fun owner => ?_
      exact leavesCode_modify fun s => s.data_defineMethod owner key m
    | subclass => cases h
    | nativeMethod i => cases h
    | _ => cases hd

end ScriptEngine.Act
