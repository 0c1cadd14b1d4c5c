import ScriptEngine.Bytecode.Archive
import ScriptEngine.Bytecode.Assembly
import ScriptEngine.Bytecode.Chunk
import ScriptEngine.Bytecode.Lines
import ScriptEngine.Bytecode.Listing
import ScriptEngine.Bytecode.Op
import ScriptEngine.Bytecode.Packed
import ScriptEngine.Bytecode.Proto
import ScriptEngine.Bytecode.Verify
import ScriptEngine.Compile.Diagnostic
import ScriptEngine.Compile.Emit
import ScriptEngine.Compile.Function
import ScriptEngine.Compile.Program
import ScriptEngine.Compile.Scope
import ScriptEngine.Heap.Basic
import ScriptEngine.Heap.Collect
import ScriptEngine.Heap.NameTable
import ScriptEngine.Heap.NativeFunction
import ScriptEngine.Heap.Object
import ScriptEngine.Heap.Value
import ScriptEngine.Heap.ValueTable
import ScriptEngine.Host.Evaluate
import ScriptEngine.Machine.Action
import ScriptEngine.Machine.Calls
import ScriptEngine.Machine.Classes
import ScriptEngine.Machine.Control
import ScriptEngine.Machine.Core
import ScriptEngine.Machine.CoreFunctions
import ScriptEngine.Machine.Display
import ScriptEngine.Machine.Exceptions
import ScriptEngine.Machine.Fields
import ScriptEngine.Machine.HostFunctions
import ScriptEngine.Machine.Instructions
import ScriptEngine.Machine.Iteration
import ScriptEngine.Machine.Loading
import ScriptEngine.Machine.Operators
import ScriptEngine.Machine.Run
import ScriptEngine.Machine.Slots
import ScriptEngine.Machine.State
import ScriptEngine.Number.Arithmetic
import ScriptEngine.Number.Basic
import ScriptEngine.Number.Decimal
import ScriptEngine.Proofs.Acceptance
import ScriptEngine.Proofs.Agreement
import ScriptEngine.Proofs.Allocation
import ScriptEngine.Proofs.Checking
import ScriptEngine.Proofs.Coding
import ScriptEngine.Proofs.Collecting
import ScriptEngine.Proofs.Conforming
import ScriptEngine.Proofs.CoreModule
import ScriptEngine.Proofs.Discipline
import ScriptEngine.Proofs.Emission
import ScriptEngine.Proofs.Evaluation
import ScriptEngine.Proofs.Functions
import ScriptEngine.Proofs.Generation
import ScriptEngine.Proofs.Growth
import ScriptEngine.Proofs.Handlers
import ScriptEngine.Proofs.Leaving
import ScriptEngine.Proofs.Looping
import ScriptEngine.Proofs.Programs
import ScriptEngine.Proofs.Regions
import ScriptEngine.Proofs.Rounds
import ScriptEngine.Proofs.Scoping
import ScriptEngine.Proofs.Stacking
import ScriptEngine.Proofs.Statements
import ScriptEngine.Proofs.UniqueStrings
import ScriptEngine.Proofs.VerifiedRuns
import ScriptEngine.Settings.Basic
import ScriptEngine.Settings.Document
import ScriptEngine.Settings.Reader
import ScriptEngine.Source.Position
import ScriptEngine.Source.Tree
import ScriptEngine.Source.Yields
import ScriptEngine.Text.Hex
import ScriptEngine.Text.Octets
import ScriptEngine.Text.Printable
import ScriptEngine.Text.Quoted
import ScriptEngine.Proofs.Packing
import ScriptEngine.Proofs.Archiving
import ScriptEngine.Proofs.Addressing
import ScriptEngine.Proofs.Sharing
import ScriptEngine.Proofs.Bucketing
import ScriptEngine.Proofs.CoreLedger
import ScriptEngine.Proofs.Counting
import ScriptEngine.Proofs.Furnishing
import ScriptEngine.Proofs.Keying
import ScriptEngine.Proofs.Lives
import ScriptEngine.Proofs.TableMap
import ScriptEngine.Proofs.TableHistory
import ScriptEngine.Proofs.Comparing
import ScriptEngine.Proofs.Descending
import ScriptEngine.Proofs.TableOrder
import ScriptEngine.Proofs.Resuming
import ScriptEngine.Proofs.TableLoops
import ScriptEngine.Proofs.Truncating
import ScriptEngine.Proofs.Binding
import ScriptEngine.Proofs.Verdict
import ScriptEngine.Proofs.Bitwise
import ScriptEngine.Proofs.GeneratorForm
import ScriptEngine.Proofs.Spreading
import ScriptEngine.Proofs.Framing
import ScriptEngine.Proofs.Fetching
import ScriptEngine.Proofs.LineRuns
import ScriptEngine.Proofs.Successors
import ScriptEngine.Proofs.Operands
import ScriptEngine.Proofs.Importing
