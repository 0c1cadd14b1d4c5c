import Std.Data.HashMap
import ScriptEngine.Heap.Value

/-!
# Tables of values

The tables scripts see: keys are arbitrary values, and entries stay in the order of insertion. A
removed entry leaves a hole, and the table is compacted once holes outnumber entries. Equality of
keys may call script code, so this module knows only hashes: it gives the positions of the entries
of a hash, and the machine compares their keys.
-/

namespace ScriptEngine

namespace ValueTable

/-- A key and its value, with the hash of the key. -/
structure Entry where
  /-- Hash of the key. -/
  hash : UInt64
  /-- The key. -/
  key : Value
  /-- The value. -/
  value : Value
  deriving DecidableEq

end ValueTable

/-- An insertion-ordered table keyed by values. -/
structure ValueTable where
  /-- Entries by position; a hole is a removed entry. -/
  entries : Array (Option ValueTable.Entry)
  /-- Positions of the entries of each hash, in increasing order. -/
  buckets : Std.HashMap UInt64 (List Nat)
  /-- Number of entries that are no holes. -/
  live : Nat

namespace ValueTable

/-- The table without entries. -/
def empty : ValueTable := ⟨#[], ∅, 0⟩

instance : Inhabited ValueTable := ⟨empty⟩

/-- Number of entries. -/
def size (t : ValueTable) : Nat := t.live

/-- Whether there is no entry. -/
def isEmpty (t : ValueTable) : Bool := t.live == 0

/-- Positions of the entries of a hash. -/
def candidates (t : ValueTable) (hash : UInt64) : List Nat := t.buckets.getD hash []

/-- The entry at a position. -/
def entryAt? (t : ValueTable) (position : Nat) : Option Entry := t.entries[position]?.join

/-- Overwrites the value of the entry at a position, if there is one. -/
def setValue : ValueTable → Nat → Value → ValueTable
  | ⟨entries, buckets, live⟩, position, value =>
    ⟨entries.modify position fun e => e.map fun e => { e with value := value }, buckets, live⟩

/-- Appends an entry. -/
def insertNew : ValueTable → UInt64 → Value → Value → ValueTable
  | ⟨entries, buckets, live⟩, hash, key, value =>
    let position := entries.size
    ⟨entries.push (some ⟨hash, key, value⟩),
      buckets.insert hash (buckets.getD hash [] ++ [position]), live + 1⟩

/-- The entries in order. -/
def toList (t : ValueTable) : List Entry := t.entries.toList.filterMap id

/-- Closes the holes, keeping the order. -/
def compact (t : ValueTable) : ValueTable :=
  t.toList.foldl (fun t e => t.insertNew e.hash e.key e.value) empty

/-- Drops a position from the bucket of a hash; a bucket that becomes empty is removed. -/
def dropFromBucket (buckets : Std.HashMap UInt64 (List Nat)) (hash : UInt64) (position : Nat) :
    Std.HashMap UInt64 (List Nat) :=
  match (buckets.getD hash []).filter (· != position) with
  | [] => buckets.erase hash
  | rest => buckets.insert hash rest

/-- Whether holes outnumber entries in a table that is not small. -/
def isSparse (t : ValueTable) : Bool := t.entries.size > 16 && t.live * 2 < t.entries.size

/-- Removes the entry at a position and gives it. -/
def remove (t : ValueTable) (position : Nat) : ValueTable × Option Entry :=
  match t.entryAt? position with
  | none => (t, none)
  | some e =>
    let t : ValueTable :=
      ⟨t.entries.setIfInBounds position none, dropFromBucket t.buckets e.hash position, t.live - 1⟩
    (if t.isSparse then t.compact else t, some e)

/-- The first position of the next `steps` ones from `p` on that holds an entry. -/
def scan (t : ValueTable) : Nat → Nat → Option Nat
  | 0, _ => none
  | steps + 1, p => if (t.entryAt? p).isSome then some p else t.scan steps (p + 1)

/-- The first position from `start` on that holds an entry. -/
def nextFrom (t : ValueTable) (start : Nat) : Option Nat := t.scan (t.entries.size - start) start

/-- The first position after a given one, or from the start, that holds an entry; `none` if the
successor of the given one overflows. -/
def nextPosition? (t : ValueTable) : Option Nat → Option (Option Nat)
  | none => some (t.nextFrom 0)
  | some p => (nextWord? p).map t.nextFrom

/-- The position after a given one, or from the start, that holds an entry. Behind the greatest word
there is none. -/
def nextPosition (t : ValueTable) (after : Option Nat) : Option Nat := (t.nextPosition? after).join

/-- Below the last word, the next position is the first live one behind. -/
theorem nextPosition?_of_lt (t : ValueTable) {p : Nat} (h : p + 1 < pow2 64) :
    t.nextPosition? (some p) = some (t.nextFrom (p + 1)) := by
  rw [nextPosition?, nextWord?_of_lt h, Option.map_some]

/-- Below the last word, the next position is the first live one behind. -/
theorem nextPosition_of_lt (t : ValueTable) {p : Nat} (h : p + 1 < pow2 64) :
    t.nextPosition (some p) = t.nextFrom (p + 1) := by
  rw [nextPosition, t.nextPosition?_of_lt h, Option.join_some]

end ValueTable

end ScriptEngine
