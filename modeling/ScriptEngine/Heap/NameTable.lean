import ScriptEngine.Heap.Value

/-!
# Tables of names

Hash tables from interned strings to values, with open addressing and linear probing. A key carries
the hash of its string, and two keys are the same when their handles are. Deletion leaves a
tombstone that later probes walk over; tombstones go away when the table grows. They hold globals,
fields, methods, loaded modules, and the set of interned strings itself.
-/

namespace ScriptEngine

/-- An interned string with its hash. -/
structure Key where
  /-- The string object. -/
  handle : Handle
  /-- The hash of its octets. -/
  hash : UInt32
  deriving DecidableEq, Inhabited, Repr

namespace NameTable

/-- One place of a table. -/
inductive Slot where
  | empty
  | tombstone
  | full (key : Key) (value : Value)
  deriving Inhabited

end NameTable

/-- A hash table from names to values. -/
structure NameTable where
  /-- The places; their number is zero or a power of two. -/
  slots : Array NameTable.Slot
  /-- Entries held. -/
  count : Nat
  /-- Tombstones held. -/
  tombstones : Nat
  deriving Inhabited

namespace NameTable

/-- The table without entries and without places. -/
def empty : NameTable := ⟨#[], 0, 0⟩

/-- Number of places. -/
def capacity (t : NameTable) : Nat := t.slots.size

/-- Number of entries. -/
def size (t : NameTable) : Nat := t.count

/-- Whether there is no entry. -/
def isEmpty (t : NameTable) : Bool := t.count == 0

/-- The places a new table starts with. -/
def minCapacity : Nat := 8

/-- The place of a key, or where it would be put: the first tombstone on the way to the first empty
place, or else that empty place. Looks at no more than `steps` places from `index` on. -/
def probe (slots : Array Slot) (key : Handle) : Nat → Nat → Option Nat → Nat
  | 0, index, tombstone => tombstone.getD index
  | steps + 1, index, tombstone =>
    match slots[index]? with
    | none => tombstone.getD index
    | some .empty => tombstone.getD index
    | some .tombstone =>
      probe slots key steps ((index + 1) % slots.size) (tombstone.or (some index))
    | some (.full k _) =>
      if k.handle = key then index
      else probe slots key steps ((index + 1) % slots.size) tombstone

/-- The place of a key among the places of a table. -/
def findSlot (slots : Array Slot) (key : Key) : Nat :=
  probe slots key.handle slots.size (key.hash.toNat % slots.size) none

/-- The value under a key. -/
def get? (t : NameTable) (key : Key) : Option Value :=
  if t.count = 0 then none
  else
    match t.slots[findSlot t.slots key]? with
    | some (.full _ value) => some value
    | _ => none

/-- Whether a key has a value. -/
def contains (t : NameTable) (key : Key) : Bool := (t.get? key).isSome

/-- Puts an entry back while a table is rebuilt. -/
def reinsert (slots : Array Slot) (entry : Slot) : Array Slot :=
  match entry with
  | .full key value => slots.setIfInBounds (findSlot slots key) (.full key value)
  | _ => slots

/-- Doubles the places and drops the tombstones. -/
def grow (t : NameTable) : NameTable :=
  let capacity := max (t.slots.size * 2) minCapacity
  { slots := t.slots.foldl reinsert (Array.replicate capacity .empty)
    count := t.count
    tombstones := 0 }

/-- Whether one more entry would fill more than three quarters of the places. -/
def isCrowded (t : NameTable) : Bool := (t.count + t.tombstones + 1) * 4 > t.slots.size * 3

/-- Writes an entry into a table that has room, and says whether the key is new. -/
def place : NameTable → Key → Value → NameTable × Bool
  | ⟨slots, count, tombstones⟩, key, value =>
    let index := findSlot slots key
    match slots[index]? with
    | some (.full _ _) => (⟨slots.setIfInBounds index (.full key value), count, tombstones⟩, false)
    | some .tombstone =>
      (⟨slots.setIfInBounds index (.full key value), count + 1, tombstones - 1⟩, true)
    | _ => (⟨slots.setIfInBounds index (.full key value), count + 1, tombstones⟩, true)

/-- Inserts or overwrites an entry, and says whether the key is new. -/
def put (t : NameTable) (key : Key) (value : Value) : NameTable × Bool :=
  (if t.isCrowded then t.grow else t).place key value

/-- Inserts or overwrites an entry. -/
def insert (t : NameTable) (key : Key) (value : Value) : NameTable := (t.put key value).1

/-- Removes an entry, and says whether there was one. -/
def delete (t : NameTable) (key : Key) : NameTable × Bool :=
  if t.count = 0 then (t, false)
  else
    match t with
    | ⟨slots, count, tombstones⟩ =>
      let index := findSlot slots key
      match slots[index]? with
      | some (.full _ _) =>
        (⟨slots.setIfInBounds index .tombstone, count - 1, tombstones + 1⟩, true)
      | _ => (⟨slots, count, tombstones⟩, false)

/-- The entry of a place. -/
def Slot.pair? : Slot → Option (Key × Value)
  | .full key value => some (key, value)
  | _ => none

/-- The entries in the order of their places. -/
def toList (t : NameTable) : List (Key × Value) := t.slots.toList.filterMap Slot.pair?

/-- Copies every entry of another table, which wins over entries already there. -/
def merge (t other : NameTable) : NameTable :=
  other.toList.foldl (fun t (key, value) => t.insert key value) t

/-- Looks for a key by content: the first full place of the hash whose handle `isMatch` accepts, on
the way to the first empty place. -/
def probeContent (slots : Array Slot) (hash : UInt32) (isMatch : Handle → Bool) :
    Nat → Nat → Option Handle
  | 0, _ => none
  | steps + 1, index =>
    match slots[index]? with
    | none => none
    | some .empty => none
    | some .tombstone => probeContent slots hash isMatch steps ((index + 1) % slots.size)
    | some (.full k _) =>
      if k.hash = hash && isMatch k.handle then some k.handle
      else probeContent slots hash isMatch steps ((index + 1) % slots.size)

/-- The key of a hash that `isMatch` accepts. -/
def findContent (t : NameTable) (hash : UInt32) (isMatch : Handle → Bool) : Option Handle :=
  if t.count = 0 then none
  else probeContent t.slots hash isMatch t.slots.size (hash.toNat % t.slots.size)

/-- A place after its entry was dropped if its key is not live. -/
def Slot.keepIf (isLive : Handle → Bool) : Slot → Slot
  | .full key value => if isLive key.handle then .full key value else .tombstone
  | slot => slot

/-- Whether a place holds an entry whose key is not live. -/
def Slot.isStale (isLive : Handle → Bool) : Slot → Bool
  | .full key _ => !isLive key.handle
  | _ => false

/-- Drops the entries whose keys are not live, and gives their number. -/
def retain (t : NameTable) (isLive : Handle → Bool) : NameTable × Nat :=
  let removed := t.slots.countP (Slot.isStale isLive)
  (⟨t.slots.map (Slot.keepIf isLive), t.count - removed, t.tombstones + removed⟩, removed)

end NameTable

end ScriptEngine
