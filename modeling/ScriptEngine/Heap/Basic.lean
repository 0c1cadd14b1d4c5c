import ScriptEngine.Heap.Object
import ScriptEngine.Text.Octets

/-!
# The heap

An arena of objects addressed by handles, with a list of free slots, an account of bytes, and the
set of interned strings. The last slot freed is the first one used again. Whether a collection is
due can be asked here; what is collected, and from which roots, is in `ScriptEngine.Heap.Collect`.
-/

namespace ScriptEngine

/-- Counts of what the collector has done. -/
structure GcStats where
  /-- Collections run. -/
  collections : Nat
  /-- Objects allocated. -/
  allocated : Nat
  /-- Objects freed. -/
  freed : Nat
  /-- Interned strings freed. -/
  internedFreed : Nat
  deriving DecidableEq, Inhabited, Repr

/-- An occupied slot of the arena. -/
structure Cell where
  /-- Bytes the object was charged when its size was last taken. -/
  bytes : Nat
  /-- The object. -/
  object : Object
  /-- Whether the collection under way has reached the object. -/
  marked : Bool
  deriving Inhabited

/-- The slot with the mark of its object cleared. -/
def Cell.unmark (c : Cell) : Cell := { c with marked := false }

/-- No object is marked. -/
def Cell.Clear (cells : Array (Option Cell)) : Prop :=
  ∀ (i : Nat) (c : Cell), cells[i]? = some (some c) → c.marked = false

namespace Cell.Clear

variable {cells : Array (Option Cell)}

/-- An empty arena has no marks. -/
theorem empty : Clear #[] := nofun

/-- A slot is filled with an object that is not marked. -/
theorem set (h : Clear cells) (i : Nat) (size : Nat) (o : Object) :
    Clear (cells.setIfInBounds i (some ⟨size, o, false⟩)) := by
  intro j c hc
  rw [Array.getElem?_setIfInBounds] at hc
  split at hc
  · split at hc
    · cases hc
      rfl
    · cases hc
  · exact h j c hc

/-- A slot is added for an object that is not marked. -/
theorem push (h : Clear cells) (size : Nat) (o : Object) :
    Clear (cells.push (some ⟨size, o, false⟩)) := by
  intro j c hc
  rw [Array.getElem?_push] at hc
  split at hc
  · cases hc
    rfl
  · exact h j c hc

/-- A change of a slot in place leaves its mark alone. -/
theorem modify (h : Clear cells) (i : Nat) {f : Cell → Cell} (hf : ∀ c, (f c).marked = c.marked) :
    Clear (cells.modify i (Option.map f)) := by
  intro j c hc
  rw [Array.getElem?_modify] at hc
  split at hc
  · obtain ⟨cell, hcell, hmap⟩ := Option.map_eq_some_iff.1 hc
    obtain ⟨c', rfl, rfl⟩ := Option.map_eq_some_iff.1 hmap
    exact (hf c').trans (h j c' hcell)
  · exact h j c hc

end Cell.Clear

/-- The arena and its accounts. Between collections no object is marked. -/
structure Heap where
  /-- Slots by index; `none` is a free slot. -/
  cells : Array (Option Cell)
  /-- Free slots, the one to be used next first. -/
  free : List Nat
  /-- The interned strings. Only keys matter. -/
  strings : NameTable
  /-- Bytes charged to live objects. -/
  bytes : Nat
  /-- A collection is due when more bytes than this are charged. -/
  nextCollection : Nat
  /-- Least value of that bound. -/
  firstThreshold : Nat
  /-- Factor from live bytes to the next bound. -/
  growRate : Number
  /-- Bytes that must not be exceeded. -/
  maxBytes : Option Nat
  /-- How many times collection has been disabled and not enabled again. -/
  disabled : Nat
  /-- Totals. -/
  stats : GcStats
  clear : Cell.Clear cells

namespace Heap

/-- A heap without objects. -/
def create (firstThreshold : Nat) (growRate : Number) (maxBytes : Option Nat) : Heap :=
  { cells := #[], free := [], strings := .empty, bytes := 0, nextCollection := firstThreshold
    firstThreshold := firstThreshold, growRate := growRate, maxBytes := maxBytes, disabled := 0
    stats := ⟨0, 0, 0, 0⟩, clear := .empty }

instance : Inhabited Heap := ⟨create 0 .zero none⟩

/-- Number of objects. -/
def liveCount (heap : Heap) : Nat := heap.cells.size - heap.free.length

/-- Number of interned strings. -/
def internedCount (heap : Heap) : Nat := heap.strings.size

/-- The object behind a handle; `none` for a handle that is not live. -/
def get? (heap : Heap) (h : Handle) : Option Object :=
  (heap.cells[h.index]?.join).map (·.object)

/-- Whether a handle has an object. -/
def isLive (heap : Heap) (h : Handle) : Bool := (heap.get? h).isSome

/-- Forbids collection until it is enabled as many times. -/
def disableCollection (heap : Heap) : Heap := { heap with disabled := heap.disabled + 1 }

/-- Takes back one `disableCollection`. -/
def enableCollection (heap : Heap) : Heap := { heap with disabled := heap.disabled - 1 }

/-- Whether collection is allowed. -/
def collectionEnabled (heap : Heap) : Bool := heap.disabled == 0

/-- Whether a collection is due before the next allocation. -/
def shouldCollect (heap : Heap) : Bool :=
  heap.collectionEnabled && decide (heap.bytes > heap.nextCollection)

/-- Whether so many more bytes would pass the ceiling. -/
def exceedsLimit (heap : Heap) (bytes : Nat) : Bool :=
  heap.maxBytes.any fun limit => decide (heap.bytes + bytes > limit)

/-- Puts an object into a free slot, or into a new one. -/
def insert (heap : Heap) (o : Object) : Heap × Handle :=
  match heap with
  | ⟨cells, free, strings, bytes, next, first, rate, limit, disabled, stats, clear⟩ =>
    let size := o.estimatedBytes
    let stats := { stats with allocated := stats.allocated + 1 }
    match free with
    | i :: free =>
      (⟨cells.setIfInBounds i (some ⟨size, o, false⟩), free, strings, bytes + size, next, first,
        rate, limit, disabled, stats, clear.set i size o⟩, ⟨i⟩)
    | [] =>
      let h : Handle := ⟨cells.size⟩
      (⟨cells.push (some ⟨size, o, false⟩), [], strings, bytes + size, next, first, rate, limit,
        disabled, stats, clear.push size o⟩, h)

/-- Takes the size of an object again after it changed in place. -/
def resize (heap : Heap) (h : Handle) : Heap :=
  match heap with
  | ⟨cells, free, strings, bytes, next, first, rate, limit, disabled, stats, clear⟩ =>
    match cells[h.index]? with
    | some (some cell) =>
      let size := cell.object.estimatedBytes
      let old := cell.bytes
      ⟨cells.modify h.index (Option.map fun c => { c with bytes := size }), free, strings,
        bytes + size - old, next, first, rate, limit, disabled, stats,
        clear.modify h.index fun _ => rfl⟩
    | _ => ⟨cells, free, strings, bytes, next, first, rate, limit, disabled, stats, clear⟩

/-- Changes the object behind a handle in place. -/
def update (heap : Heap) (h : Handle) (f : Object → Object) : Heap :=
  match heap with
  | ⟨cells, free, strings, bytes, next, first, rate, limit, disabled, stats, clear⟩ =>
    ⟨cells.modify h.index (Option.map fun ⟨b, o, m⟩ => ⟨b, f o, m⟩), free, strings, bytes, next,
      first, rate, limit, disabled, stats, clear.modify h.index fun _ => rfl⟩

/-! ## Strings -/

/-- The string behind a handle. -/
def string? (heap : Heap) (h : Handle) : Option StringObject :=
  match heap.get? h with
  | some (.string s) => some s
  | _ => none

/-- The interned string of some octets. -/
def findInterned (heap : Heap) (data : ByteArray) (hash : UInt32) : Option Handle :=
  heap.strings.findContent hash fun h =>
    match heap.string? h with
    | some s => s.data == data
    | none => data.isEmpty

/-- A new string outside the set of interned strings. -/
def newString (heap : Heap) (data : ByteArray) : Heap × Handle :=
  heap.insert (.string ⟨data, Text.fnv1a data, false⟩)

/-- The interned string of some octets, made if there is none. -/
def intern (heap : Heap) (data : ByteArray) : Heap × Handle :=
  let hash := Text.fnv1a data
  match heap.findInterned data hash with
  | some h => (heap, h)
  | none =>
    let (heap, h) := heap.insert (.string ⟨data, hash, true⟩)
    ({ heap with strings := heap.strings.insert ⟨h, hash⟩ .null }, h)

/-- The key of a name, which is interned. -/
def internKey (heap : Heap) (name : String) : Heap × Key :=
  let data := Text.octets name
  let (heap, h) := heap.intern data
  (heap, ⟨h, Text.fnv1a data⟩)

/-- The key of a name that is already interned. -/
def lookupKey (heap : Heap) (name : String) : Option Key :=
  let data := Text.octets name
  let hash := Text.fnv1a data
  (heap.findInterned data hash).map (⟨·, hash⟩)

/-- The key of a string object; a string that is not interned is interned first. -/
def keyOf (heap : Heap) (h : Handle) : Heap × Option Key :=
  match heap.string? h with
  | none => (heap, none)
  | some s =>
    if s.interned then (heap, some ⟨h, s.hash⟩)
    else
      let (heap, h) := heap.intern s.data
      (heap, some ⟨h, s.hash⟩)

end Heap

end ScriptEngine
