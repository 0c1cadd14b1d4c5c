/-!
# Octets and text

Script strings are octet sequences. Text becomes octets by UTF-8, and octets become text by reading
UTF-8 and putting U+FFFD in place of each maximal stretch that cannot be continued to a character.
The 32-bit FNV-1a hash of an octet sequence is the hash under which strings are stored.
-/

namespace ScriptEngine.Text

/-- The UTF-8 octets of a text. -/
def octets (s : String) : ByteArray := s.toUTF8

/-- The 32-bit FNV-1a hash. -/
def fnv1a (bytes : ByteArray) : UInt32 :=
  bytes.foldl (fun hash b => (hash ^^^ b.toUInt32) * 16777619) 2166136261

/-- What a lead octet announces: the number of octets to follow, the bounds of the next one, and
the bits it contributes. -/
structure Lead where
  /-- Continuation octets still owed. -/
  owed : Nat
  /-- Least value of the next octet. -/
  low : Nat
  /-- Greatest value of the next octet. -/
  high : Nat
  /-- Bits of the code point read so far. -/
  code : Nat

/-- The lead of a character of two to four octets, if `b` can be one. -/
def lead? (b : Nat) : Option Lead :=
  if b < 0xC2 then none
  else if b ≤ 0xDF then some ⟨1, 0x80, 0xBF, b - 0xC0⟩
  else if b = 0xE0 then some ⟨2, 0xA0, 0xBF, 0⟩
  else if b = 0xED then some ⟨2, 0x80, 0x9F, 0xD⟩
  else if b ≤ 0xEF then some ⟨2, 0x80, 0xBF, b - 0xE0⟩
  else if b = 0xF0 then some ⟨3, 0x90, 0xBF, 0⟩
  else if b ≤ 0xF3 then some ⟨3, 0x80, 0xBF, b - 0xF0⟩
  else if b = 0xF4 then some ⟨3, 0x80, 0x8F, 4⟩
  else none

/-- The character that stands for octets that are no UTF-8. -/
def replacement : Char := Char.ofNat 0xFFFD

/-- Reads octets as UTF-8 with replacement. `pending` is the character being read, if one has
begun; an octet that cannot continue it ends it with a replacement and is read afresh. -/
def decodeFrom (pending : Option Lead) : List UInt8 → List Char
  | [] => if pending.isSome then [replacement] else []
  | b :: rest =>
    let n := b.toNat
    let fresh (_ : Unit) : List Char :=
      if n < 0x80 then Char.ofNat n :: decodeFrom none rest
      else
        match lead? n with
        | some l => decodeFrom (some l) rest
        | none => replacement :: decodeFrom none rest
    match pending with
    | none => fresh ()
    | some l =>
      if l.low ≤ n ∧ n ≤ l.high then
        let code := l.code * 64 + (n - 0x80)
        if l.owed ≤ 1 then Char.ofNat code :: decodeFrom none rest
        else decodeFrom (some ⟨l.owed - 1, 0x80, 0xBF, code⟩) rest
      else replacement :: fresh ()

/-- The text of an octet sequence, invalid stretches replaced. -/
def lossy (bytes : ByteArray) : String :=
  match String.fromUTF8? bytes with
  | some s => s
  | none => String.ofList (decodeFrom none bytes.toList)

end ScriptEngine.Text
