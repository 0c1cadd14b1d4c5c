import Mathlib.Data.Int.Bitwise
import ScriptEngine.Number.Arithmetic
import ScriptEngine.Proofs.Counting
import ScriptEngine.Proofs.Furnishing

/-!
# Bitwise operators

A bitwise operator works on the integers that its operands truncate to, provided that they have 64
bits in two's complement. Whether a number has such an integer is a matter of two comparisons, which
let through a fraction, one end of the range, and no NaN. The operators act on integers of any size
as on infinite two's-complement words. Only a shift to the left can leave the range, and wraps.
-/

namespace ScriptEngine

/-! ## Two's complement -/

/-- Integers with the same bits are equal. -/
theorem eq_of_testBit_eq {a b : Int} (h : ∀ k, a.testBit k = b.testBit k) : a = b := by
  -- far enough to the left a natural number has zeros and a negative one has ones
  have hsign : ∀ m n : Nat, ∃ k, m.testBit k = false ∧ n.testBit k = false := by
    intro m n
    refine ⟨m + n, Nat.testBit_lt_two_pow ?_, Nat.testBit_lt_two_pow ?_⟩
    · exact lt_of_le_of_lt (Nat.le_add_right m n) Nat.lt_two_pow_self
    · exact lt_of_le_of_lt (Nat.le_add_left n m) Nat.lt_two_pow_self
  cases a with
  | ofNat m =>
    cases b with
    | ofNat n => exact congrArg Int.ofNat (Nat.eq_of_testBit_eq h)
    | negSucc n =>
      obtain ⟨k, hm, hn⟩ := hsign m n
      have hk := h k
      simp [Int.testBit, hm, hn] at hk
  | negSucc m =>
    cases b with
    | ofNat n =>
      obtain ⟨k, hm, hn⟩ := hsign m n
      have hk := h k
      simp [Int.testBit, hm, hn] at hk
    | negSucc n =>
      have hk : ∀ k, m.testBit k = n.testBit k := fun k => by simpa [Int.testBit] using h k
      exact congrArg Int.negSucc (Nat.eq_of_testBit_eq hk)

/-- A word is an integer that repeats its sign bit for ever. -/
theorem testBit_toInt (w : BitVec 64) (k : Nat) :
    w.toInt.testBit k = if k < 64 then w.getLsbD k else w.msb := by
  have hlt : w.toNat < 2 ^ 64 := w.isLt
  cases hm : w.msb with
  | false =>
    have hw : w.toInt = Int.ofNat w.toNat := by simp [BitVec.toInt_eq_msb_cond, hm]
    rw [hw]
    show w.toNat.testBit k = _
    rw [BitVec.testBit_toNat]
    split
    · rfl
    · exact BitVec.getLsbD_of_ge w k (by omega)
  | true =>
    have hw : w.toInt = Int.negSucc (2 ^ 64 - (w.toNat + 1)) := by
      rw [BitVec.toInt_eq_msb_cond, if_pos hm, Int.negSucc_eq]
      omega
    rw [hw]
    show (!(2 ^ 64 - (w.toNat + 1)).testBit k) = _
    rw [Nat.testBit_two_pow_sub_succ hlt, BitVec.testBit_toNat]
    split <;> simp_all

/-- Bits that both have. -/
theorem toInt_land (u v : BitVec 64) : (u &&& v).toInt = u.toInt.land v.toInt := by
  refine eq_of_testBit_eq fun k => ?_
  rw [Int.testBit_land]
  simp only [testBit_toInt]
  split <;> simp

/-- Bits that one of the two has. -/
theorem toInt_lor (u v : BitVec 64) : (u ||| v).toInt = u.toInt.lor v.toInt := by
  refine eq_of_testBit_eq fun k => ?_
  rw [Int.testBit_lor]
  simp only [testBit_toInt]
  split <;> simp

/-- Bits that just one of the two has. -/
theorem toInt_lxor (u v : BitVec 64) : (u ^^^ v).toInt = u.toInt.xor v.toInt := by
  refine eq_of_testBit_eq fun k => ?_
  rw [Int.testBit_lxor]
  simp only [testBit_toInt]
  split <;> simp

/-- Bits that are not there. -/
theorem toInt_lnot (u : BitVec 64) : (~~~u).toInt = u.toInt.lnot := by
  refine eq_of_testBit_eq fun k => ?_
  rw [Int.testBit_lnot]
  simp only [testBit_toInt]
  split <;> simp_all

/-- A shift to the left multiplies, and wraps around. -/
theorem toInt_shiftLeft_wraps (u : BitVec 64) (n : Nat) :
    (u <<< n).toInt = (u.toInt * 2 ^ n).bmod (2 ^ 64) := by
  have hword : u.toInt = (u.toNat : Int).bmod (2 ^ 64) := BitVec.toInt_eq_toNat_bmod u
  rw [BitVec.toInt_shiftLeft, Nat.shiftLeft_eq, hword, Int.bmod_mul_bmod]
  push_cast
  rfl

/-- A shift to the right divides, rounding down. -/
theorem toInt_shiftRight (u : BitVec 64) (n : Nat) :
    (u.sshiftRight n).toInt = u.toInt / 2 ^ n := by
  rw [BitVec.toInt_sshiftRight, Int.shiftRight_eq_div_pow]
  push_cast
  rfl

/-! ## Numbers with an integer -/

namespace Number

/-- The number is finite, and what is left of it when its fraction is dropped has 64 bits. -/
structure Truncates (n : Number) (i : Int) : Prop where
  /-- It is neither infinite nor a NaN. -/
  finite : n.isFinite = true
  /-- The integer is the number without its fraction. -/
  truncated : n.truncate = i
  /-- The integer is not below the 64-bit integers. -/
  least : -2 ^ 63 ≤ i
  /-- The integer is not above the 64-bit integers. -/
  greatest : i < 2 ^ 63

/-- The integer of a number is what the number truncates to. -/
theorem toInt64?_eq_some {n : Number} {i : Int} : n.toInt64? = some i ↔ n.Truncates i := by
  have hmin : minInt64 = -2 ^ 63 := rfl
  have hmax : maxInt64 = 2 ^ 63 - 1 := rfl
  unfold toInt64?
  constructor
  · intro h
    split at h
    case isTrue hc =>
      simp only [Bool.and_eq_true, decide_eq_true_eq] at hc
      cases h
      exact ⟨hc.1, rfl, by omega, by omega⟩
    case isFalse => cases h
  · intro h
    have hrange : minInt64 ≤ n.truncate ∧ n.truncate ≤ maxInt64 := by
      have hl := h.least
      have hg := h.greatest
      rw [h.truncated]
      omega
    rw [if_pos (by simp [h.finite, hrange]), h.truncated]

/-- A number has none exactly if it truncates to none. -/
theorem toInt64?_eq_none {n : Number} : n.toInt64? = none ↔ ∀ i, ¬ n.Truncates i := by
  rw [Option.eq_none_iff_forall_ne_some]
  exact forall_congr' fun i => not_congr toInt64?_eq_some

/-- The integer as a word. -/
theorem toInt_word {n : Number} {i : Int} (h : n.Truncates i) : (word i).toInt = i := by
  have hl := h.least
  have hg := h.greatest
  unfold word
  rw [BitVec.toInt_ofInt]
  exact Int.bmod_eq_of_le (by omega) (by omega)

/-- The low six bits of a word are its integer modulo 64. -/
theorem toNat_word_mod (i : Int) : (word i).toNat % 64 = (i % 64).toNat := by
  unfold word
  rw [BitVec.toNat_ofInt]
  omega

/-! ### The two comparisons -/

/-- `-2^63`, the least number with an integer of 64 bits. -/
def lowEnd : Number := ⟨0xC3E0000000000000⟩

/-- `2^63`, the least number that is too large. -/
def highEnd : Number := ⟨0x43E0000000000000⟩

/-- A number below a power of two has its whole part there, and the other way round. The exponent
field of `2 ^ 63` is 1086. -/
theorem wholePart_bounds {n : Number} (hn : n.isFinite = true) :
    (n.magnitude < 1086 * 2 ^ 52 → n.wholePart < 2 ^ 63) ∧
      (n.magnitude = 1086 * 2 ^ 52 → n.wholePart = 2 ^ 63) ∧
      (1086 * 2 ^ 52 < n.magnitude → 2 ^ 63 < n.wholePart) := by
  have hfields : n.magnitude = n.exponentField * 2 ^ 52 + n.fractionField := by
    unfold magnitude exponentField fractionField
    simp only [pow2_eq]
    omega
  have hfraction : n.fractionField < 2 ^ 52 := Nat.mod_lt _ (by decide)
  have hfinite : n.exponentField < 2047 := by
    have hmag : n.magnitude < 0x7ff0000000000000 := by simpa [isFinite] using hn
    omega
  by_cases hsmall : n.exponentField ≤ 1085
  · -- at least ten bits below the end, with a significand of at most 53 bits
    have hsig : n.significand < 2 ^ 53 := by
      unfold significand
      simp only [pow2_eq]
      split <;> omega
    have hpart : n.wholePart < 2 ^ 63 := by
      unfold wholePart
      simp only [pow2_eq]
      split
      case isTrue hscale =>
        have hshift : n.scale.toNat ≤ 10 := by
          unfold scale
          split <;> omega
        have hpow : 2 ^ n.scale.toNat ≤ 2 ^ 10 := Nat.pow_le_pow_right (by decide) hshift
        calc n.significand * 2 ^ n.scale.toNat
            ≤ n.significand * 2 ^ 10 := Nat.mul_le_mul_left _ hpow
          _ < 2 ^ 63 := by omega
      case isFalse =>
        exact lt_of_le_of_lt (Nat.div_le_self _ _) (by omega)
    refine ⟨fun _ => hpart, fun h => ?_, fun h => ?_⟩ <;> omega
  · -- the hidden bit alone reaches the end
    have hnormal : n.exponentField ≠ 0 := by omega
    have hsig : n.significand = 2 ^ 52 + n.fractionField := by
      unfold significand
      rw [if_neg hnormal, pow2_eq]
    have hscale : n.scale = (n.exponentField : Int) - 1075 := by
      unfold scale
      rw [if_neg hnormal]
    have hpart : n.wholePart = (2 ^ 52 + n.fractionField) * 2 ^ (n.exponentField - 1075) := by
      unfold wholePart
      rw [if_pos (by omega), hsig, hscale, pow2_eq,
        show ((n.exponentField : Int) - 1075).toNat = n.exponentField - 1075 by omega]
    have hpow : 2 ^ 11 ≤ 2 ^ (n.exponentField - 1075) :=
      Nat.pow_le_pow_right (by decide) (by omega)
    refine ⟨fun h => by omega, fun h => ?_, fun h => ?_⟩
    · have hexp : n.exponentField - 1075 = 11 := by omega
      have hfrac : n.fractionField = 0 := by omega
      rw [hpart, hexp, hfrac]
      decide
    · rw [hpart]
      by_cases hexp : n.exponentField = 1086
      · have hfrac : 0 < n.fractionField := by omega
        rw [hexp]
        omega
      · have hmore : 2 ^ 12 ≤ 2 ^ (n.exponentField - 1075) :=
          Nat.pow_le_pow_right (by decide) (by omega)
        calc 2 ^ 63 < 2 ^ 52 * 2 ^ 12 := by decide
          _ ≤ (2 ^ 52 + n.fractionField) * 2 ^ (n.exponentField - 1075) :=
            Nat.mul_le_mul (Nat.le_add_right _ _) hmore

/-- The numbers with an integer of 64 bits are those from `-2^63` on that are less than `2^63`. -/
theorem truncates_iff_compares {n : Number} :
    (∃ i, n.Truncates i) ↔ lowEnd.lessEq n = true ∧ n.less highEnd = true := by
  have hlow : lowEnd.isNaN = false ∧ lowEnd.rank = -(1086 * 2 ^ 52) := by decide
  have hhigh : highEnd.isNaN = false ∧ highEnd.rank = 1086 * 2 ^ 52 := by decide
  have hcompare : (lowEnd.lessEq n = true ∧ n.less highEnd = true) ↔
      n.isNaN = false ∧ -(1086 * 2 ^ 52) ≤ n.rank ∧ n.rank < 1086 * 2 ^ 52 := by
    unfold lessEq less
    simp only [hlow, hhigh, Bool.not_false, Bool.true_and, Bool.and_true, Bool.and_eq_true,
      Bool.not_eq_true', decide_eq_true_eq]
    tauto
  rw [hcompare]
  constructor
  · rintro ⟨i, h⟩
    have hnan : n.isNaN = false := by
      have hmag : n.magnitude < 0x7ff0000000000000 := by simpa [isFinite] using h.finite
      unfold isNaN
      exact decide_eq_false (by omega)
    obtain ⟨-, -, hgt⟩ := wholePart_bounds h.finite
    have hrank := h.truncated
    have hl := h.least
    have hg := h.greatest
    unfold truncate at hrank
    unfold rank
    refine ⟨hnan, ?_⟩
    split at hrank
    case isTrue hneg =>
      rw [if_pos hneg]
      omega
    case isFalse hpos =>
      rw [if_neg hpos]
      have hne : n.magnitude ≠ 1086 * 2 ^ 52 := fun heq => by
        have := (wholePart_bounds h.finite).2.1 heq
        omega
      omega
  · intro ⟨_, hl, hg⟩
    have hmag : n.magnitude ≤ 1086 * 2 ^ 52 := by
      unfold rank at hl hg
      split at hl
      case isTrue => omega
      case isFalse hpos =>
        rw [if_neg hpos] at hg
        omega
    have hfinite : n.isFinite = true := decide_eq_true (by omega)
    obtain ⟨hlt, heq, -⟩ := wholePart_bounds hfinite
    have hpart : n.wholePart ≤ 2 ^ 63 := by omega
    refine ⟨n.truncate, hfinite, rfl, ?_, ?_⟩
    · unfold truncate
      split <;> omega
    · unfold truncate rank at *
      split
      case isTrue => omega
      case isFalse hpos =>
        rw [if_neg hpos] at hg
        omega

/-! ### On numbers that have one -/

/-- The operator works on the integers. -/
theorem bitwise_eq (f : BitVec 64 → BitVec 64 → BitVec 64) {a b : Number} {x y : Int}
    (ha : a.Truncates x) (hb : b.Truncates y) :
    bitwise f a b = some (ofInt (f (word x) (word y)).toInt) := by
  unfold bitwise
  rw [toInt64?_eq_some.2 ha, toInt64?_eq_some.2 hb]
  rfl

/-- If one of the operands has none, there is no result. -/
theorem bitwise_eq_none (f : BitVec 64 → BitVec 64 → BitVec 64) {a b : Number}
    (h : (∀ x, ¬ a.Truncates x) ∨ ∀ y, ¬ b.Truncates y) : bitwise f a b = none := by
  unfold bitwise
  cases h with
  | inl ha =>
    rw [toInt64?_eq_none.2 ha]
    rfl
  | inr hb =>
    rw [toInt64?_eq_none.2 hb]
    cases a.toInt64? <;> rfl

/-- The complement works on the integer. -/
theorem invert_eq {a : Number} {x : Int} (ha : a.Truncates x) :
    a.invert = some (ofInt x.lnot) := by
  unfold invert
  rw [toInt64?_eq_some.2 ha]
  show some (ofInt (~~~word x).toInt) = _
  rw [toInt_lnot, toInt_word ha]

/-- A number without an integer has no complement. -/
theorem invert_eq_none {a : Number} (ha : ∀ x, ¬ a.Truncates x) : a.invert = none := by
  unfold invert
  rw [toInt64?_eq_none.2 ha]
  rfl

end Number

/-! ## The instructions -/

/-- The bitwise operators with two operands. -/
inductive BitOperator where
  | and | or | xor | shiftLeft | shiftRight
  deriving DecidableEq, Repr

namespace BitOperator

/-- The instruction of an operator. -/
def instruction : BitOperator → Bytecode.Op
  | .and => .bitAnd
  | .or => .bitOr
  | .xor => .xor
  | .shiftLeft => .shiftLeft
  | .shiftRight => .shiftRight

/-- What an operator does to integers. The count of a shift is taken modulo 64, also a negative one.
A shift to the left drops what has moved out of 64 bits, one to the right rounds down. -/
def onIntegers (x y : Int) : BitOperator → Int
  | .and => x.land y
  | .or => x.lor y
  | .xor => x.xor y
  | .shiftLeft => (x * 2 ^ (y % 64).toNat).bmod (2 ^ 64)
  | .shiftRight => x / 2 ^ (y % 64).toNat

/-- The operator of the machine. -/
def operator : BitOperator → Operator
  | .and => .bitAnd
  | .or => .bitOr
  | .xor => .xor
  | .shiftLeft => .shiftLeft
  | .shiftRight => .shiftRight

/-- The operator on words. -/
def onWords (op : BitOperator) (u v : BitVec 64) : BitVec 64 :=
  match op with
  | .and => u &&& v
  | .or => u ||| v
  | .xor => u ^^^ v
  | .shiftLeft => u <<< (v.toNat % 64)
  | .shiftRight => u.sshiftRight (v.toNat % 64)

/-- What the instruction of an operator does. -/
theorem execute_instruction (op : BitOperator) :
    Act.execute op.instruction = Act.binary op.operator := by
  cases op <;> rfl

/-- An operator on numbers works on their words. -/
theorem onNumbers_operator (op : BitOperator) (a b : Number) :
    op.operator.onNumbers a b = (Number.bitwise op.onWords a b).map .number := by
  cases op <;> rfl

/-- What an operator does to words is what it does to integers. -/
theorem toInt_onWords (op : BitOperator) {a b : Number} {x y : Int} (ha : a.Truncates x)
    (hb : b.Truncates y) :
    (op.onWords (Number.word x) (Number.word y)).toInt = op.onIntegers x y := by
  cases op with
  | and =>
    show (Number.word x &&& Number.word y).toInt = x.land y
    rw [toInt_land, Number.toInt_word ha, Number.toInt_word hb]
  | or =>
    show (Number.word x ||| Number.word y).toInt = x.lor y
    rw [toInt_lor, Number.toInt_word ha, Number.toInt_word hb]
  | xor =>
    show (Number.word x ^^^ Number.word y).toInt = x.xor y
    rw [toInt_lxor, Number.toInt_word ha, Number.toInt_word hb]
  | shiftLeft =>
    show (Number.word x <<< ((Number.word y).toNat % 64)).toInt = _
    rw [toInt_shiftLeft_wraps, Number.toInt_word ha, Number.toNat_word_mod]
    rfl
  | shiftRight =>
    show ((Number.word x).sshiftRight ((Number.word y).toNat % 64)).toInt = _
    rw [toInt_shiftRight, Number.toInt_word ha, Number.toNat_word_mod]
    rfl

end BitOperator

namespace Proc

/-- An action has failed with a new exception of a class, above what stood on the stack. Only a
ceiling of the heap can have prevented it. -/
def Rejects {α : Type} (s : State) (c : CoreClass) (message : String) (p : Proc α) : Prop :=
  p.Capped s.heap ∨
    ∃ heap e fields,
      p = .raised { s with heap := heap, stack := s.stack.push (.object e) } ∧
        heap.get? e = some (.instanceOf (s.coreClass c) fields) ∧
        (({ s with heap := heap, stack := s.stack.push (.object e) } : State).report
          (.object e)).message = message ∧
        Heap.Keeps s.roots s.heap heap

end Proc

namespace Act

variable {s : State} {below : Array Value} {a b : Number}

/-- A failure raises an exception of the class with the message. -/
theorem rejects_fail (hk : s.Keyed) (c : CoreClass) (message : String) (α : Type) :
    ((fail c message : Act α) s).Rejects s c message := by
  unfold fail
  simp only [bind_run, gets_run, Proc.bind_done]
  obtain hcapped | ⟨heap, e, text, trace, -, hrun, hkeep, hmade, hwords, -, -⟩ :=
    State.failWith_ends hk (s.coreClass c) message
  · exact .inl (hcapped α)
  · have hmessage := hk.report_message
      (t := { s with heap := heap, stack := s.stack.push (.object e) })
      (hkeep.mono s.anchors_subset) rfl hmade hwords
    exact .inr ⟨heap, e, _, hrun α, hmade, hmessage, hkeep⟩

/-- The operand on top. -/
theorem peek_top {v : Value} (hs : s.stack = below.push v) : peek 0 s = .done v s :=
  require_run _ _ (by simp [State.peek?, hs])

/-- The operand below. -/
theorem peek_next {u v : Value} (hs : s.stack = (below.push u).push v) : peek 1 s = .done u s := by
  refine require_run _ _ ?_
  have hsize : s.stack.size = below.size + 2 := by simp [hs]
  unfold State.peek?
  rw [if_pos (by omega), hsize, hs, Array.getElem?_push_lt (by simp)]
  simp

/-- Two numbers on the stack under an operator. -/
theorem binary_numbers (hs : s.stack = (below.push (.number a)).push (.number b)) (op : Operator) :
    binary op s =
      match op.onNumbers a b with
      | some v => .done .next { s with stack := below.push v }
      | none => noInteger s := by
  unfold binary
  rw [bind_run, peek_top hs, Proc.bind_done, bind_run, peek_next hs, Proc.bind_done]
  cases hop : op.onNumbers a b with
  | none => simp only [hop]
  | some v =>
    simp only [hop, replaceTop, dropMany, bind_run, modify_run, push_run, pure_run, Proc.bind_done,
      State.drop, State.push, hs, Array.pop_push]

/-- A number on the stack under an operator with one operand. -/
theorem unary_number (hs : s.stack = below.push (.number a)) (symbol : String) (method : Special)
    (f : Number → Option Number) :
    unary symbol method f s =
      match f a with
      | some r => .done .next { s with stack := below.push (.number r) }
      | none => noInteger s := by
  unfold unary
  rw [bind_run, peek_top hs, Proc.bind_done]
  cases hf : f a with
  | none => simp only [hf]
  | some r =>
    simp only [hf, replaceTop, dropMany, bind_run, modify_run, push_run, pure_run, Proc.bind_done,
      State.drop, State.push, hs, Array.pop_push]

/-- A bitwise operator on two numbers gives the number of the operation on the integers that they
truncate to, in 64 bits of two's complement, and so does the complement of one number. If one of the
operands truncates to no such integer, because it is infinite, a NaN or out of range, the operator
raises a `TypeException`, below which the operands stay where they are. -/
theorem bitwise_operators (hk : s.Keyed) :
    (∀ (op : BitOperator) (below : Array Value) (a b : Number),
      s.stack = (below.push (.number a)).push (.number b) →
      (∀ x y, a.Truncates x → b.Truncates y →
        execute op.instruction s =
          .done .next { s with stack := below.push (.number (.ofInt (op.onIntegers x y))) }) ∧
      ((∀ x, ¬ a.Truncates x) ∨ (∀ y, ¬ b.Truncates y) →
        (execute op.instruction s).Rejects s .typeException "Number has no integer representation")) ∧
    ∀ (below : Array Value) (a : Number), s.stack = below.push (.number a) →
      (∀ x, a.Truncates x →
        execute .invert s = .done .next { s with stack := below.push (.number (.ofInt (-x - 1))) }) ∧
      ((∀ x, ¬ a.Truncates x) →
        (execute .invert s).Rejects s .typeException "Number has no integer representation") := by
  constructor
  · intro op below a b hs
    rw [op.execute_instruction, binary_numbers hs, op.onNumbers_operator]
    constructor
    · intro x y ha hb
      rw [Number.bitwise_eq _ ha hb, op.toInt_onWords ha hb]
      rfl
    · intro hnone
      rw [Number.bitwise_eq_none _ hnone]
      exact rejects_fail hk _ _ _
  · intro below a hs
    have hrun : execute .invert s = _ := unary_number hs "~" .inv Number.invert
    rw [hrun]
    constructor
    · intro x ha
      have hlnot : x.lnot = -x - 1 := by
        cases x with
        | ofNat k =>
          simp only [Int.lnot, Int.negSucc_eq, Int.ofNat_eq_natCast]
          omega
        | negSucc k =>
          simp only [Int.lnot, Int.negSucc_eq]
          omega
      rw [Number.invert_eq ha, hlnot]
    · intro hnone
      rw [Number.invert_eq_none hnone]
      exact rejects_fail hk _ _ _

/-- A machine with two numbers on its stack. -/
def withOperands (s : State) (a b : Number) : State :=
  { s with stack := #[Value.number a, Value.number b] }

/-- On a machine that has run nothing, one and a half counts as one, and `2^63` is refused. -/
theorem bitwise_operators_ends : ∃ t : State,
    execute .bitOr (withOperands (State.create Settings.default) ⟨0x3FF8000000000000⟩
        ⟨0xC000000000000000⟩) = Proc.done .next t ∧
      t.stack = #[Value.number (.ofInt (-1))] ∧
      (execute .shiftLeft (withOperands (State.create Settings.default) .zero .highEnd)).Rejects
        (withOperands (State.create Settings.default) .zero .highEnd) .typeException
        "Number has no integer representation" := by
  suffices runs : ∀ s : State, s.Keyed → ∃ t : State,
      execute .bitOr (withOperands s ⟨0x3FF8000000000000⟩ ⟨0xC000000000000000⟩) =
        Proc.done .next t ∧ t.stack = #[Value.number (.ofInt (-1))] ∧
      (execute .shiftLeft (withOperands s .zero .highEnd)).Rejects (withOperands s .zero .highEnd)
        .typeException "Number has no integer representation" from
    runs _ (State.fresh_create Settings.default).1.toEquipped.keyed
  intro s hk
  have hkeyed : ∀ a b, (withOperands s a b).Keyed := fun _ _ => ⟨hk.interned, hk.specials⟩
  have hhalf : Number.Truncates ⟨0x3FF8000000000000⟩ 1 :=
    ⟨by decide, by decide, by decide, by decide⟩
  have htwo : Number.Truncates ⟨0xC000000000000000⟩ (-2) :=
    ⟨by decide, by decide, by decide, by decide⟩
  have hnone : ∀ x, ¬ Number.highEnd.Truncates x := by
    intro x h
    have htruncate : Number.highEnd.truncate = 2 ^ 63 := by decide
    have htruncated := h.truncated
    have hgreatest := h.greatest
    omega
  have hor := ((bitwise_operators (hkeyed ⟨0x3FF8000000000000⟩ ⟨0xC000000000000000⟩)).1 .or #[] _ _
    rfl).1 1 (-2) hhalf htwo
  have hshift := ((bitwise_operators (hkeyed .zero .highEnd)).1 .shiftLeft #[] _ _ rfl).2
    (.inr hnone)
  have hminus : BitOperator.onIntegers 1 (-2) .or = -1 := by decide +kernel
  rw [hminus] at hor
  exact ⟨_, hor, rfl, hshift⟩

end Act

end ScriptEngine
