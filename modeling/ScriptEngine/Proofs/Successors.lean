import ScriptEngine.Proofs.Keying
import ScriptEngine.Proofs.Iterating

/-!
# Going on from any number

A script may hand the functions that iterate over strings, lists, tuples and tables a state of its
own, and so any number. What counts of it is its whole part as a word of sixty-four bits. Up to
`2 ^ 64` an iteration goes on with the first element behind the whole part and ends if there is none.
From there on the word for the number is the greatest one, and computing its successor overflows.

States that are no numbers, null apart, end an iteration, as negative numbers and NaN do.
-/

namespace ScriptEngine

namespace Number

variable {n : Number}

/-- The whole part is a word of sixty-four bits. -/
def FitsWord (n : Number) : Prop := n.isFinite = true ∧ n.wholePart < 2 ^ 64

instance (n : Number) : Decidable n.FitsWord := inferInstanceAs (Decidable (_ ∧ _))

/-- A significand has at most fifty-three binary digits. -/
theorem significand_lt (n : Number) : n.significand < 2 ^ 53 := by
  have hfraction : n.fractionField < 2 ^ 52 := Nat.mod_lt _ (Nat.two_pow_pos 52)
  unfold significand
  rw [pow2_eq]
  split <;> omega

/-- The greatest word is no whole part of a number: it has more digits than a significand. -/
theorem wholePart_ne (n : Number) : n.wholePart ≠ 2 ^ 64 - 1 := by
  have hsignificand := n.significand_lt
  intro h
  unfold wholePart at h
  split at h
  · rw [pow2_eq] at h
    cases hscale : n.scale.toNat with
    | zero =>
      rw [hscale] at h
      omega
    | succ k =>
      rw [hscale, Nat.pow_succ, ← Nat.mul_assoc] at h
      omega
  · have hle := Nat.div_le_self n.significand (pow2 (-n.scale).toNat)
    omega

/-- The whole part of a number that fits a word has a next one that fits as well. -/
theorem FitsWord.succ_lt (h : n.FitsWord) : n.wholePart + 1 < 2 ^ 64 := by
  have hne := n.wholePart_ne
  have hlt := h.2
  omega

/-- A number that is not negative but has a sign is zero. -/
theorem isZero_of_isNegative (h : zero.lessEq n = true) (hsign : n.isNegative = true) :
    n.isZero = true := by
  have hrank : (0 : Int) ≤ n.rank := by
    simp only [lessEq, Bool.and_eq_true, decide_eq_true_eq] at h
    exact h.2
  have hsigned : n.rank = -(n.magnitude : Int) := if_pos hsign
  exact rank_eq_zero_iff.1 (by omega)

/-- Both zeros are finite and have no whole part. -/
theorem wholePart_of_isZero (h : n.isZero = true) : n.isFinite = true ∧ n.wholePart = 0 := by
  have hmagnitude : n.bits.toNat % 2 ^ 63 = 0 := by simpa [isZero, magnitude, pow2_eq] using h
  have hexponent : n.exponentField = 0 := by
    unfold exponentField
    simp only [pow2_eq]
    omega
  have hfraction : n.fractionField = 0 := by
    unfold fractionField
    rw [pow2_eq]
    omega
  refine ⟨?_, ?_⟩
  · unfold isFinite magnitude
    rw [pow2_eq, hmagnitude]
    rfl
  · unfold wholePart significand
    rw [if_pos hexponent, hfraction, Nat.zero_mul, Nat.zero_div, ite_self]

/-- The successor of the word for a number is that of the whole part, if this is a word. -/
theorem nextWord?_clampWord (h : zero.lessEq n = true) :
    nextWord? n.clampWord = if n.FitsWord then some (n.wholePart + 1) else none := by
  have hnan : n.isNaN = false := by
    simp only [lessEq, Bool.and_eq_true, Bool.not_eq_true'] at h
    exact h.1.2
  have hfinite : n.isInfinite = false → n.isFinite = true := by
    intro hinfinite
    simp only [isInfinite, isNaN, isFinite, beq_eq_false_iff_ne, decide_eq_false_iff_not,
      decide_eq_true_eq] at hinfinite hnan ⊢
    omega
  have hgreatest : nextWord? (2 ^ 64 - 1) = none := nextWord?_of_le (by rw [pow2_eq]; omega)
  unfold clampWord
  rw [hnan, Bool.false_or, pow2_eq]
  split
  · next hsign =>
    obtain ⟨hzero, hwhole⟩ := wholePart_of_isZero (isZero_of_isNegative h hsign)
    rw [if_pos ⟨hzero, by omega⟩, hwhole]
    rfl
  · split
    · next hinfinite =>
      have hbeyond : ¬ n.FitsWord := by
        intro hfits
        rw [isInfinite_of_isFinite hfits.1] at hinfinite
        cases hinfinite
      rw [if_neg hbeyond, hgreatest]
    · next hinfinite =>
      have hfin := hfinite (by simpa using hinfinite)
      by_cases hlt : n.wholePart < 2 ^ 64
      · have hsucc := FitsWord.succ_lt ⟨hfin, hlt⟩
        rw [if_pos ⟨hfin, hlt⟩, Nat.min_eq_left (by omega), nextWord?_of_lt (by rwa [pow2_eq])]
      · rw [if_neg fun hfits => hlt hfits.2, Nat.min_eq_right (by omega), hgreatest]

end Number

/-! ## The first position from a place on -/

namespace ValueTable

variable {t : ValueTable} {start steps p : Nat}

/-- Behind a place that holds nothing, the positions are those from the next place on. -/
theorem beyond_hole {p q : Nat} (hhole : ¬ (t.entryAt? p).isSome = true) (hq : q ∈ t.positions)
    (hle : p ≤ q) : p + 1 ≤ q := by
  have hne : p ≠ q := by
    rintro rfl
    exact hhole (mem_positions.1 hq)
  omega

/-- A scan that finds nothing has no entry on its way. -/
theorem le_of_scan_none {steps p : Nat} (h : t.scan steps p = none) {q : Nat}
    (hq : q ∈ t.positions) (hle : p ≤ q) : p + steps ≤ q := by
  induction steps generalizing p with
  | zero => exact hle
  | succ steps ih =>
    rw [scan] at h
    split at h
    · cases h
    · next hhole =>
      have := ih h (beyond_hole hhole hq hle)
      omega

/-- A scan finds the first entry on its way. -/
theorem least_of_scan_some {steps p r : Nat} (h : t.scan steps p = some r) :
    r ∈ t.positions ∧ p ≤ r ∧ ∀ q ∈ t.positions, p ≤ q → r ≤ q := by
  induction steps generalizing p with
  | zero => cases h
  | succ steps ih =>
    rw [scan] at h
    split at h
    · next hentry =>
      cases h
      exact ⟨mem_positions.2 hentry, Nat.le_refl _, fun q _ hq => hq⟩
    · next hhole =>
      obtain ⟨hmem, hle, hleast⟩ := ih h
      exact ⟨hmem, by omega, fun q hq hpq => hleast q hq (beyond_hole hhole hq hpq)⟩

end ValueTable

namespace Object

variable {o : Object} {i : Iterator} {n : Number} {start p : Nat}

/-- A position is the first one of an element from a place on. -/
structure First (o : Object) (start p : Nat) : Prop where
  mem : p ∈ o.positions
  le : start ≤ p
  least : ∀ q ∈ o.positions, start ≤ q → p ≤ q

/-- The state for a position that comes after a number: that of a table stands for the position
itself, that of a sequence for the number that is greater by one. -/
def stateBehind (o : Object) (n : Number) (p : Nat) : Value :=
  match o with
  | .table _ => .number (.ofNat p)
  | _ => .number (n.add (.ofNat 1))

/-- What an iteration comes to that looks for an element from some place on. -/
structure Resumes (o : Object) (n : Number) (start : Nat) (v : Value) : Prop where
  /-- It ends if there is none. -/
  ends : v = .bool false ↔ ∀ p ∈ o.positions, p < start
  /-- It goes on with the first one. -/
  next : ∀ p, o.First start p → v = o.stateBehind n p

/-- Behind a number whose successor is not a word there is no next state. -/
theorem stateAfter_of_not_fitsWord (hi : o.iterator? = some i) (h : Number.zero.lessEq n = true)
    (hfits : ¬ n.FitsWord) : o.stateAfter (.number n) = none := by
  have hword : nextWord? n.clampWord = none := by rw [Number.nextWord?_clampWord h, if_neg hfits]
  have hindex : ∀ length, nextIndex length (.number n) = none := by
    intro length
    unfold nextIndex
    dsimp only
    rw [if_pos h, hword, Option.map_none]
  cases o with
  | string t => exact hindex _
  | list items => exact hindex _
  | tuple items => exact hindex _
  | table t =>
    have hposition : Act.tablePosition? (.number n) = some (some n.clampWord) := if_pos h
    rw [stateAfter, hposition]
    dsimp only
    rw [ValueTable.nextPosition?, hword, Option.map_none, Option.map_none]
  | _ => cases hi

/-- What is iterated over by index goes on from a number as its positions ask. -/
theorem resumes_nextIndex {length : Nat} (hpositions : o.positions = List.range length)
    (hstate : ∀ p, o.stateBehind n p = .number (n.add (.ofNat 1)))
    (h : Number.zero.lessEq n = true) (hfits : n.FitsWord) :
    ∃ v, nextIndex length (.number n) = some v ∧ o.Resumes n (n.wholePart + 1) v := by
  refine ⟨if n.wholePart + 1 < length then .number (n.add (.ofNat 1)) else .bool false, ?_, ?_, ?_⟩
  · unfold nextIndex
    dsimp only
    rw [if_pos h, Number.nextWord?_clampWord h, if_pos hfits, Option.map_some]
  · rw [hpositions]
    split
    · next hlt => exact ⟨nofun, fun hall => absurd (hall _ (List.mem_range.2 hlt)) (Nat.lt_irrefl _)⟩
    · next hle =>
      refine ⟨fun _ p hp => ?_, fun _ => rfl⟩
      have := List.mem_range.1 hp
      omega
  · intro p hp
    have hlt : p < length := List.mem_range.1 (hpositions ▸ hp.mem)
    rw [if_pos (Nat.lt_of_le_of_lt hp.le hlt), hstate]

/-- A table goes on from a number with the first entry from the position asked for. -/
theorem resumes_nextFrom (t : ValueTable) (n : Number) (start : Nat) :
    (Object.table t).Resumes n start (stateOf (t.nextFrom start)) := by
  cases hfrom : t.nextFrom start with
  | none =>
    have hall : ∀ p ∈ t.positions, p < start := by
      intro p hp
      have hsize := mem_positions_lt hp
      by_contra hle
      have := ValueTable.le_of_scan_none hfrom hp (by omega)
      omega
    exact ⟨⟨fun _ => hall, fun _ => rfl⟩,
      fun p hp => absurd (hall p hp.mem) (Nat.not_lt.2 hp.le)⟩
  | some r =>
    obtain ⟨hmem, hle, hleast⟩ := ValueTable.least_of_scan_some hfrom
    refine ⟨⟨fun hnone => ?_, fun hall => absurd (hall r hmem) (Nat.not_lt.2 hle)⟩, fun p hp => ?_⟩
    · cases hnone
    · rw [Nat.le_antisymm (hp.least r hmem hle) (hleast p hp.mem hp.le)]
      rfl

/-- An iteration goes on from any number that is not negative and whose whole part is a word. -/
theorem resumes_stateAfter (hi : o.iterator? = some i) (h : Number.zero.lessEq n = true)
    (hfits : n.FitsWord) :
    ∃ v, o.stateAfter (.number n) = some v ∧ o.Resumes n (n.wholePart + 1) v := by
  cases o with
  | string t => exact resumes_nextIndex rfl (fun _ => rfl) h hfits
  | list items => exact resumes_nextIndex rfl (fun _ => rfl) h hfits
  | tuple items => exact resumes_nextIndex rfl (fun _ => rfl) h hfits
  | table t =>
    have hposition : Act.tablePosition? (.number n) = some (some n.clampWord) := if_pos h
    refine ⟨_, ?_, resumes_nextFrom t n (n.wholePart + 1)⟩
    rw [stateAfter, hposition]
    dsimp only
    rw [ValueTable.nextPosition?, Number.nextWord?_clampWord h, if_pos hfits, Option.map_some,
      Option.map_some]
  | _ => cases hi

end Object

namespace Act

open Object

variable {s : State} {h x : Handle} {o : Object} {i : Iterator} {n : Number}

/-- A call of `__iter__` with a number that is not negative. If the whole part of the number is a
word, so is its successor, and the call gives a falsy state just in case no element is behind the
whole part; else it gives the state for the first one that is. From `2 ^ 64` on the successor
overflows. -/
theorem iter_from_number (hget : s.heap.get? h = some o) (hi : o.iterator? = some i)
    (hx : s.heap.Serves x "__iter__" i.iter) (hn : Number.zero.lessEq n = true) :
    (n.FitsWord → n.wholePart + 1 < 2 ^ 64 ∧ ∃ v,
      enterMethod (.object x) 1 { s with stack := s.stack.push (.object h) ++ #[.number n] } =
        .done .next { s with stack := s.stack.push v } ∧ o.Resumes n (n.wholePart + 1) v) ∧
    (¬ n.FitsWord →
      enterMethod (.object x) 1 { s with stack := s.stack.push (.object h) ++ #[.number n] } =
        .fault .overflow) := by
  refine ⟨fun hfits => ⟨hfits.succ_lt, ?_⟩, fun hfits => ?_⟩
  · obtain ⟨v, hafter, hresumes⟩ := resumes_stateAfter hi hn hfits
    exact ⟨v, enterMethod_serves hx (runCore_iter_of_some hget hi hafter), hresumes⟩
  · refine enterMethod_fault hx ?_
    rw [runCore_iter hget hi, stateAfter_of_not_fitsWord hi hn hfits]

/-- A list of one item comes to its end behind one half, and the successor of infinity overflows. -/
theorem iter_from_half_and_infinity : ∃ (s : State) (h x : Handle),
    s.heap.get? h = some (.list #[.null]) ∧
      enterMethod (.object x) 1
          { s with stack := s.stack.push (.object h) ++ #[.number ⟨0x3fe0000000000000⟩] } =
        .done .next { s with stack := s.stack.push (.bool false) } ∧
      enterMethod (.object x) 1
          { s with stack := s.stack.push (.object h) ++ #[.number ⟨0x7ff0000000000000⟩] } =
        .fault .overflow := by
  obtain ⟨hfresh, -, -⟩ := State.fresh_create .default
  obtain ⟨s, h, hf, hi, hget, -⟩ := (State.furnished_create .default).exists_holding
    hfresh.interned (.list #[.null]) rfl
  obtain ⟨x, -, -, hx, -⟩ := iterationMethods_run hf hi hget rfl
  refine ⟨s, h, x, hget, ?_, ?_⟩
  · obtain ⟨-, v, henter, hends, -⟩ :=
      (iter_from_number (n := ⟨0x3fe0000000000000⟩) hget rfl hx (by decide)).1 (by decide)
    rwa [hends.2 (by decide)] at henter
  · exact (iter_from_number (n := ⟨0x7ff0000000000000⟩) hget rfl hx (by decide)).2 (by decide)

end Act

end ScriptEngine
