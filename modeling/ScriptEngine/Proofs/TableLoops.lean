import ScriptEngine.Proofs.ForLoops
import ScriptEngine.Proofs.TableHistory
import ScriptEngine.Proofs.TableOrder

/-!
# Loops over a table that delete what they have come by

The state of an iteration over a table is the position of the entry it has come to. Removing entries
behind that position leaves holes, which the iteration does not mind, and overwriting values leaves
positions alone as well. So a loop whose body does no more than that gives every key, in order, and
then ends, as long as the holes are not closed: that happens when a table of more than sixteen slots
has entries in fewer than half of them, and moves the entries ahead to positions the loop has left
behind. Bodies may do anything else to the machine, between the two calls of a round as well. The
rounds that the machine makes of a `for` loop are such rounds, with nothing between the calls.
-/

namespace ScriptEngine

namespace ValueTable

/-- Changes that insert nothing and remove only what is at some positions. -/
def Change.Mild (seen : List Nat) : Change → Prop
  | .insert .. => False
  | .assign .. => True
  | .remove p => p ∈ seen

/-- The table that had so many slots when a loop began has not become sparse. -/
def Ample (slots : Nat) (t : ValueTable) : Prop := slots ≤ 16 ∨ slots ≤ 2 * t.size

variable {t u : ValueTable} {e : Entry} {p n : Nat} {seen : List Nat} {c : Change}

/-! ## Sizes -/

/-- The size of a sound table is the number of its entries. -/
theorem size_eq (hs : t.Sound) : t.size = t.toList.length := hs.live

/-- Removing an entry that is there makes a table smaller by one. -/
theorem size_remove (hs : t.Sound) (h : t.entryAt? p = some e) :
    (t.remove p).1.size = t.size - 1 := by
  obtain ⟨before, after, rfl, hsplit⟩ := exists_split h
  have hlist := toList_remove hs before.length
  rw [h, if_pos Option.isSome_some] at hlist
  rw [size_eq (remove_eq hs hsplit).1, size_eq hs, hlist, List.length_eraseIdx_of_lt]
  rw [rank_append hsplit, toList_append hsplit]
  simp

/-- A mild change makes no table larger. -/
theorem size_change_le (hs : t.Sound) (hc : c.Mild seen) : (t.change c).size ≤ t.size := by
  cases c with
  | insert hash key value => exact hc.elim
  | assign p value => exact Nat.le_refl _
  | remove p =>
    change (t.remove p).1.size ≤ t.size
    cases h : t.entryAt? p with
    | none => rw [remove_of_hole h]
    | some e =>
      rw [size_remove hs h]
      exact Nat.sub_le _ _

/-- Changes keep a table sound. -/
theorem sound_changes (hs : t.Sound) (changes : List Change) : (changes.foldl change t).Sound := by
  induction changes generalizing t with
  | nil => exact hs
  | cons c changes ih => exact ih (hs.change c)

/-- Mild changes make no table larger. -/
theorem size_changes_le (hs : t.Sound) {changes : List Change} (hc : ∀ c ∈ changes, c.Mild seen) :
    (changes.foldl change t).size ≤ t.size := by
  induction changes generalizing t with
  | nil => exact Nat.le_refl _
  | cons c changes ih =>
    obtain ⟨hfirst, hrest⟩ := List.forall_mem_cons.1 hc
    exact Nat.le_trans (ih (hs.change c) hrest) (size_change_le hs hfirst)

/-- A table ample for some slots was so while it was larger. -/
theorem Ample.earlier {slots : Nat} (h : u.Ample slots) (hle : u.size ≤ t.size) : t.Ample slots :=
  h.imp_right fun h => Nat.le_trans h (Nat.mul_le_mul_left 2 hle)

/-- Holes are not closed in a table that is not sparse. -/
theorem entries_remove (hs : t.Sound) (h : t.entryAt? p = some e)
    (hample : (t.remove p).1.Ample t.entries.size) :
    (t.remove p).1.entries = t.entries.setIfInBounds p none := by
  rw [Ample, size_remove hs h, size] at hample
  unfold remove
  rw [h]
  dsimp only
  rw [if_neg]
  simp only [isSparse, Array.size_setIfInBounds, Bool.and_eq_true, decide_eq_true_eq]
  omega

/-! ## The slots ahead -/

/-- The slots from a place on have the keys they had in another table. -/
structure Ahead (t₀ t : ValueTable) (n : Nat) : Prop where
  sound : t.Sound
  size : t.entries.size = t₀.entries.size
  keys : (t.entries.toList.drop n).map (Option.map Entry.key) =
    (t₀.entries.toList.drop n).map (Option.map Entry.key)

variable {t₀ : ValueTable}

theorem Ahead.start (hs : t.Sound) : Ahead t t 0 := ⟨hs, rfl, rfl⟩

/-- What is ahead of a position is ahead of later ones. -/
theorem Ahead.le (ha : Ahead t₀ t n) {m : Nat} (hm : n ≤ m) : Ahead t₀ t m := by
  refine ⟨ha.sound, ha.size, ?_⟩
  have hkeys := congrArg (List.drop (m - n)) ha.keys
  rwa [← List.map_drop, ← List.map_drop, List.drop_drop, List.drop_drop, Nat.add_sub_cancel' hm]
    at hkeys

/-- Mild changes leave the slots ahead alone. -/
theorem Ahead.change (ha : Ahead t₀ t n) (hc : c.Mild seen) (hseen : ∀ p ∈ seen, p < n)
    (hample : (t.change c).Ample t₀.entries.size) : Ahead t₀ (t.change c) n := by
  cases c with
  | insert hash key value => exact hc.elim
  | assign p value =>
    refine ⟨ha.sound.change _, (Array.size_modify ..).trans ha.size, ?_⟩
    have hcells : (t.setValue p value).entries.toList =
        t.entries.toList.modify p (Option.map (·.assign value)) := Array.toList_modify
    change ((t.setValue p value).entries.toList.drop n).map _ = _
    rw [← ha.keys, hcells, List.map_drop, List.map_drop,
      map_modify (g := id) fun cell => by cases cell <;> rfl, List.modify_id]
  | remove p =>
    change Ahead t₀ (t.remove p).1 n
    cases h : t.entryAt? p with
    | none => rwa [remove_of_hole h]
    | some e =>
      have hentries := entries_remove ha.sound h (ha.size ▸ hample)
      refine ⟨ha.sound.change (.remove p), ?_, ?_⟩
      · rw [hentries, Array.size_setIfInBounds, ha.size]
      · rw [hentries, Array.toList_setIfInBounds, List.drop_set_of_lt (hseen p hc), ha.keys]

/-- Mild changes behind a position keep what is ahead of it, while the table is ample. -/
theorem Ahead.changes (ha : Ahead t₀ t n) {changes : List Change}
    (hc : ∀ c ∈ changes, c.Mild seen) (hseen : ∀ p ∈ seen, p < n)
    (hample : (changes.foldl ValueTable.change t).Ample t₀.entries.size) :
    Ahead t₀ (changes.foldl ValueTable.change t) n := by
  induction changes generalizing t with
  | nil => exact ha
  | cons c changes ih =>
    obtain ⟨hfirst, hrest⟩ := List.forall_mem_cons.1 hc
    have hle := size_changes_le (ha.sound.change c) hrest
    exact ih (ha.change hfirst hseen (hample.earlier hle)) hrest hample

/-- No key ahead: no position comes next. -/
theorem Ahead.nextFrom_none (ha : Ahead t₀ t n) (hn : n ≤ t₀.entries.size)
    (hrest : (t₀.entries.toList.drop n).reduceOption = []) : t.nextFrom n = none := by
  have hlength : (t.entries.toList.take n).length = n := by
    rw [List.length_take, Array.length_toList, ha.size, Nat.min_eq_left hn]
  rw [← hlength]
  refine nextFrom_of_holes (fun cell hcell => ?_) (List.take_append_drop n _).symm
  have hmem : cell.map Entry.key ∈ (t₀.entries.toList.drop n).map (Option.map Entry.key) :=
    ha.keys ▸ List.mem_map_of_mem hcell
  obtain ⟨cell₀, hcell₀, heq⟩ := List.mem_map.1 hmem
  cases cell₀ with
  | none => exact Option.map_eq_none_iff.1 heq.symm
  | some e =>
    rw [← List.reduceOption_mem_iff, hrest] at hcell₀
    cases hcell₀

/-- The first key ahead: its position comes next. -/
theorem Ahead.nextFrom_some (ha : Ahead t₀ t n) (hn : n ≤ t₀.entries.size) {es : List Entry}
    (hrest : (t₀.entries.toList.drop n).reduceOption = e :: es) : ∃ q, n ≤ q ∧
      t.nextFrom n = some q ∧ q < t₀.entries.size ∧ t₀.entryAt? q = some e ∧
        (t₀.entries.toList.drop (q + 1)).reduceOption = es := by
  obtain ⟨holes, cell, rest, hdrop, hholes, rfl, hes⟩ := List.filterMap_eq_cons_iff.1 hrest
  have hlength : ∀ l : List (Option Entry), l.length = t₀.entries.size → (l.take n).length = n :=
    fun l hl => by rw [List.length_take, hl, Nat.min_eq_left hn]
  have hsplit : t₀.entries.toList = (t₀.entries.toList.take n ++ holes) ++ some e :: rest := by
    rw [List.append_assoc, ← hdrop, List.take_append_drop]
  have hplace : (t₀.entries.toList.take n ++ holes).length = n + holes.length := by
    rw [List.length_append, hlength _ Array.length_toList]
  refine ⟨n + holes.length, Nat.le_add_right _ _, ?_, ?_, ?_, ?_⟩
  · -- the slots of the loop's table, hole for hole and key for key
    have hkeys := ha.keys
    rw [hdrop, List.map_append, List.map_cons, List.map_eq_append_iff] at hkeys
    obtain ⟨holes', tail, hdrop', hholes', htail⟩ := hkeys
    obtain ⟨cell, rest', rfl, hcell, -⟩ := List.map_eq_cons_iff.1 htail
    obtain ⟨e', rfl, -⟩ := Option.map_eq_some_iff.1 hcell
    have hcells : t.entries.toList = t.entries.toList.take n ++ (holes' ++ some e' :: rest') := by
      rw [← hdrop', List.take_append_drop]
    have hnext := nextFrom_append (fun cell hcell => ?_) hcells
    · rw [hlength _ (Array.length_toList.trans ha.size)] at hnext
      rw [hnext, ← List.length_map (f := Option.map Entry.key), hholes', List.length_map]
    · have hmem : cell.map Entry.key ∈ holes.map (Option.map Entry.key) :=
        hholes' ▸ List.mem_map_of_mem hcell
      obtain ⟨cell₀, hcell₀, heq⟩ := List.mem_map.1 hmem
      rw [show cell₀ = none from hholes cell₀ hcell₀] at heq
      exact Option.map_eq_none_iff.1 heq.symm
  · rw [← Array.length_toList, hsplit, List.length_append, hplace]
    simp
  · rw [← hplace]
    exact entryAt?_append hsplit
  · have hbehind : t₀.entries.toList.drop (n + holes.length + 1) = rest := by
      rw [← List.drop_drop, ← List.drop_drop, hdrop, List.drop_left, List.drop_one, List.tail_cons]
    rw [hbehind, ← hes]
    rfl

/-- An entry ahead is still there, perhaps with another value. -/
theorem Ahead.entryAt? (ha : Ahead t₀ t n) {q : Nat} (hq : n ≤ q) (h : t₀.entryAt? q = some e) :
    ∃ e', t.entryAt? q = some e' ∧ e'.key = e.key := by
  have hkeys := congrArg (·[q - n]?) ha.keys
  simp only [List.getElem?_map, List.getElem?_drop, Nat.add_sub_cancel' hq,
    Array.getElem?_toList] at hkeys
  rw [ValueTable.entryAt?, Option.join_eq_some_iff] at h
  rw [h] at hkeys
  obtain ⟨cell, hcell, hkey⟩ := Option.map_eq_some_iff.1 hkeys
  obtain ⟨e', rfl, hkey⟩ := Option.map_eq_some_iff.1 hkey
  exact ⟨e', Option.join_eq_some_iff.2 hcell, by simpa using hkey⟩

end ValueTable

open ValueTable (Ahead Ample)

/-! ## Rounds -/

namespace State

/-- What a script does between two calls of an iteration: as far as the table is concerned it inserts
nothing and removes only what is at some positions. -/
structure Tends (s : State) (h : Handle) (seen : List Nat) (u : State) : Prop where
  furnished : u.Furnished
  interned : u.heap.Interned
  room : u.reentrant < u.settings.maxReentrant
  table : ∃ changes : List ValueTable.Change, (∀ c ∈ changes, c.Mild seen) ∧
    u.heap.get? h = (s.heap.get? h).map (Object.mapTable fun t => changes.foldl ValueTable.change t)

/-- Some rounds of a loop over a table: the positions and the keys it has come by, the state of the
iteration, and the machine before the next round. -/
inductive Visits (s : State) (h : Handle) : List Nat → List Value → Value → State → Prop
  | start {u : State} (hbefore : s.Tends h [] u) : Visits s h [] [] .null u
  | round {seen : List Nat} {keys : List Value} {state next key : Value} {p : Nat}
    {t u v w x : State} (hrounds : Visits s h seen keys state t)
    (hiter : (Act.ask h "__iter__" #[state] t).Ends next u) (htruthy : next.isTruthy = true)
    (hposition : positionOf next = some p) (hbetween : u.Tends h seen v)
    (hnext : (Act.ask h "__next__" #[next] v).Ends key w) (hbody : w.Tends h (seen ++ [p]) x) :
    Visits s h (seen ++ [p]) (keys ++ [key]) next x

/-- The state of an iteration that has come by the slots before a place. -/
def stateBehind : Nat → Value
  | 0 => .null
  | p + 1 => .number (.ofNat p)

/-- A loop over a table is at a place, with the keys of the slots before it. -/
structure Midway (t₀ t : ValueTable) (seen : List Nat) (keys : List Value) (state : Value)
    (n : Nat) : Prop where
  ahead : Ahead t₀ t n
  le : n ≤ t₀.entries.size
  seen : ∀ p ∈ seen, p < n
  state : state = stateBehind n
  keys : t₀.toList.map (·.key) = keys ++ (t₀.entries.toList.drop n).reduceOption.map (·.key)

variable {s u v : State} {h : Handle} {t₀ t : ValueTable} {seen : List Nat} {keys : List Value}
  {state : Value} {n : Nat}

/-- What a script that tends a table leaves of it. -/
theorem Tends.table_eq (hu : s.Tends h seen u) (hget : s.heap.get? h = some (.table t))
    (t₀ : ValueTable) : ∃ t', u.heap.get? h = some (.table t') ∧
      (t.Sound → t'.Sound ∧ t'.size ≤ t.size) ∧
        ∀ {n}, Ahead t₀ t n → (∀ p ∈ seen, p < n) → t'.Ample t₀.entries.size → Ahead t₀ t' n := by
  obtain ⟨changes, hmild, htable⟩ := hu.table
  rw [hget] at htable
  exact ⟨_, htable,
    fun hs => ⟨ValueTable.sound_changes hs changes, ValueTable.size_changes_le hs hmild⟩,
    fun {_} ha hseen => ha.changes hmild hseen⟩

/-- The state of a loop at a position asks for the next entry from there. -/
theorem tablePosition?_stateBehind (hn : n ≤ 2 ^ 53) : ∃ after,
    Act.tablePosition? (stateBehind n) = some after ∧
      t.nextPosition? after = some (t.nextFrom n) := by
  cases n with
  | zero => exact ⟨none, rfl, rfl⟩
  | succ p =>
    refine ⟨some p, ?_, ?_⟩
    · simp [stateBehind, Act.tablePosition?, Number.zero_lessEq_ofNat hn, Number.clampWord_ofNat hn]
    · exact t.nextPosition?_of_lt (by rw [Number.pow2_eq]; omega)

section Asking

variable (hf : u.Furnished) (hi : u.heap.Interned) (hroom : u.reentrant < u.settings.maxReentrant)
  (hget : u.heap.get? h = some (.table t))
include hf hi hroom hget

/-- Asking a table for the state after any value changes nothing. -/
theorem unchanged_of_ends_iter {state r : Value} {v : State}
    (hends : (Act.ask h "__iter__" #[state] u).Ends r v) : v = u := by
  cases hstate : Act.tablePosition? state with
  | some after =>
    cases hnext : t.nextPosition? after with
    | some next => exact (hends.unique (Act.ends_iter hf hi hroom hget hstate hnext)).2
    | none => exact absurd hends (Act.not_ends_iter hf hi hget hstate hnext r v)
  | none =>
    refine (hends.unique (Act.ends_ask (r := .bool false) hf hi hroom hget rfl rfl rfl rfl ?_)).2
    refine Act.ends_bind (Act.ends_of_run (Act.getSlot_receiver u u.stack _ #[state])) ?_
    refine Act.ends_bind (Act.ends_of_run (Act.getSlot_argument u u.stack _ state)) ?_
    rw [hstate]
    exact .done _ _

/-- Asking a table for the element of any value changes nothing. -/
theorem exists_ends_next (state : Value) : ∃ r, (Act.ask h "__next__" #[state] u).Ends r u := by
  refine ⟨(((u.table? (.object h)).bind fun t => (positionOf state).bind t.entryAt?).map
    (·.key)).getD .null, Act.ends_ask hf hi hroom hget rfl rfl rfl rfl ?_⟩
  · refine Act.ends_bind (Act.ends_of_run (Act.getSlot_receiver u u.stack _ #[state])) ?_
    refine Act.ends_bind (Act.ends_of_run (Act.getSlot_argument u u.stack _ state)) ?_
    exact Act.ends_bind (.done _ _) (.done () _)

variable (hm : Midway t₀ t seen keys state n) (hsize : t₀.entries.size ≤ 2 ^ 53)
include hm hsize

/-- With all keys behind it, a loop ends. -/
theorem Midway.ends (hrest : (t₀.entries.toList.drop n).reduceOption = []) :
    (Act.ask h "__iter__" #[state] u).Ends (.bool false) u := by
  obtain ⟨after, hafter, hnext⟩ := tablePosition?_stateBehind (t := t) (Nat.le_trans hm.le hsize)
  have hiter := Act.ends_iter hf hi hroom hget (hm.state ▸ hafter) hnext
  rwa [hm.ahead.nextFrom_none hm.le hrest] at hiter

/-- With keys ahead, a loop goes on at the first of them. -/
theorem Midway.continues {e : ValueTable.Entry} {es : List ValueTable.Entry}
    (hrest : (t₀.entries.toList.drop n).reduceOption = e :: es) : ∃ q, n ≤ q ∧ q < 2 ^ 53 ∧
      t.nextFrom n = some q ∧ (Act.ask h "__iter__" #[state] u).Ends (.number (.ofNat q)) u ∧
        q < t₀.entries.size ∧ t₀.entryAt? q = some e ∧
          (t₀.entries.toList.drop (q + 1)).reduceOption = es := by
  obtain ⟨after, hafter, hnext⟩ := tablePosition?_stateBehind (t := t) (Nat.le_trans hm.le hsize)
  obtain ⟨q, hle, hq, hlt, hentry, hes⟩ := hm.ahead.nextFrom_some hm.le hrest
  have hiter := Act.ends_iter hf hi hroom hget (hm.state ▸ hafter) hnext
  rw [hq] at hiter
  exact ⟨q, hle, Nat.lt_of_lt_of_le hlt hsize, hq, hiter, hlt, hentry, hes⟩

end Asking

/-- After the first call of a round, and whatever a script does then, the second call gives the key. -/
theorem Midway.key (hm : Midway t₀ t seen keys state n) (hget : u.heap.get? h = some (.table t))
    (hv : u.Tends h seen v)
    (hample : ∀ t', v.heap.get? h = some (.table t') → t'.Ample t₀.entries.size)
    {q : Nat} (hle : n ≤ q) (hq : q < 2 ^ 53) {e : ValueTable.Entry} (he : t₀.entryAt? q = some e) :
    (Act.ask h "__next__" #[.number (.ofNat q)] v).Ends e.key v := by
  obtain ⟨t', hget', -, hahead⟩ := hv.table_eq hget t₀
  obtain ⟨e', he', hkey⟩ := (hahead hm.ahead hm.seen (hample t' hget')).entryAt? hle he
  exact hkey ▸ Act.ends_next hv.furnished hv.interned hv.room hget' hq he'

/-- The keys that are in a table that changes have made, behind a loop and ahead of it. -/
theorem Midway.keys_ofChanges {changes : List ValueTable.Change}
    (hm : Midway (.ofChanges changes) t seen keys state n) :
    (ValueTable.ledger changes).map (·.2.key) =
      keys ++ ((ValueTable.ofChanges changes).entries.toList.drop n).reduceOption.map (·.key) := by
  rw [← hm.keys, ValueTable.ledger_lists, List.map_map]
  rfl

/-- As long as the table is not sparse, some rounds leave a loop at a place. -/
theorem Visits.midway (hv : Visits s h seen keys state u) (hget : s.heap.get? h = some (.table t₀))
    (hs : t₀.Sound) (hsize : t₀.entries.size ≤ 2 ^ 53) :
    u.Furnished ∧ u.heap.Interned ∧ u.reentrant < u.settings.maxReentrant ∧
      ∃ t, u.heap.get? h = some (.table t) ∧ t.Sound ∧
        (t.Ample t₀.entries.size → ∃ n, Midway t₀ t seen keys state n) := by
  induction hv with
  | start hbefore =>
    obtain ⟨t, ht, hkept, hahead⟩ := hbefore.table_eq hget t₀
    refine ⟨hbefore.furnished, hbefore.interned, hbefore.room, t, ht, (hkept hs).1, fun hample => ?_⟩
    have ha := hahead (.start hs) nofun hample
    exact ⟨0, ha, Nat.zero_le _, nofun, rfl, rfl⟩
  | @round seen keys state next key p t u v w x _ hiter htruthy hposition hbetween hnext hbody ih =>
    obtain ⟨hf, hi, hroom, table, htable, hsound, hmidway⟩ := ih
    -- the calls themselves change nothing
    obtain rfl := unchanged_of_ends_iter hf hi hroom htable hiter
    obtain ⟨table', htable', hkept, hahead⟩ := hbetween.table_eq htable t₀
    obtain ⟨hsound', hle'⟩ := hkept hsound
    obtain ⟨r, hr⟩ := exists_ends_next hbetween.furnished hbetween.interned hbetween.room htable' next
    obtain ⟨rfl, rfl⟩ := hnext.unique hr
    obtain ⟨last, hlast, hkept', hahead'⟩ := hbody.table_eq htable' t₀
    obtain ⟨hsound'', hle''⟩ := hkept' hsound'
    refine ⟨hbody.furnished, hbody.interned, hbody.room, last, hlast, hsound'', fun hample => ?_⟩
    obtain ⟨n, hm⟩ := hmidway (hample.earlier (Nat.le_trans hle'' hle'))
    have hample' := hample.earlier hle''
    cases hrest : (t₀.entries.toList.drop n).reduceOption with
    | nil =>
      obtain ⟨rfl, -⟩ := hiter.unique (hm.ends hf hi hroom htable hsize hrest)
      cases htruthy
    | cons e es =>
      obtain ⟨q, hle, hq, -, hiter', hlt, hentry, hes⟩ := hm.continues hf hi hroom htable hsize hrest
      obtain ⟨rfl, -⟩ := hiter.unique hiter'
      obtain rfl : q = p := by
        simpa [positionOf, Value.index?, Number.toIndex?_ofNat hq] using hposition
      obtain ⟨rfl, -⟩ := hnext.unique (hm.key htable hbetween
        (fun t' ht' => by rwa [← Object.table.inj (Option.some.inj (htable'.symm.trans ht'))])
        hle hq hentry)
      have hseen : ∀ r ∈ seen ++ [q], r < q + 1 := by
        intro r hr
        rcases List.mem_append.1 hr with hr | hr
        · exact Nat.lt_succ_of_lt (Nat.lt_of_lt_of_le (hm.seen r hr) hle)
        · exact List.mem_singleton.1 hr ▸ Nat.lt_succ_self q
      have hplace := (hahead hm.ahead hm.seen hample').le (Nat.le_succ_of_le hle)
      refine ⟨q + 1, hahead' hplace hseen hample, hlt, hseen, rfl, ?_⟩
      rw [hm.keys, hrest, hes, List.append_assoc]
      rfl

/-- A loop over a table that changes have made, whose body inserts nothing and deletes only what the
loop has come by, gives the keys of the table in the order of insertion, each once, and then ends: as
long as the table is not sparse, the calls of the next round have that outcome, whichever round it
is. -/
theorem Visits.next_key {s t : State} {h : Handle} {changes : List ValueTable.Change}
    {seen : List Nat} {keys : List Value} {state : Value}
    (hget : s.heap.get? h = some (.table (.ofChanges changes)))
    (hsize : (ValueTable.ofChanges changes).entries.size ≤ 2 ^ 53)
    (hv : Visits s h seen keys state t)
    (hample : ∀ table, t.heap.get? h = some (.table table) →
      table.Ample (ValueTable.ofChanges changes).entries.size) :
    let all := (ValueTable.ledger changes).map (·.2.key)
    keys = all.take keys.length ∧
      match all[keys.length]? with
      | none => (Act.ask h "__iter__" #[state] t).Ends (.bool false) t
      | some key => ∃ p, (Act.ask h "__iter__" #[state] t).Ends (.number (.ofNat p)) t ∧
          positionOf (.number (.ofNat p)) = some p ∧
          ∀ u, t.Tends h seen u →
            (∀ table, u.heap.get? h = some (.table table) →
              table.Ample (ValueTable.ofChanges changes).entries.size) →
            (Act.ask h "__next__" #[.number (.ofNat p)] u).Ends key u := by
  intro all
  obtain ⟨hf, hi, hroom, table, htable, -, hmidway⟩ :=
    hv.midway hget (ValueTable.sound_ofChanges changes).1 hsize
  obtain ⟨n, hm⟩ := hmidway (hample table htable)
  have hall : all = _ := hm.keys_ofChanges
  refine ⟨by rw [hall, List.take_left], ?_⟩
  cases hrest : ((ValueTable.ofChanges changes).entries.toList.drop n).reduceOption with
  | nil =>
    rw [hall, hrest, List.map_nil, List.append_nil, List.getElem?_length]
    exact hm.ends hf hi hroom htable hsize hrest
  | cons e es =>
    obtain ⟨q, hle, hq, -, hiter, -, hentry, -⟩ := hm.continues hf hi hroom htable hsize hrest
    rw [hall, hrest, List.map_cons, List.getElem?_append_right (Nat.le_refl _), Nat.sub_self]
    exact ⟨q, hiter, by simp [positionOf, Value.index?, Number.toIndex?_ofNat hq],
      fun u hu hample' => hm.key htable hu hample' hle hq hentry⟩

/-- A loop over two keys goes on with the second when its body has removed the first. -/
theorem Visits.next_key_behind_removed : ∃ s h p u,
    State.Visits s h [p] [.bool true] (.number (.ofNat p)) u ∧
      s.heap.get? h =
        some (.table (.ofChanges [.insert 5 (.bool true) .null, .insert 5 .null .null])) ∧
      u = s.update h (Object.mapTable fun t => (t.remove p).1) ∧
      ∃ q, (Act.ask h "__iter__" #[.number (.ofNat p)] u).Ends (.number (.ofNat q)) u ∧
        (Act.ask h "__next__" #[.number (.ofNat q)] u).Ends .null u := by
  obtain ⟨hfresh, -, hsettings⟩ := fresh_create .default
  obtain ⟨s, h, hf, hi, hget, -, hreentrant, hsame⟩ := (furnished_create .default).exists_holding
    hfresh.interned (.table (.ofChanges [.insert 5 (.bool true) .null, .insert 5 .null .null])) rfl
  have hroom : s.reentrant < s.settings.maxReentrant := by
    rw [hreentrant, hsame, hfresh.reentrant, hsettings]
    decide
  have hsmall : (ValueTable.ofChanges
      [.insert 5 (.bool true) .null, .insert 5 .null .null]).entries.size = 2 := rfl
  have hsize := hsmall ▸ (by decide : 2 ≤ 2 ^ 53)
  have hample : ∀ {u : State} table, u.heap.get? h = some (.table table) →
      table.Ample (ValueTable.ofChanges
        [.insert 5 (.bool true) .null, .insert 5 .null .null]).entries.size :=
    fun _ _ => .inl (hsmall ▸ by decide)
  have hidle : ∀ seen, s.Tends h seen s := fun seen =>
    ⟨hf, hi, hroom, [], nofun, by rw [hget]; rfl⟩
  -- the first round
  have hstart := Visits.start (hidle [])
  obtain ⟨-, p, hiter, hposition, hnext⟩ := hstart.next_key hget hsize hample
  have hbody : s.Tends h ([] ++ [p]) (s.update h (Object.mapTable fun t => (t.remove p).1)) := by
    refine ⟨hf.mapTable hi _, (texts_update hi h fun _ => rfl).1, hroom, [.remove p], ?_, ?_⟩
    · simp [ValueTable.Change.Mild]
    · rw [get?_update, if_pos rfl]
      rfl
  have hround := Visits.round hstart hiter rfl hposition (hidle _) (hnext s (hidle _) hample) hbody
  -- the second round
  obtain ⟨-, q, hiter', -, hnext'⟩ := hround.next_key hget hsize hample
  refine ⟨s, h, p, _, hround, hget, rfl, q, hiter', hnext' _ ?_ hample⟩
  refine ⟨hbody.furnished, hbody.interned, hbody.room, [], nofun, ?_⟩
  rw [get?_update, if_pos rfl, hget]
  rfl

end State

/-! ## Loops of the machine -/

namespace Loop

open State

/-- A loop over a table as it is at some time. -/
def onTable (l : Loop) (t : ValueTable) : Loop := { l with object := .table t }

/-- Some rounds of a `for` loop over a table as the machine makes them: the positions and the keys
it has come by, the state of the iteration, and the machine before the next round. The table, whatever
the body has made of it, is ample for so many slots before each round. -/
inductive Tours (l : Loop) (slots : Nat) (s : State) : List Nat → List Value → Value → State → Prop
  | start {t : ValueTable} {u : State} (hbefore : s.Tends l.source [] u)
    (hat : (l.onTable t).At .null u) (hample : t.Ample slots) : Tours l slots s [] [] .null u
  | round {seen : List Nat} {keys : List Value} {state next v : Value} {p : Nat} {t : ValueTable}
    {u w x : State} (hrounds : Tours l slots s seen keys state u)
    (hround : Act.round u = .done (some v) w) (hslots : w.stack = (l.slots next).push v)
    (hposition : positionOf next = some p) (hbody : w.Tends l.source (seen ++ [p]) x)
    (hat : (l.onTable t).At next x) (hample : t.Ample slots) :
    Tours l slots s (seen ++ [p]) (keys ++ [v]) next x

variable {l : Loop} {s u : State} {t₀ t : ValueTable} {seen : List Nat} {keys : List Value}
  {state : Value} {n : Nat}

/-- The machine is at the head of the loop, and the table is ample. -/
theorem Tours.at {slots : Nat} (hr : l.Tours slots s seen keys state u) :
    ∃ t, (l.onTable t).At state u ∧ t.Ample slots := by
  cases hr with
  | start _ hat hample => exact ⟨_, hat, hample⟩
  | round _ _ _ _ _ hat hample => exact ⟨_, hat, hample⟩

section Midway

variable (hm : Midway t₀ t seen keys state n) (hsize : t₀.entries.size ≤ 2 ^ 53)
include hm hsize

/-- The state of a loop at a place is followed by the one for the next entry. -/
theorem stateAfter_midway :
    (Object.table t).stateAfter state = some (Object.stateOf (t.nextFrom n)) := by
  obtain ⟨after, hafter, hnext⟩ := tablePosition?_stateBehind (t := t) (Nat.le_trans hm.le hsize)
  rw [Object.stateAfter, hm.state, hafter]
  dsimp only
  rw [hnext, Option.map_some]

variable (hat : (l.onTable t).At state u)
include hat

/-- With all keys behind it, the machine leaves the loop. -/
theorem comes_none (hrest : (t₀.entries.toList.drop n).reduceOption = []) :
    u.Comes none ((u.advance (2 + l.exit.toNat)).withStack (l.slots (.bool false))) := by
  have hafter := stateAfter_midway hm hsize
  rw [hm.ahead.nextFrom_none hm.le hrest] at hafter
  exact hat.comes_end hafter rfl

/-- With keys ahead, the machine begins a round with the first of them. -/
theorem comes_some {e : ValueTable.Entry} {q : Nat} (hle : n ≤ q) (hq : t.nextFrom n = some q)
    (he : t₀.entryAt? q = some e) : ∃ heap, heap.get? l.source = some (.table t) ∧
      u.Comes (some e.key) { (u.advance 2).withStack
        ((l.slots (Object.stateOf (some q))).push e.key) with heap := heap } := by
  have hafter := stateAfter_midway hm hsize
  rw [hq] at hafter
  obtain ⟨e', he', hkey⟩ := hm.ahead.entryAt? hle he
  have hmem : q ∈ t.positions := ValueTable.mem_positions.2 (Option.isSome_iff_exists.2 ⟨e', he'⟩)
  obtain ⟨k, hk⟩ := List.mem_iff_getElem?.1 hmem
  have hextent : (l.onTable t).object.extent ≤ 2 ^ 53 :=
    Nat.le_trans (Nat.le_of_eq hm.ahead.size) hsize
  obtain ⟨⟨text, htext⟩, -⟩ | ⟨heap, v, hcomes, hholds, helement⟩ :=
    hat.comes_element hextent hk hafter
  · cases htext
  · obtain ⟨e'', he'', hkeys⟩ := Object.hasElement_table heap hk
    obtain rfl : e' = e'' := Option.some.inj (he'.symm.trans he'')
    obtain rfl : v = e'.key := Option.some.inj (helement.1.symm.trans hkeys.1)
    rw [← hkey]
    exact ⟨heap, hholds.source, hcomes⟩

end Midway

/-- The rounds that the machine makes are rounds of the two calls, with nothing between the calls. -/
theorem Tours.visits (hr : l.Tours t₀.entries.size s seen keys state u)
    (hget : s.heap.get? l.source = some (.table t₀)) (hs : t₀.Sound)
    (hsize : t₀.entries.size ≤ 2 ^ 53) : Visits s l.source seen keys state u := by
  induction hr with
  | start hbefore => exact .start hbefore
  | @round seen keys state next v p _ u w x hrounds hround hslots hposition hbody _ _ ih =>
    obtain ⟨hf, hi, hroom, t, ht, -, hmidway⟩ := ih.midway hget hs hsize
    obtain ⟨t', hat, hample⟩ := hrounds.at
    obtain rfl : t = t' := Object.table.inj (Option.some.inj (ht.symm.trans hat.source))
    obtain ⟨n, hm⟩ := hmidway hample
    have hidle : u.Tends l.source seen u := ⟨hf, hi, hroom, [], nofun, by rw [ht]; rfl⟩
    cases hrest : (t₀.entries.toList.drop n).reduceOption with
    | nil =>
      have hdone := (comes_none hm hsize hat hrest).round
      rw [hround] at hdone
      cases hdone
    | cons e es =>
      obtain ⟨q, hle, hlt, hq, hiter, -, he, -⟩ := hm.continues hf hi hroom ht hsize hrest
      obtain ⟨heap, hheap, hcomes⟩ := comes_some hm hsize hat hle hq he
      have hdone := hcomes.round
      rw [hround] at hdone
      cases hdone
      obtain rfl := slots_inj hslots
      have hnext := hm.key ht hidle
        (fun t' ht' => by rwa [← Object.table.inj (Option.some.inj (ht.symm.trans ht'))]) hle hlt he
      obtain ⟨changes, hmild, htable⟩ := hbody.table
      exact .round ih hiter rfl hposition hidle hnext ⟨hbody.furnished, hbody.interned, hbody.room,
        changes, hmild, by rw [htable, ht]; exact congrArg (Option.map _) hheap⟩

/-- A `for` loop over a table that changes have made, whose body inserts nothing and deletes only what
the loop has come by, gives the keys of the table in the order of insertion, each once, and then ends:
as long as the table is not sparse, the machine comes to the next of them, whichever round it is. -/
theorem Tours.comes_key {changes : List ValueTable.Change}
    (hget : s.heap.get? l.source = some (.table (.ofChanges changes)))
    (hsize : (ValueTable.ofChanges changes).entries.size ≤ 2 ^ 53)
    (hr : l.Tours (ValueTable.ofChanges changes).entries.size s seen keys state u) :
    let all := (ValueTable.ledger changes).map (·.2.key)
    keys = all.take keys.length ∧
      match all[keys.length]? with
      | none => u.Comes none ((u.advance (2 + l.exit.toNat)).withStack (l.slots (.bool false)))
      | some key => ∃ p heap, u.Comes (some key) { (u.advance 2).withStack
          ((l.slots (Object.stateOf (some p))).push key) with heap := heap } := by
  intro all
  have hs := (ValueTable.sound_ofChanges changes).1
  obtain ⟨hf, hi, hroom, t, ht, -, hmidway⟩ := (hr.visits hget hs hsize).midway hget hs hsize
  obtain ⟨t', hat, hample⟩ := hr.at
  obtain rfl : t = t' := Object.table.inj (Option.some.inj (ht.symm.trans hat.source))
  obtain ⟨n, hm⟩ := hmidway hample
  have hall := hm.keys_ofChanges
  refine ⟨by rw [show all = _ from hall, List.take_left], ?_⟩
  cases hrest : ((ValueTable.ofChanges changes).entries.toList.drop n).reduceOption with
  | nil =>
    rw [show all = _ from hall, hrest, List.map_nil, List.append_nil, List.getElem?_length]
    exact comes_none hm hsize hat hrest
  | cons e es =>
    obtain ⟨q, hle, -, hq, -, -, he, -⟩ := hm.continues hf hi hroom ht hsize hrest
    obtain ⟨heap, -, hcomes⟩ := comes_some hm hsize hat hle hq he
    rw [show all = _ from hall, hrest, List.map_cons, List.getElem?_append_right (Nat.le_refl _),
      Nat.sub_self]
    exact ⟨q, heap, hcomes⟩

end Loop

end ScriptEngine
