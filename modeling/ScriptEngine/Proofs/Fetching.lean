import ScriptEngine.Proofs.Framing

/-!
# The lines that traces name

Every active frame has fetched an instruction last: the innermost one the instruction that is
executed, the others the calls that they wait for. A frame stands behind that instruction, and the
line before the place where it stands is the line that a trace gives to it. `Fetches` keeps what the
frames of a machine have fetched. A jump that asks for an interrupt is the exception: the frame has
moved by then, so that the line is the one before the target of the jump.

Which module and which function a record names is left out.
-/

namespace ScriptEngine

open Bytecode

/-- The offset whose line a trace gives to a frame that executes an instruction. -/
def Bytecode.Op.traced (offset : Nat) : Op → Nat
  | .jump d => offset + d.toNat
  | .loop d => offset - d.toNat
  | _ => offset

/-! ## What frames have fetched -/

namespace Machine

/-- The offset that a frame, counted from the outermost one, has fetched last once the machine has
fetched the instruction that it executes next. -/
def fetches (m : Machine) (fetched : Nat → Option Nat) (i : Nat) : Option Nat :=
  match m.control with
  | .next => if i + 1 = m.state.frames.size then m.state.frame?.map (·.ip) else fetched i
  | _ => fetched i

/-- What is known of the first frames. -/
def upTo (count : Nat) (fetched : Nat → Option Nat) (i : Nat) : Option Nat :=
  if i < count then fetched i else none

/-- The machines that a machine without frames becomes, each with the offset that each of its frames
has fetched last. A frame that has been entered has fetched nothing. -/
inductive Fetches (m : Machine) : (Nat → Option Nat) → Machine → Prop
  | refl : Fetches m (fun _ => none) m
  | step {fetched : Nat → Option Nat} {m' m'' : Machine} (h : Fetches m fetched m')
    (hs : m'.step = .running m'') :
    Fetches m (upTo m''.state.frames.size (m'.fetches fetched)) m''
  | interrupt {fetched : Nat → Option Nat} {m' : Machine} (h : Fetches m fetched m') (asked : Bool) :
    Fetches m fetched (m'.withInterrupt asked)

/-- Every run fetches instructions. -/
theorem Logs.fetches {m m' : Machine} {log : List ClassEvent} (h : m.Logs log m') :
    ∃ fetched, m.Fetches fetched m' := by
  induction h with
  | refl => exact ⟨_, .refl⟩
  | step _ hs ih =>
    obtain ⟨fetched, hf⟩ := ih
    exact ⟨_, hf.step hs⟩
  | interrupt _ asked ih =>
    obtain ⟨fetched, hf⟩ := ih
    exact ⟨_, hf.interrupt asked⟩

/-! ## Frames stand behind what they have fetched -/

/-- A frame stands behind the instruction that it has fetched last, which does not jump first. -/
def Settled (fetched : Nat → Option Nat) (frames : Array Frame) (i : Nat) : Prop :=
  ∃ f offset op, frames[i]? = some f ∧ fetched i = some offset ∧
    f.proto.chunk.code[offset]? = some op ∧ op.movesFirst = false ∧ f.ip = offset + 1

/-- Actions that wait for a call that began with a number of frames are calm, and so are those that
wait for the calls that they run in. The outermost call began with none. -/
inductive Awaits : Nat → List Waiting → Prop
  | nil : Awaits 0 []
  | cons {depth : Nat} {w : Waiting} {rest : List Waiting} (hle : w.call.depth ≤ depth)
    (hw : ∀ ok u, depth ≤ u.frames.size → (w.resume ok u).Calm w.call.depth u)
    (hrest : Awaits w.call.depth rest) : Awaits depth (w :: rest)

/-- The first that waits, and those that wait for it. -/
theorem Awaits.head {depth : Nat} {w : Waiting} {rest : List Waiting} (h : Awaits depth (w :: rest)) :
    w.call.depth ≤ depth ∧
      (∀ ok u, depth ≤ u.frames.size → (w.resume ok u).Calm w.call.depth u) ∧
        Awaits w.call.depth rest := by
  cases h with
  | cons hle hw hrest => exact ⟨hle, hw, hrest⟩

/-- The frames of a machine between two steps: all of them stand behind what they have fetched last,
but for the innermost one if it is about to fetch. -/
structure Framed (fetched : Nat → Option Nat) (m : Machine) : Prop where
  depth_le : m.call.depth ≤ m.state.frames.size
  running : m.control = .next → m.call.depth < m.state.frames.size
  leaving : m.control.stays = false → m.state.frames.size = m.call.depth
  settled : ∀ i < m.state.frames.size,
    (m.control = .next ∧ i + 1 = m.state.frames.size) ∨ Settled fetched m.state.frames i
  awaits : Awaits m.call.depth m.waiting

section Settled

variable {fetched fetched' : Nat → Option Nat} {frames frames' : Array Frame} {i : Nat}

/-- A frame that stays as it is stands where it stood. -/
theorem Settled.congr (h : Settled fetched frames i) (hf : frames'[i]? = frames[i]?)
    (hi : fetched' i = fetched i) : Settled fetched' frames' i := by
  obtain ⟨f, offset, op, hget, hfetched, hrest⟩ := h
  exact ⟨f, offset, op, hf.trans hget, hi.trans hfetched, hrest⟩

/-- Forgetting what the frames beyond have fetched. -/
theorem Settled.upTo (h : Settled fetched frames i) {count : Nat} (hi : i < count) :
    Settled (upTo count fetched) frames i :=
  h.congr rfl (if_pos hi)

/-- A frame that an array of frames begins with. -/
theorem Settled.of_initial {outer rest inner : List Frame}
    (h : Settled fetched frames i) (hf : frames.toList = outer ++ inner)
    (hf' : frames'.toList = outer ++ rest) (hi : i < outer.length) :
    Settled fetched frames' i := by
  refine h.congr ?_ rfl
  rw [← Array.getElem?_toList, ← Array.getElem?_toList, hf, hf', List.getElem?_append_left hi,
    List.getElem?_append_left hi]

end Settled

end Machine

/-! ## Steps -/

namespace State

/-- What frames become when they are unwound down to a depth: one of them goes on at a handler, or
all of them have been left. -/
inductive Unwinds (frames : List Frame) (depth : Nat) : State × Bool → Prop
  | caught {outer inner : List Frame} {f g : Frame} {t : State} (hs : frames = outer ++ f :: inner)
    (hd : depth ≤ outer.length) (ht : t.frames.toList = outer ++ [g]) :
    Unwinds frames depth (t, true)
  | uncaught {outer inner : List Frame} {t : State} (hs : frames = outer ++ inner)
    (hd : outer.length = depth) (ht : t.frames.toList = outer) : Unwinds frames depth (t, false)

/-- Unwinding leaves some frames and moves one to a handler. -/
theorem unwinds_unwindFrames (exception : Value) (count : Nat) (base : Option Nat) {s : State}
    {depth : Nat} (h : s.frames.size = depth + count) :
    Unwinds s.frames.toList depth (s.unwindFrames exception count base) := by
  induction count generalizing base s with
  | zero => cases base <;> exact .uncaught (List.append_nil _).symm h rfl
  | succ count ih =>
    have hlast : s.frames.size - 1 < s.frames.size := by omega
    have hf : s.frame? = some s.frames[s.frames.size - 1] :=
      Array.back?_eq_getElem?.trans (Array.getElem?_eq_getElem hlast)
    generalize s.frames[s.frames.size - 1] = f at hf
    have hsplit := frames_toList hf
    have hsize : s.frames.pop.size = depth + count := by
      rw [Array.size_pop]
      omega
    unfold unwindFrames
    rw [hf]
    dsimp only
    split
    · next k rest _ =>
      have hdepth : depth ≤ s.frames.pop.toList.length := by
        rw [Array.length_toList, hsize]
        omega
      refine .caught (g := { f with handlers := rest, ip := k.address }) hsplit hdepth ?_
      rw [frames_restore (frame?_modifyFrame hf fun f => { f with handlers := rest }),
        frames_modifyFrame hf, Array.pop_push, Array.toList_push]
    · have hpop := s.frames_leaveFrame f
      have hleft := ih (some f.base) (s := s.leaveFrame f) (by rw [hpop, hsize])
      rw [hpop] at hleft
      generalize (s.leaveFrame f).unwindFrames exception count (some f.base) = result at hleft
      cases hleft with
      | caught hs hd ht =>
        exact .caught (by rw [hsplit, hs, List.append_assoc, List.cons_append]) hd ht
      | uncaught hs hd ht => exact .uncaught (by rw [hsplit, hs, List.append_assoc]) hd ht

/-- So does unwinding the frames of a call. -/
theorem unwinds_unwind (s : State) {depth : Nat} (h : depth ≤ s.frames.size) :
    Unwinds s.frames.toList depth (s.unwind depth) :=
  unwinds_unwindFrames (s := s.drop) s.top _ none
    (show s.frames.size = depth + (s.frames.size - depth) by omega)

end State

/-- What a machine becomes in a step: its frames stand as they should, and what is recorded names
the given lines. -/
def Status.Framed (fetched : Nat → Option Nat) (lines : List (Option Nat)) (heap : Heap) :
    Status → Prop
  | .running m =>
    m.Framed (Machine.upTo m.state.frames.size fetched) ∧ heap.Records lines m.state.heap
  | .ended _ _ | .fault _ => True

namespace Machine

section Absorbing

variable {fetched : Nat → Option Nat} {lines : List (Option Nat)} {heap : Heap} {call : Call}
  {waiting : List Waiting} {s t : State} {control : Control}

/-- A machine whose frames all stand behind what they have fetched. -/
theorem framed_settled {call : Call} (hw : Awaits call.depth waiting)
    (hn : control ≠ .next) (hl : control.stays = false → t.frames.size = call.depth)
    (hd : call.depth ≤ t.frames.size)
    (hset : ∀ i < t.frames.size, Settled fetched t.frames i) :
    Framed (upTo t.frames.size fetched) ⟨t, control, call, waiting⟩ :=
  ⟨hd, fun h => absurd h hn, hl, fun i hi => .inr ((hset i hi).upTo hi), hw⟩

/-- Leaving is not going on. -/
theorem leave_ne_next (returned : Bool) : Control.leave returned ≠ .next := by
  intro h
  cases h

/-- Where the next instruction follows, the innermost frame stays. -/
theorem not_leaving_next {α : Prop} (h : Control.next.stays = false) : α := by
  cases h

/-- The machine goes on with the next instruction, or the call has ended. -/
theorem framed_next (hw : Awaits call.depth waiting) (hr : heap.Records lines t.heap)
    (hout : ∀ i, i + 1 < t.frames.size → Settled fetched t.frames i)
    (htop : call.depth < t.frames.size ∨
      call.depth = t.frames.size ∧ ∀ i < t.frames.size, Settled fetched t.frames i) :
    (absorb call waiting (.done .next t)).Framed fetched lines heap := by
  rw [absorb]
  split
  · next hsize =>
    obtain hlt | ⟨-, hset⟩ := htop
    · omega
    · exact ⟨framed_settled hw (leave_ne_next true) (fun _ => hsize) hsize.ge hset, hr⟩
  · next hsize =>
    have hlt : call.depth < t.frames.size := by
      obtain hlt | ⟨heq, -⟩ := htop
      · exact hlt
      · exact absurd heq.symm hsize
    have hsettled : ∀ i < t.frames.size, (Control.next = .next ∧ i + 1 = t.frames.size) ∨
        Settled (upTo t.frames.size fetched) t.frames i := by
      intro i hi
      by_cases hi' : i + 1 = t.frames.size
      · exact .inl ⟨rfl, hi'⟩
      · exact .inr ((hout i (by omega)).upTo hi)
    split <;> exact ⟨⟨hlt.le, fun _ => hlt, not_leaving_next, hsettled, hw⟩, hr⟩

/-- An exception goes to a handler, or ends the call. The innermost frame may have moved already if
it belongs to the call. -/
theorem framed_raised (hw : Awaits call.depth waiting) (hr : heap.Records lines t.heap)
    (hd : call.depth ≤ t.frames.size)
    (hout : ∀ i, i + 1 < t.frames.size → Settled fetched t.frames i)
    (htop : call.depth < t.frames.size ∨ ∀ i < t.frames.size, Settled fetched t.frames i) :
    (absorb call waiting (.raised t)).Framed fetched lines heap := by
  have hrecords : heap.Records lines (t.unwind call.depth).1.heap :=
    hr.trans (t.records_unwind call.depth)
  have hunwinds := t.unwinds_unwind hd
  have hbelow : ∀ i, i < call.depth → Settled fetched t.frames i := by
    intro i hi
    obtain hlt | hset := htop
    · exact hout i (by omega)
    · exact hset i (by omega)
  rw [absorb]
  generalize t.unwind call.depth = result at hrecords hunwinds
  cases hunwinds with
  | @caught outer inner f g u hs hdepth hu =>
    have hsize : u.frames.size = outer.length + 1 := by
      rw [← Array.length_toList, hu, List.length_append, List.length_singleton]
    have hlt : outer.length < t.frames.size := by
      rw [← Array.length_toList, hs, List.length_append, List.length_cons]
      omega
    have hrun : call.depth < u.frames.size := by omega
    refine ⟨⟨hrun.le, fun _ => hrun, not_leaving_next, fun i hi => ?_, hw⟩, hrecords⟩
    change i < u.frames.size at hi
    by_cases hi' : i + 1 = u.frames.size
    · exact .inl ⟨rfl, hi'⟩
    · exact .inr (((hout i (by omega)).of_initial hs hu (by omega)).upTo hi)
  | @uncaught outer inner u hs hdepth hu =>
    have hsize : u.frames.size = call.depth := by rw [← Array.length_toList, hu, hdepth]
    refine ⟨framed_settled (t := u.settle call.slot) hw (leave_ne_next false) (fun _ => hsize)
      hsize.ge ?_, hrecords⟩
    intro i hi
    change i < u.frames.size at hi
    exact (hbelow i (by omega)).of_initial hs (hu.trans (List.append_nil _).symm) (by omega)

/-- What is done is gone on with, unless it is going on to the next instruction. -/
theorem absorb_done (hn : control ≠ .next) :
    absorb call waiting (.done control t) = .running ⟨t, control, call, waiting⟩ := by
  cases control <;> first | rfl | exact absurd rfl hn

/-- What becomes of an action that has ended. -/
theorem framed_done (hleads : control.Reframes call.depth s.frames t.frames)
    (hw : Awaits call.depth waiting) (hr : heap.Records lines t.heap)
    (hd : call.depth ≤ s.frames.size)
    (hset : ∀ i < s.frames.size, Settled fetched s.frames i) :
    (absorb call waiting (.done control t)).Framed fetched lines heap := by
  have hlast : call.depth < s.frames.size → ∃ f, s.frames.toList = s.frames.pop.toList ++ [f] :=
    fun hlt => ⟨_, State.frames_toList (Array.back?_eq_getElem?.trans
      (Array.getElem?_eq_getElem (by omega : s.frames.size - 1 < s.frames.size)))⟩
  -- What the frames have in common they have in the same places.
  have hkept : ∀ {outer rest rest' : List Frame}, s.frames.toList = outer ++ rest →
      t.frames.toList = outer ++ rest' → ∀ i < outer.length, Settled fetched t.frames i :=
    fun hs ht i hi =>
      (hset i (by rw [← Array.length_toList, hs, List.length_append]; omega)).of_initial hs ht hi
  generalize ht : t.frames = frames at hleads
  cases hleads with
  | stays hstays =>
    have hall : ∀ i < t.frames.size, Settled fetched t.frames i := by rwa [ht]
    by_cases hn : control = .next
    · subst hn
      refine framed_next hw hr (fun i hi => hall i (by omega)) ?_
      obtain hlt | heq := hd.lt_or_eq
      · exact .inl (by rwa [ht])
      · exact .inr ⟨by rwa [ht], hall⟩
    · rw [absorb_done hn]
      exact ⟨framed_settled hw hn (fun hl => by rw [hstays] at hl; cases hl) (by rwa [ht]) hall, hr⟩
  | enters f =>
    have hsize : t.frames.size = s.frames.size + 1 := by rw [ht, Array.size_push]
    refine framed_next hw hr (fun i hi => ?_) (.inl (by omega))
    exact hkept (List.append_nil _).symm (by rw [ht, Array.toList_push]) i
      (by rw [Array.length_toList]; omega)
  | moves hlt f =>
    obtain ⟨last, hs⟩ := hlast hlt
    have hsize : t.frames.size = s.frames.pop.size + 1 := by rw [ht, Array.size_push]
    have hpop : s.frames.pop.size = s.frames.size - 1 := Array.size_pop
    refine framed_next hw hr (fun i hi => ?_) (.inl (by omega))
    exact hkept hs (by rw [ht, Array.toList_push]) i (by rw [Array.length_toList]; omega)
  | leaves hlt =>
    obtain ⟨last, hs⟩ := hlast hlt
    have hsize : t.frames.size = s.frames.size - 1 := by rw [ht, Array.size_pop]
    have hall : ∀ i < t.frames.size, Settled fetched t.frames i := fun i hi =>
      hkept hs (by rw [ht, List.append_nil]) i (by rwa [Array.length_toList, ← ht])
    refine framed_next hw hr (fun i hi => hall i (by omega)) ?_
    obtain hlt' | heq := Nat.lt_or_eq_of_le (by omega : call.depth ≤ t.frames.size)
    · exact .inl hlt'
    · exact .inr ⟨heq, hall⟩

/-- What becomes of an action that is calm, where all frames stand behind what they have fetched. -/
theorem framed_absorb {p : Proc Control} (hp : p.Calm call.depth s) (hw : Awaits call.depth waiting)
    (hd : call.depth ≤ s.frames.size)
    (hset : ∀ i < s.frames.size, Settled fetched s.frames i) :
    (absorb call waiting p).Framed fetched s.lines s.heap := by
  cases p with
  | done control t => exact framed_done hp.2 hw hp.1 hd hset
  | raised t =>
    have hall : ∀ i < t.frames.size, Settled fetched t.frames i := by rwa [hp.frames]
    exact framed_raised hw hp.records (by rwa [hp.frames]) (fun i hi => hall i (by omega)) (.inr hall)
  | fault e => trivial
  | call t method argc resume =>
    obtain ⟨hstill, hresume⟩ := hp
    have hall : ∀ i < t.frames.size, Settled fetched t.frames i := by rwa [hstill.frames]
    rw [absorb, start]
    split
    · refine ⟨framed_settled (.cons (by rwa [hstill.frames]) (fun ok u hu => ?_) hw) ?_ ?_ le_rfl hall,
        hstill.records⟩
      · exact hresume ok u (by rwa [← hstill.frames])
      · split <;> intro h <;> cases h
      · split <;> intro h <;> cases h
    · trivial

end Absorbing

/-! ## What is executed -/

variable {m m' : Machine} {fetched : Nat → Option Nat}

/-- A state in which a machine does what it does next: its frames are those of the machine, each
behind the instruction it has fetched last, but for the innermost one if it moves first. -/
structure Executes (fetched : Nat → Option Nat) (m : Machine) (s : State) : Prop where
  heap : s.heap = m.state.heap
  size : s.frames.size = m.state.frames.size
  frame : ∀ i f, m.state.frames[i]? = some f → ∃ offset op,
    m.fetches fetched i = some offset ∧ f.proto.chunk.code[offset]? = some op ∧
      (op.movesFirst = true → m.control = .next ∧ i + 1 = m.state.frames.size) ∧
        (s.frames[i]?.bind Frame.line?) = f.proto.chunk.lineAt? (op.traced offset)

/-- Where all frames stand behind what they have fetched. -/
theorem executes_settled {s : State} (hheap : s.heap = m.state.heap)
    (hframes : s.frames = m.state.frames)
    (hset : ∀ i < m.state.frames.size, Settled (m.fetches fetched) m.state.frames i) :
    Executes fetched m s := by
  refine ⟨hheap, by rw [hframes], fun i f hf => ?_⟩
  obtain ⟨f', offset, op, hf', hfetched, hop, hmoves, hip⟩ :=
    hset i (Array.getElem?_eq_some_iff.1 hf).1
  cases hf.symm.trans hf'
  refine ⟨offset, op, hfetched, hop, fun h => ?_, ?_⟩
  · rw [hmoves] at h
    cases h
  · rw [hframes, hf, Option.bind_some, Frame.line?, hip, Nat.add_sub_cancel]
    cases op <;> first | rfl | cases hmoves

/-! ### Fetched instructions -/

section Fetched

variable {f g : Frame} {op : Op} {s t : State} {call : Call} {waiting : List Waiting}

/-- A frame other than the innermost one has been left as it was. -/
theorem Framed.outer (h : m.Framed fetched) (hf : m.state.frame? = some f)
    (hframes : s.frames = m.state.frames.pop.push g) :
    ∀ i, i + 1 < s.frames.size → Settled (m.fetches fetched) s.frames i := by
  have hpop : m.state.frames.pop.size = m.state.frames.size - 1 := Array.size_pop
  have hsize : s.frames.size = m.state.frames.pop.size + 1 := by rw [hframes, Array.size_push]
  intro i hi
  have hlt : i + 1 ≠ m.state.frames.size := by omega
  have hset := (h.settled i (by omega)).resolve_left fun hlast => hlt hlast.2
  have hfetched : m.fetches fetched i = fetched i := by
    unfold fetches
    split
    · exact if_neg hlt
    · rfl
  have hlist : s.frames.toList = m.state.frames.pop.toList ++ [g] := by
    rw [hframes, Array.toList_push]
  refine (hset.congr rfl hfetched).of_initial (State.frames_toList hf) hlist ?_
  rw [Array.length_toList]
  omega

/-- The innermost frame has fetched an instruction and stands where a trace finds it. -/
theorem executes_fetched (h : m.Framed fetched) (hn : m.control = .next)
    (hf : m.state.frame? = some f) (hop : f.proto.chunk.code[f.ip]? = some op)
    (hheap : s.heap = m.state.heap) (hframes : s.frames = m.state.frames.pop.push g)
    (hproto : g.proto = f.proto) (hip : g.ip - 1 = op.traced f.ip) : Executes fetched m s := by
  have hpos : 0 < m.state.frames.size := by
    obtain ⟨outer, houter⟩ := Array.back?_eq_some_iff.1 hf
    rw [houter, Array.size_push]
    omega
  have hpop : m.state.frames.pop.size = m.state.frames.size - 1 := Array.size_pop
  have hsize : s.frames.size = m.state.frames.size := by
    rw [hframes, Array.size_push]
    omega
  refine ⟨hheap, hsize, fun i x hx => ?_⟩
  have hlt := (Array.getElem?_eq_some_iff.1 hx).1
  by_cases hi : i + 1 = m.state.frames.size
  · have hlast : x = f := by
      rw [State.frames_eq_push hf, Array.getElem?_push, if_pos (by omega)] at hx
      exact (Option.some.inj hx).symm
    subst hlast
    refine ⟨x.ip, op, ?_, hop, fun _ => ⟨hn, hi⟩, ?_⟩
    · rw [fetches, hn]
      dsimp only
      rw [if_pos hi, hf, Option.map_some]
    · rw [hframes, Array.getElem?_push, if_pos (by omega), Option.bind_some, Frame.line?, hproto, hip]
  · obtain ⟨x', offset, op', hx', hfetched, hop', hmoves, hip'⟩ :=
      h.outer hf hframes i (by omega)
    have hsame : s.frames[i]? = m.state.frames[i]? := by
      rw [hframes, State.frames_eq_push hf, Array.getElem?_push, Array.getElem?_push,
        Array.pop_push, if_neg (by omega), if_neg (by omega)]
    rw [hsame, hx] at hx'
    cases hx'
    refine ⟨offset, op', hfetched, hop', fun h => ?_, ?_⟩
    · rw [hmoves] at h
      cases h
    · rw [hsame, hx, Option.bind_some, Frame.line?, hip', Nat.add_sub_cancel]
      cases op' <;> first | rfl | cases hmoves

/-- An interrupt is raised where the frame has moved. -/
theorem framed_interrupt (hw : Awaits call.depth waiting) (hd : call.depth < s.frames.size)
    (hout : ∀ i, i + 1 < s.frames.size → Settled fetched s.frames i) :
    (absorb call waiting (Act.thenNext Act.checkInterrupt s)).Framed fetched s.lines s.heap := by
  have hrun : Act.thenNext Act.checkInterrupt s =
      (Act.checkInterrupt s).bind fun _ t => .done .next t := rfl
  have hwithin : (Act.checkInterrupt s).Within State.Still false s := Act.within_checkInterrupt s
  rw [hrun]
  cases hp : Act.checkInterrupt s with
  | done u t =>
    rw [hp] at hwithin
    have hstill := State.still_of_steps hwithin
    rw [Proc.bind_done]
    exact framed_next hw hstill.records (by rwa [hstill.frames]) (.inl (by rwa [hstill.frames]))
  | raised t =>
    rw [hp] at hwithin
    have hstill := State.still_of_steps hwithin
    have hdt : call.depth < t.frames.size := by rwa [hstill.frames]
    exact framed_raised hw hstill.records hdt.le (by rwa [hstill.frames]) (.inl hdt)
  | fault e => trivial
  | call t method argc resume =>
    rw [hp] at hwithin
    cases hwithin.1

/-- An instruction is fetched and executed. -/
theorem framed_fetched {s : State} {call : Call} {waiting : List Waiting}
    (h : Framed fetched ⟨s, .next, call, waiting⟩) :
    (∃ e, step ⟨s, .next, call, waiting⟩ = .fault e) ∨
      ∃ t, Executes fetched ⟨s, .next, call, waiting⟩ t ∧
        (step ⟨s, .next, call, waiting⟩).Framed (fetches ⟨s, .next, call, waiting⟩ fetched)
          t.lines t.heap := by
  have hd : call.depth < s.frames.size := h.running rfl
  have hf : s.frame? = some s.frames[s.frames.size - 1] :=
    Array.back?_eq_getElem?.trans (Array.getElem?_eq_getElem (by omega))
  generalize s.frames[s.frames.size - 1] = f at hf
  have hstep : step ⟨s, .next, call, waiting⟩ =
      absorb call waiting ((Act.fetch s).bind fun op t => Act.execute op t) := rfl
  rw [hstep]
  cases hop : f.proto.chunk.code[f.ip]? with
  | none =>
    refine .inl ⟨.codeEnd, ?_⟩
    simp [Act.fetch, hf, hop, absorb, Proc.bind]
  | some op =>
    let t : State := s.modifyFrame fun f => { f with ip := f.ip + 1 }
    have hfetch : Act.fetch s = .done op t := by simp [Act.fetch, hf, hop, t]
    have hframes : t.frames = s.frames.pop.push { f with ip := f.ip + 1 } :=
      State.frames_modifyFrame hf _
    have hframe : t.frame? = some { f with ip := f.ip + 1 } := State.frame?_modifyFrame hf _
    have hdt : call.depth < t.frames.size := by rwa [State.size_modifyFrame]
    rw [hfetch, Proc.bind_done]
    -- A jump has moved the frame on before it asks for an interrupt.
    have hmoved : ∀ move : Nat → Nat, move (f.ip + 1) - 1 = op.traced f.ip →
        Act.execute op t =
          Act.thenNext Act.checkInterrupt (t.modifyFrame fun f => { f with ip := move f.ip }) →
        ∃ u, Executes fetched ⟨s, .next, call, waiting⟩ u ∧
          (absorb call waiting (Act.execute op t)).Framed
            (fetches ⟨s, .next, call, waiting⟩ fetched) u.lines u.heap := by
      intro move hmove hrun
      let u : State := t.modifyFrame fun f => { f with ip := move f.ip }
      have hframes' : u.frames = s.frames.pop.push { f with ip := move (f.ip + 1) } := by
        rw [State.frames_modifyFrame hframe, hframes, Array.pop_push]
      refine ⟨u, executes_fetched h rfl hf hop rfl hframes' rfl hmove, ?_⟩
      rw [hrun]
      exact framed_interrupt h.awaits (by rwa [State.size_modifyFrame]) (h.outer hf hframes')
    cases hm : op.movesFirst with
    | true =>
      cases op with
      | jump d => exact .inr (hmoved (· + d.toNat) (by simp only [Op.traced]; omega) rfl)
      | loop d => exact .inr (hmoved (· - d.toNat) (by simp only [Op.traced]; omega) rfl)
      | _ => cases hm
    | false =>
      have htraced : op.traced f.ip = f.ip := by
        cases op <;> first | rfl | cases hm
      refine .inr ⟨t, executes_fetched h rfl hf hop rfl hframes rfl htraced.symm, ?_⟩
      refine framed_absorb (Act.calm_execute hdt hm) h.awaits hdt.le fun i hi => ?_
      by_cases hlast : i + 1 = t.frames.size
      · have hsize : t.frames.size = s.frames.size := State.size_modifyFrame s _
        have hpop : s.frames.pop.size = s.frames.size - 1 := Array.size_pop
        refine ⟨{ f with ip := f.ip + 1 }, f.ip, op, ?_, ?_, hop, hm, rfl⟩
        · rw [hframes, Array.getElem?_push, if_pos (by omega)]
        · rw [fetches]
          dsimp only
          rw [if_pos (by omega), hf, Option.map_some]
      · exact h.outer hf hframes i (by omega)

end Fetched

/-- In a step all that is recorded is of the state in which the machine does what it does next. -/
theorem Framed.status (h : m.Framed fetched) : (∃ e, m.step = .fault e) ∨
    ∃ s, Executes fetched m s ∧ m.step.Framed (m.fetches fetched) s.lines s.heap := by
  obtain ⟨s, control, call, waiting⟩ := m
  have hset : control ≠ .next → ∀ i < s.frames.size,
      Settled (fetches ⟨s, control, call, waiting⟩ fetched) s.frames i := by
    intro hn i hi
    refine ((h.settled i hi).resolve_left fun hlast => hn hlast.1).congr rfl ?_
    unfold fetches
    split
    · next hc => exact absurd hc hn
    · rfl
  cases control with
  | next => exact framed_fetched h
  | leave returned =>
    have hset := hset nofun
    let left : State := if call.entered then s.leaveScript else s
    have hframes : left.frames = s.frames := by
      unfold left
      split <;> rfl
    have hheap : left.heap = s.heap := by
      unfold left
      split <;> rfl
    refine .inr ⟨left, executes_settled hheap hframes hset, ?_⟩
    cases waiting with
    | nil => trivial
    | cons w rest =>
      obtain ⟨hle, hw, hrest⟩ := h.awaits.head
      refine framed_absorb (hw returned left ?_) hrest ?_ ?_
      · rw [hframes]
        exact h.depth_le
      · rw [hframes]
        exact hle.trans h.depth_le
      · rwa [hframes]
  | _ =>
    exact .inr ⟨s, executes_settled rfl rfl (hset nofun),
      framed_absorb (Act.calm_action nofun rfl) h.awaits h.depth_le (hset nofun)⟩

/-- A step keeps frames behind what they have fetched, and records the lines of those that are
active. -/
theorem Framed.step (h : m.Framed fetched) (hs : m.step = .running m') :
    m'.Framed (upTo m'.state.frames.size (m.fetches fetched)) ∧
      ∃ s, Executes fetched m s ∧ m.state.heap.Records s.lines m'.state.heap := by
  obtain ⟨e, he⟩ | ⟨s, hexecutes, hstatus⟩ := h.status
  · rw [hs] at he
    cases he
  · rw [hs] at hstatus
    exact ⟨hstatus.1, s, hexecutes, hexecutes.heap ▸ hstatus.2⟩

/-! ## Runs -/

/-- The traces that a machine records in its next step have one record for each frame, innermost
first, with the line of the instruction that the frame has fetched last. Only a jump that the
innermost frame executes has another line, that of the instruction before its target. -/
def NamesLines (fetched : Nat → Option Nat) (m : Machine) : Prop :=
  ∀ m' y records, m.step = .running m' → m'.state.heap.get? y = some (.stackTrace records) →
    m.state.heap.get? y ≠ some (.stackTrace records) →
      records.length = m.state.frames.size ∧ ∀ i f, m.state.frames[i]? = some f →
        ∃ offset op record, m.fetches fetched i = some offset ∧
          f.proto.chunk.code[offset]? = some op ∧ records.reverse[i]? = some record ∧
          record.line = f.proto.chunk.lineAt? (op.traced offset) ∧
          (op.movesFirst = true → m.control = .next ∧ i + 1 = m.state.frames.size)

/-- The lines of frames are those of what they have fetched. -/
theorem Framed.namesLines (h : m.Framed fetched) : m.NamesLines fetched := by
  intro m' y records hs hy hnew
  obtain ⟨-, s, hexecutes, hrecords⟩ := h.step hs
  have hlines : records.map (·.line) = s.lines := (hrecords y records hy).resolve_left hnew
  have hlength : records.length = s.frames.size := by
    simpa [State.lines] using congrArg List.length hlines
  refine ⟨hlength.trans hexecutes.size, fun i f hf => ?_⟩
  obtain ⟨offset, op, hfetched, hop, hmoves, hline⟩ := hexecutes.frame i f hf
  have hi : i < records.reverse.length := by
    rw [List.length_reverse, hlength, hexecutes.size]
    exact (Array.getElem?_eq_some_iff.1 hf).1
  refine ⟨offset, op, records.reverse[i], hfetched, hop, List.getElem?_eq_getElem hi, ?_, hmoves⟩
  have hreverse : records.reverse.map (·.line) = s.frames.toList.map Frame.line? := by
    rw [List.map_reverse, hlines, State.lines, List.map_reverse, List.reverse_reverse]
  have hget := congrArg (·[i]?) hreverse
  simp only [List.getElem?_map, List.getElem?_eq_getElem hi, Option.map_some,
    Array.getElem?_toList] at hget
  cases hframe : s.frames[i]? with
  | none =>
    rw [hframe] at hget
    cases hget
  | some x =>
    rw [hframe] at hget hline
    exact (Option.some.inj hget).trans hline

/-- What becomes of an action is no end. -/
theorem absorb_ne_ended {call : Call} {waiting : List Waiting} {p : Proc Control} {ok : Bool}
    {t : State} : absorb call waiting p ≠ .ended ok t := by
  intro h
  cases p with
  | done control u =>
    by_cases hn : control = .next
    · subst hn
      rw [absorb] at h
      split at h
      · cases h
      · split at h <;> cases h
    · rw [absorb_done hn] at h
      cases h
  | raised u =>
    rw [absorb] at h
    split at h <;> cases h
  | fault e => cases h
  | call u method argc resume =>
    rw [absorb, start] at h
    split at h <;> cases h

/-- No frame is left when the outermost call ends. -/
theorem Framed.ended (h : m.Framed fetched) {ok : Bool} {t : State} (hs : m.step = .ended ok t) :
    t.frames = #[] := by
  obtain ⟨s, control, call, waiting⟩ := m
  cases control with
  | leave returned =>
    cases waiting with
    | nil =>
      have hdepth : call.depth = 0 := by
        generalize hd : call.depth = depth
        have hawaits : Awaits depth [] := hd ▸ h.awaits
        cases hawaits
        rfl
      have hempty : s.frames = #[] := Array.size_eq_zero_iff.1 ((h.leaving rfl).trans hdepth)
      have ht : t = if call.entered then s.leaveScript else s := by
        cases hs
        rfl
      rw [ht]
      split <;> exact hempty
    | cons w rest => exact absurd hs absorb_ne_ended
  | _ => exact absurd hs absorb_ne_ended

/-- A call of the host starts without frames. -/
theorem framed_start {s : State} {method : Option Value} {argc : Nat} (hf : s.frames = #[])
    (hs : start s method argc [] = .running m) : m.Framed fun _ => none := by
  have hsize : s.frames.size = 0 := by rw [hf, Array.size_empty]
  unfold start at hs
  split at hs
  · cases hs
    refine ⟨le_rfl, ?_, ?_, fun i hi => by simp only [hsize] at hi; omega, ?_⟩
    · split <;> nofun
    · split <;> nofun
    · simp only [hsize]
      exact .nil
  · cases hs

/-- Frames stand behind what they have fetched throughout a run. -/
theorem Fetches.framed (hr : m.Fetches fetched m') (h : m.Framed fun _ => none) :
    m'.Framed fetched := by
  induction hr with
  | refl => exact h
  | step _ hs ih => exact (ih.step hs).1
  | interrupt _ asked ih => exact ⟨ih.depth_le, ih.running, ih.leaving, ih.settled, ih.awaits⟩

end Machine

/-! ## Hosts -/

/-- Changes that leave the frames as they are. -/
def State.Abreast (s t : State) : Prop := t.frames = s.frames

/-- Steps of this kind leave the frames alone. -/
theorem State.abreast_of_steps {s t : State} (h : Relation.ReflTransGen Abreast s t) :
    t.frames = s.frames := by
  induction h with
  | refl => rfl
  | tail _ hs ih => exact Eq.trans hs ih

namespace Proc

variable {α : Type} {p : Proc α} {s t : State} {fetched : Nat → Option Nat} {m : Machine}
  {log : List ClassEvent}

/-- The machines that run while an action of the host waits for its calls, each with what its frames
have fetched last. -/
inductive Fetches : Proc α → (Nat → Option Nat) → Machine → Prop
  | now {s : State} {method : Option Value} {argc : Nat} {resume : Bool → State → Proc α}
    {fetched : Nat → Option Nat} {m m' : Machine}
    (hs : Machine.start s method argc [] = .running m) (hm : m.Fetches fetched m') :
    Fetches (.call s method argc resume) fetched m'
  | later {s t : State} {method : Option Value} {argc : Nat} {resume : Bool → State → Proc α}
    {fetched fetched' : Nat → Option Nat} {m m' m'' : Machine} {ok : Bool}
    (hs : Machine.start s method argc [] = .running m) (hm : m.Fetches fetched m')
    (hend : m'.step = .ended ok t) (hd : Fetches (resume ok t) fetched' m'') :
    Fetches (.call s method argc resume) fetched' m''

/-- Every run of the host's calls fetches instructions. -/
theorem During.fetches (hd : p.During log m) : ∃ fetched, p.Fetches fetched m := by
  induction hd with
  | now hs hm =>
    obtain ⟨fetched, hf⟩ := hm.fetches
    exact ⟨fetched, .now hs hf⟩
  | later hs hm hend _ ih =>
    obtain ⟨_, hf⟩ := hm.fetches
    obtain ⟨fetched, hrest⟩ := ih
    exact ⟨fetched, .later hs hf hend hrest⟩

/-- A host has no frames, and none are left when a call that it makes has ended. -/
theorem frames_ended {method : Option Value} {argc : Nat} {m m' : Machine} {ok : Bool}
    (hf : s.frames = #[]) (hs : Machine.start s method argc [] = .running m)
    (hm : m.Fetches fetched m') (hend : m'.step = .ended ok t) : t.frames = #[] :=
  (hm.framed (Machine.framed_start hf hs)).ended hend

/-- Frames stand behind what they have fetched in all machines that the host runs. -/
theorem Fetches.framed (hr : p.Fetches fetched m) (hp : p.Within State.Abreast true s)
    (hf : s.frames = #[]) : m.Framed fetched := by
  induction hr generalizing s with
  | now hs hm =>
    exact hm.framed (Machine.framed_start ((State.abreast_of_steps hp.2.1).trans hf) hs)
  | later hs hm hend _ ih =>
    exact ih (hp.2.2 _ _) (frames_ended ((State.abreast_of_steps hp.2.1).trans hf) hs hm hend)

/-- After the host's calls there are no frames. -/
theorem After.frames (ha : p.After log t) (hp : p.Within State.Abreast true s)
    (hf : s.frames = #[]) : t.frames = #[] := by
  induction ha generalizing s with
  | done a u => exact (State.abreast_of_steps hp).trans hf
  | raised u => exact (State.abreast_of_steps hp).trans hf
  | call hs hm hend _ ih =>
    obtain ⟨_, hm⟩ := hm.fetches
    exact ih (hp.2.2 _ _) (frames_ended ((State.abreast_of_steps hp.2.1).trans hf) hs hm hend)

end Proc

section Hosted

variable {settings : Settings} {log : List ClassEvent} {s : State}

/-- Host-side code makes such steps. -/
theorem Act.abreast_of_hostChange {α : Type} {x : Act α} (hx : Within State.HostChange true x)
    (s : State) :
    (x s).Within State.Abreast true s :=
  (hx s).mono (fun _ _ h => h.frames) id

/-- Evaluating a module makes such steps. -/
theorem Act.abreast_evalModule (hi : s.heap.Interned) (name : String) (module : Bytecode.Module) :
    (evalModule name module s).Within State.Abreast true s :=
  (neutral_evalModule (r := State.Still) hi name module).mono (fun _ _ h => h.frames) id

/-- In all states of a host strings are interned. -/
theorem Hosted.interned (h : Hosted (.create settings) log s) : s.heap.Interned :=
  (h.becomes (State.fresh_create settings).1.interned).interned
    (State.fresh_create settings).1.interned

/-- Between the things that a host does no frame is active. -/
theorem Hosted.frames_empty (h : Hosted (.create settings) log s) : s.frames = #[] := by
  induction h with
  | start => exact (State.fresh_create settings).1.frames
  | register _ name f ih => exact ih
  | offer _ modules ih => exact ih
  | act _ hx ha ih => exact ha.frames (Act.abreast_of_hostChange hx _) ih
  | eval h name m ha ih => exact ha.frames (Act.abreast_evalModule h.interned name m) ih

/-- Whatever a host runs, modules or its own actions, each trace that an instruction records names
the lines of the instructions that the active frames execute. -/
theorem Hosted.traces_name_lines (h : Hosted (.create settings) log s) :
    (∀ name module fetched m, (Act.evalModule name module s).Fetches fetched m →
      m.NamesLines fetched) ∧
    ∀ {α : Type} (x : Act α), Act.Within State.HostChange true x →
      ∀ fetched m, (x s).Fetches fetched m → m.NamesLines fetched :=
  ⟨fun name module _ _ hm =>
      (hm.framed (Act.abreast_evalModule h.interned name module) h.frames_empty).namesLines,
    fun _ hx _ _ hm => (hm.framed (Act.abreast_of_hostChange hx s) h.frames_empty).namesLines⟩

/-- Top-level code whose second line is a loop without end. -/
def loopingModule : Bytecode.Module where
  file := ""
  main :=
    { name := ""
      arity := 0
      defaults := #[]
      vararg := false
      upvalueCount := 0
      chunk := ⟨#[.null, .pop, .loop 2, .null, .return], #[], ⟨#[⟨1, 2⟩, ⟨2, 3⟩]⟩⟩ }

/-- The lines of a trace. -/
def Heap.linesAt (heap : Heap) (y : Handle) : Option (List (Option Nat)) :=
  match heap.get? y with
  | some (.stackTrace records) => some (records.map (·.line))
  | _ => none

/-- A trace is an object with records. -/
theorem Heap.linesAt_eq_some {heap : Heap} {y : Handle} {lines : List (Option Nat)} :
    heap.linesAt y = some lines ↔
      ∃ records, heap.get? y = some (.stackTrace records) ∧ records.map (·.line) = lines := by
  unfold linesAt
  split
  · next records hy => simp [hy]
  · next hne => exact ⟨nofun, fun ⟨records, hy, _⟩ => absurd hy (hne records)⟩

/-- The frame that fetches an instruction next, with the instruction. -/
def Machine.fetching (m : Machine) : Option (Frame × Op) :=
  match m.control with
  | .next => m.state.frame?.bind fun f => f.proto.chunk.code[f.ip]?.map fun op => (f, op)
  | _ => none

/-- A machine that is about to fetch an instruction. -/
theorem Machine.fetching_eq_some {m : Machine} {f : Frame} {op : Op}
    (h : m.fetching = some (f, op)) :
    m.control = .next ∧ m.state.frame? = some f ∧ f.proto.chunk.code[f.ip]? = some op := by
  unfold fetching at h
  split at h
  · next hcontrol =>
    obtain ⟨f, hf, h⟩ := Option.bind_eq_some_iff.1 h
    obtain ⟨op, hop, h⟩ := Option.map_eq_some_iff.1 h
    cases h
    exact ⟨hcontrol, hf, hop⟩
  · cases h

/-- An interrupt that a host has asked for is raised at the end of the loop, on the second line, and
its trace names the first one. -/
theorem Hosted.traces_name_lines_loopingModule : ∃ log s fetched m m' f records,
    Hosted (.create .default) log s ∧
      (Act.evalModule Act.mainModule loopingModule s).Fetches fetched m ∧
      m.step = .running m' ∧ m.state.frames = #[f] ∧ m.fetches fetched 0 = some 2 ∧
      f.proto.chunk.lineAt? 2 = some 2 ∧
      m'.state.heap.get? ⟨149⟩ = some (.stackTrace records) ∧
      records.map (·.line) = [f.proto.chunk.lineAt? 0] ∧ f.proto.chunk.lineAt? 0 = some 1 := by
  let s : State := { State.create .default with interrupt := true }
  have hhosted : Hosted (.create .default) ([] ++ []) s :=
    .act .start (x := Act.modify fun s => { s with interrupt := true })
      (fun s => .single (.host s.apiBase true s.output)) (.done () _)
  have hrun : ((Act.evalModule Act.mainModule loopingModule s).trace 3).bind (fun r =>
      r.2.fetching.bind fun x => (r.2.trace 1).map fun r' =>
        (decide (x.2 = .loop 2 ∧ x.1.ip = 2 ∧ x.1.proto.chunk.lines = ⟨#[⟨1, 2⟩, ⟨2, 3⟩]⟩ ∧
          r.2.state.frames.size = 1), r.2.state.heap.linesAt ⟨149⟩,
            (r'.2.state.heap.linesAt ⟨149⟩).isSome)) =
      some (true, none, true) := by
    decide +kernel
  obtain ⟨⟨log, m⟩, hm, hrest⟩ := Option.bind_eq_some_iff.1 hrun
  obtain ⟨⟨f, op⟩, hf, hrest⟩ := Option.bind_eq_some_iff.1 hrest
  obtain ⟨⟨log', m'⟩, hm', hfacts⟩ := Option.map_eq_some_iff.1 hrest
  simp only [Prod.mk.injEq, decide_eq_true_eq] at hfacts
  obtain ⟨⟨rfl, hip, hlines, hsize⟩, hbefore, hafter⟩ := hfacts
  obtain ⟨hcontrol, hframe, hop⟩ := Machine.fetching_eq_some hf
  have hs : m.step = .running m' := by
    unfold Machine.trace Machine.trace at hm'
    split at hm'
    · next m₁ hs =>
      cases hm'
      exact hs
    · cases hm'
  obtain ⟨fetched, hfetches⟩ := (Proc.during_of_trace hm).fetches
  obtain ⟨lines, hafter⟩ := Option.isSome_iff_exists.1 hafter
  obtain ⟨records, hy, -⟩ := Heap.linesAt_eq_some.1 hafter
  have hnew : m.state.heap.get? ⟨149⟩ ≠ some (.stackTrace records) := by
    intro hy'
    rw [Heap.linesAt_eq_some.2 ⟨records, hy', rfl⟩] at hbefore
    cases hbefore
  have hframes : m.state.frames = #[f] := by
    have hpop : m.state.frames.pop = #[] :=
      Array.size_eq_zero_iff.1 (by rw [Array.size_pop, hsize])
    rw [State.frames_eq_push hframe, hpop]
    rfl
  have hfetched : m.fetches fetched 0 = some 2 := by
    rw [Machine.fetches, hcontrol]
    dsimp only
    rw [if_pos (by rw [hsize]), hframe, Option.map_some, hip]
  obtain ⟨hlength, hrecords⟩ :=
    (Hosted.traces_name_lines hhosted).1 _ _ _ _ hfetches m' ⟨149⟩ records hs hy hnew
  obtain ⟨offset, op, record, hoffset, hop', hrecord, hline, -⟩ :=
    hrecords 0 f (by rw [hframes]; rfl)
  cases hoffset.symm.trans hfetched
  rw [hip] at hop
  cases hop'.symm.trans hop
  obtain ⟨r, rfl⟩ := List.length_eq_one_iff.1 (hlength.trans hsize)
  cases hrecord
  have hcode : ∀ offset, f.proto.chunk.lineAt? offset =
      LineTable.lineAt? ⟨#[⟨1, 2⟩, ⟨2, 3⟩]⟩ offset := fun offset => by rw [Chunk.lineAt?, hlines]
  refine ⟨_, s, fetched, m, m', f, [record], hhosted, hfetches, hs, hframes, hfetched, ?_, hy, ?_, ?_⟩
  · rw [hcode]
    rfl
  · rw [List.map_singleton, hline]
    rfl
  · rw [hcode]
    rfl

end Hosted

end ScriptEngine
