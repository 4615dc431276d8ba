import TorchDsp.Executor.Accounting

/-! # The counts handed to the blocks

The checks store a count in every port they walk over, but a block is handed
only two of them: what stands in the first block's first input port goes to all
its inputs, what stands in the last block's first output port to all its outputs
(`TorchDsp.GraphExecutor.placed_iteration`).
-/

namespace TorchDsp

/-- A count clipped to the limit of the reader, which is compared as an `int`. -/
def BufferReader.clip (r : BufferReader) (n : Nat) : Int :=
  if 0 < r.maxBufferRead then min (n : Int) (intOfSize r.maxBufferRead) else n

namespace Group

/-- The count that an input port offers when its check passes. Without a buffer
it keeps the count it had. -/
def offeredInput (g : Group) (w : BlockWorkInput) : Nat :=
  w.bufp.elim w.nItems fun r => sizeOfInt (r.clip (g.itemsAvailable r))

/-- The room of a buffer clipped to the largest `int` and to its fill limit. -/
def clippedRoom (g : Group) (k : Nat) : Nat :=
  let room := min (g.spaceAvailable k) intMax
  if 0 < (g.buffers k).maxBufferFill then min room (g.buffers k).maxBufferFill else room

/-- The count that an output port offers when its check passes: the clipped
room, rounded down to the output multiple. -/
def offeredOutput (g : Group) (multiple : Option Nat) (w : BlockWorkOutput) : Nat :=
  w.bufp.elim w.nItems fun k =>
    multiple.elim (g.clippedRoom k) (GraphExecutor.roundDown (g.clippedRoom k))

/-- The count handed to every output port of every block. -/
def handedOutput (g : Group) : Nat :=
  g.blocks.getLast?.elim 0 fun last =>
    last.outputs.head?.elim 0 (g.offeredOutput last.outputMultiple)

end Group

/-- The count handed to every input port of the block at position `p`: what the
first block's first port offers, until that block has run and left its own. -/
def Answers.handedInput (answers : Answers) (g : Group) (p : Nat) : Nat :=
  g.blocks.head?.elim 0 fun first =>
    let offered := first.inputs.head?.elim 0 g.offeredInput
    if p = 0 ∨ first.isHier then offered
    else (answers.final g.blocks.length 0).elim offered fun r => r.inputItems 0

namespace GraphExecutor

private theorem inputCount_eq_clip (g : Group) (r : BufferReader) :
    inputCount g r = sizeOfInt (r.clip (g.itemsAvailable r)) := by
  simp only [inputCount, BufferReader.clip]
  by_cases set : 0 < r.maxBufferRead
  · simp only [set, true_and, ↓reduceIte]
    generalize intOfSize r.maxBufferRead = limit
    split
    · rename_i above
      rw [Int.min_eq_right (Int.le_of_lt above)]
    · rename_i kept
      rw [Int.min_eq_left (Int.not_lt.mp kept)]
  · simp only [set, false_and, ↓reduceIte]

private theorem outputRoom_eq_clippedRoom (g : Group) (k : Nat) :
    outputRoom g k = g.clippedRoom k := by
  simp only [outputRoom, Group.clippedRoom]
  grind

private theorem nItems_negotiateInput (g : Group) (w : BlockWorkInput) :
    (negotiateInput g w).nItems = g.offeredInput w := by
  unfold negotiateInput Group.offeredInput
  cases w.bufp with
  | none => rfl
  | some r => exact inputCount_eq_clip g r

/-- The output check leaves its offer in the port. -/
theorem nItems_negotiateOutput (g : Group) (multiple : Option Nat) (w : BlockWorkOutput) :
    (negotiateOutput g multiple w).nItems = g.offeredOutput multiple w := by
  unfold negotiateOutput Group.offeredOutput
  cases w.bufp with
  | none => rfl
  | some k =>
      rw [Option.elim_some, ← outputRoom_eq_clippedRoom]
      cases multiple <;> rfl

/-- Blocks are handed their counts and run by the do_work loop alone. -/
theorem work_inside {answers : Answers} {g : Group} {event : Event} (work : event.isWork = true)
    (made : event ∈ eventsOf (runOneIteration answers g)) :
    ∃ ready, negotiate answers g = .ok (ready, .ready) ∧
      event ∈ loopEvents (workLoop answers [] ready.blocks {}) := by
  have unclogged {call : Nat → Nat → Event} {answer : Nat → Nat → Bool} {neighbour : Nat}
      {action : SchedulerAction} {ports : List (Nat × Nat × Bool)} {events : List Event}
      (other : ∀ p i, (call p i).isWork = false)
      (inside : event ∈ callsOf id (unclog call answer neighbour action ports events)) :
      event ∈ events := by
    rcases mem_unclog_events inside with earlier | ⟨p, i, rfl | rfl⟩
    · exact earlier
    · rw [other] at work
      cases work
    · cases work
  unfold runOneIteration at made
  rcases mem_callsOf_bind made with ⟨abort, fails, before⟩ | ⟨⟨ready, readiness⟩, checks, made⟩
  · cases outcome : negotiate answers g with
    | ok value => rw [outcome] at fails; cases fails
    | error cause => rw [outcome] at fails; cases fails; exact (List.not_mem_nil before).elim
  · have checks := Except.mapError_eq_ok checks
    cases readiness with
    | inputsBlocked => exact (List.not_mem_nil made).elim
    | outputsBlocked =>
        have inside : event ∈ callsOf id (unclogOutputs answers ready.blocks []) :=
          mem_callsOf_first made fun _ _ made => made
        exact (List.not_mem_nil (unclogged (fun _ _ => rfl) inside)).elim
    | ready =>
        refine ⟨ready, checks, mem_callsOf_first made ?_⟩
        rintro ⟨blocks, l⟩ _ made
        have committed : event ∈
            callsOf Prod.snd (commit { ready with blocks } l.events) := by
          refine mem_callsOf_first made ?_
          rintro ⟨after, events⟩ _ made
          have inside := mem_callsOf_first made fun _ _ (made : _ ∈ id _) => made
          split at inside
          · exact unclogged (fun _ _ => rfl) inside
          · split at inside
            · exact unclogged (fun _ _ => rfl) inside
            · exact inside
        rcases mem_commit_events committed with earlier | ⟨_, _, _, rfl⟩
        · exact earlier
        · cases work

/-- How the block at position `p` of `g` is first handed to `do_work`. -/
structure Placement (answers : Answers) (g : Group) (p : Nat) (wio : Block) : Prop where
  reaches : passes answers g = true
  takesPart : ∃ b, g.blocks[p]? = some b ∧ b.isHier = false
  readers : ∀ i, wio.inputs[i]?.map BlockWorkInput.bufp = (g.input p i).map BlockWorkInput.bufp
  inputs : ∀ w ∈ wio.inputs, w.nItems = answers.handedInput g p
  buffers : ∀ i, wio.outputs[i]?.map BlockWorkOutput.bufp =
    (g.output p i).map BlockWorkOutput.bufp
  outputs : ∀ w ∈ wio.outputs, w.nItems = g.handedOutput

/-- The block is handed its own readers. -/
theorem Placement.reader {answers : Answers} {g : Group} {p : Nat} {wio : Block}
    (placement : Placement answers g p wio) (i : Nat) :
    wio.inputs[i]?.bind BlockWorkInput.bufp = g.reader p i := by
  rw [g.reader_eq_bind, ← placement.readers, Option.bind_map, Function.id_comp]

/-- The block is handed its own buffers. -/
theorem Placement.buffer {answers : Answers} {g : Group} {p : Nat} {wio : Block}
    (placement : Placement answers g p wio) (i : Nat) :
    wio.outputs[i]?.bind BlockWorkOutput.bufp = g.outputBuffer p i := by
  rw [g.outputBuffer_eq_bind, ← placement.buffers, Option.bind_map, Function.id_comp]

/-- The first input port during the do_work loop. -/
private theorem nItems_firstInput {answers : Answers} {g ready : Group} {first b : Block}
    {p : Nat} {w : BlockWorkInput} (same : g.SameTotals ready)
    (atStart : g.blocks.head? = some first) (head : ready.blocks.head? = some b)
    (inputs : b.inputs = first.inputs.map (negotiateInput g))
    (found : firstInput (if p = 0 then ready.blocks else answers.served [] ready.blocks) = .ok w) :
    w.nItems = answers.handedInput g p := by
  have hier : b.isHier = first.isHier := by
    have both := same.bare_eq 0
    rw [← List.head?_eq_getElem?, ← List.head?_eq_getElem?, atStart, head] at both
    exact congrArg (fun found => found.elim false Block.isHier) both
  -- The port as the check leaves it.
  have port (stands : b.inputs.head? = some w) :
      w.nItems = first.inputs.head?.elim 0 g.offeredInput := by
    rw [inputs, List.head?_map] at stands
    obtain ⟨w0, start, rfl⟩ := Option.map_eq_some_iff.mp stands
    rw [start, Option.elim_some, nItems_negotiateInput]
  unfold Answers.handedInput
  rw [atStart, Option.elim_some]
  by_cases start : p = 0
  · rw [if_pos (Or.inl start)]
    rw [if_pos start, firstInput_eq_ok, head, Option.bind_some] at found
    exact port found
  · have served : (answers.served [] ready.blocks).head? =
        some (answers.serve g.blocks.length 0 b) := by
      rw [answers.served_nil_left, List.head?_mapIdx, head, same.length_eq, Option.map_some]
    rw [if_neg start, firstInput_eq_ok, served, Option.bind_some] at found
    by_cases passed : first.isHier = true
    · rw [if_pos (Or.inr passed)]
      rw [answers.serve_of_hier _ _ b (hier.trans passed)] at found
      exact port found
    · rw [if_neg (by simp only [start, passed, or_self, not_false_eq_true, Bool.false_eq_true])]
      cases last : answers.final g.blocks.length 0 with
      | none =>
          rcases answers.serve_cases g.blocks.length 0 b with kept | ⟨r, left, _⟩
          · rw [kept] at found
            exact port found
          · rw [last] at left
            cases left
      | some r =>
          rw [answers.serve_of_final _ _ b (by rw [hier]; simpa using passed) last,
            List.head?_eq_getElem?, Block.inputs_report_getElem?] at found
          obtain ⟨w0, _, rfl⟩ := Option.map_eq_some_iff.mp found
          rfl

/-- **What a block is handed.** -/
theorem placed_iteration {answers : Answers} {g : Group} {p : Nat} {wio : Block}
    (made : .placed p wio ∈ eventsOf (runOneIteration answers g)) : Placement answers g p wio := by
  obtain ⟨ready, checks, inside⟩ := work_inside rfl made
  obtain ⟨same, counts⟩ := negotiate_cases checks
  obtain ⟨first, last, b, e, atStart, atEnd, head, inputs, tail, outputs⟩ := counts rfl
  rcases placed_workLoop inside with absurd | ⟨i, here, inItems, outItems, present, position, part,
    rfl, input, output⟩
  · exact (List.not_mem_nil absurd).elim
  · rw [List.length_nil, Nat.zero_add] at position
    subst position
    have readers (i : Nat) : (here.place inItems outItems).inputs[i]?.map BlockWorkInput.bufp =
        (g.input p i).map BlockWorkInput.bufp := by
      rw [← same.input_bufp, Group.input, Block.place, present, Option.bind_some,
        List.getElem?_map, Option.map_map]
      rfl
    have buffers (i : Nat) : (here.place inItems outItems).outputs[i]?.map
        BlockWorkOutput.bufp = (g.output p i).map BlockWorkOutput.bufp := by
      rw [← same.output_bufp, Group.output, Block.place, present, Option.bind_some,
        List.getElem?_map, Option.map_map]
      rfl
    obtain ⟨b0, present0, bare⟩ := same.symm.block present
    refine ⟨passes_eq_true.mpr ⟨ready, checks⟩, ⟨b0, present0, ?_⟩, readers, ?_, buffers, ?_⟩
    · rw [← Block.bare_isHier, bare, Block.bare_isHier, part]
    · intro w member
      obtain ⟨w0, listed, rfl⟩ := List.mem_map.mp member
      obtain ⟨port, count, found⟩ := input (List.ne_nil_of_mem listed)
      rw [← nItems_firstInput same atStart head inputs found, count]
    · intro w member
      obtain ⟨w0, listed, rfl⟩ := List.mem_map.mp member
      obtain ⟨port, count, found⟩ := output (List.ne_nil_of_mem listed)
      rw [lastOutput_eq_ok, tail, Option.bind_some, outputs, List.head?_map] at found
      obtain ⟨port0, stands, rfl⟩ := Option.map_eq_some_iff.mp found
      unfold Group.handedOutput
      rw [atEnd, Option.elim_some, stands, Option.elim_some, ← nItems_negotiateOutput, count]

/-- An iteration records only reports that the blocks made. -/
theorem doWork_iteration {answers : Answers} {g : Group} {p : Nat} {r : WorkReport}
    (made : .doWork p r ∈ eventsOf (runOneIteration answers g)) : r ∈ answers.reports p := by
  obtain ⟨ready, _, inside⟩ := work_inside rfl made
  rcases doWork_workLoop inside with absurd | listed
  · exact (List.not_mem_nil absurd).elim
  · exact listed

end GraphExecutor

end TorchDsp
