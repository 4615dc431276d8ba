import TorchDsp.Foundation.Run
import TorchDsp.Executor.Placement

/-! # Runs of a group

A group moves by iterations of its executor and by what happens outside: other
blocks publish into the buffers it reads and release items of the buffers it
writes.
-/

namespace TorchDsp

inductive Move
  | iterate (answers : Answers)
  | neighbours

/-- What other schedulers may do to the buffers of a group. -/
structure Neighbours (g g' : Group) : Prop where
  blocks : g'.blocks = g.blocks
  own : ∀ k ∈ GraphExecutor.outputBuffers g.blocks,
    (g'.buffers k).totalWritten = (g.buffers k).totalWritten
  grown : ∀ k, (g.buffers k).totalWritten ≤ (g'.buffers k).totalWritten
  limits : ∀ k, (g'.buffers k).bufSize = (g.buffers k).bufSize ∧
    (g'.buffers k).maxBufferFill = (g.buffers k).maxBufferFill ∧
    (g'.buffers k).minBufferFill = (g.buffers k).minBufferFill
  outside : ∀ k, List.Forall₂ (· ≤ ·) (g.buffers k).outsideReads (g'.buffers k).outsideReads

/-- One move of a group. -/
inductive Group.Step : Group → Move → Group → Prop
  | iterate {g : Group} (answers : Answers) {iteration : Iteration}
      (returns : GraphExecutor.runOneIteration answers g = .ok iteration) :
      Group.Step g (.iterate answers) iteration.group
  | neighbours {g g' : Group} (moved : Neighbours g g') : Group.Step g .neighbours g'

/-- The ports of hierarchical blocks, which never run, have not moved. -/
def Group.Idle (g : Group) : Prop :=
  ∀ b ∈ g.blocks, b.isHier = true →
    (∀ w ∈ b.inputs, w.nConsumed = 0) ∧ ∀ w ∈ b.outputs, w.nProduced = 0

namespace GraphExecutor

/-- Every call of `do_work` consumes at most the counts its block was handed. -/
def ReadsWithin (answers : Answers) (g : Group) : Prop :=
  ∀ p wio r, .placed p wio ∈ eventsOf (runOneIteration answers g) →
    .doWork p r ∈ eventsOf (runOneIteration answers g) →
      ∀ i w, wio.inputs[i]? = some w → r.consumed i ≤ w.nItems

/-- Every call of `do_work` produces at most the counts its block was handed. -/
def WritesWithin (answers : Answers) (g : Group) : Prop :=
  ∀ p wio r, .placed p wio ∈ eventsOf (runOneIteration answers g) →
    .doWork p r ∈ eventsOf (runOneIteration answers g) →
      ∀ i w, wio.outputs[i]? = some w → r.produced i ≤ w.nItems

/-- Reports below the counts on offer keep within what is handed. -/
theorem readsWithin_of_reports {answers : Answers} {g : Group}
    (below : ∀ p, ∀ r ∈ answers.reports p, ∀ i, r.consumed i ≤ answers.handedInput g p) :
    ReadsWithin answers g := by
  intro p wio r placed made i w listed
  rw [(placed_iteration placed).inputs w (List.mem_of_getElem? listed)]
  exact below p r (doWork_iteration made) i

/-- Reports below the count on offer keep the writes within it. -/
theorem writesWithin_of_reports {answers : Answers} {g : Group}
    (below : ∀ p, ∀ r ∈ answers.reports p, ∀ i, r.produced i ≤ g.handedOutput) :
    WritesWithin answers g := by
  intro p wio r placed made i w listed
  rw [(placed_iteration placed).outputs w (List.mem_of_getElem? listed)]
  exact below p r (doWork_iteration made) i

/-! ## Single iterations -/

/-- In an iteration that runs its blocks, every block that takes part is handed
its counts and left with its final report. -/
theorem calls_of_passes {answers : Answers} {g : Group} {iteration : Iteration}
    (returns : runOneIteration answers g = .ok iteration) (reaches : passes answers g = true)
    {p : Nat} {b : Block} (present : g.blocks[p]? = some b) (part : b.isHier = false) :
    ∃ r wio, answers.final g.blocks.length p = some r ∧
      .placed p wio ∈ eventsOf (runOneIteration answers g) ∧
      .doWork p r ∈ eventsOf (runOneIteration answers g) ∧
      (p + 1 = g.blocks.length → b.isAsyncBlock = true ∧
        (r.ret = .ok ∨ r.ret = .done → r.calledBack = true)) := by
  obtain ⟨ready, checks⟩ := passes_eq_true.mp reaches
  rw [returns]
  cases course returns with
  | inputsBlocked blocked => rw [checks] at blocked; cases blocked
  | outputsBlocked events blocked => rw [checks] at blocked; cases blocked
  | worked g' events checks runs atStart atEnd kept =>
      have same := (negotiate_cases checks).1
      obtain ⟨b', present', bare⟩ := same.block present
      have part' : b'.isHier = false := by rw [← Block.bare_isHier, bare, Block.bare_isHier, part]
      obtain ⟨r, inItems, outItems, last, placed, made, called⟩ :=
        workLoop_calls runs present' part'
      rw [List.length_nil, Nat.zero_add, Nat.zero_add, same.length_eq] at last
      rw [List.length_nil, Nat.zero_add] at placed made
      rw [same.length_eq, ← b'.bare_isAsyncBlock, bare, b.bare_isAsyncBlock] at called
      exact ⟨r, _, last, kept _ placed, kept _ made, called⟩

/-- What a port releases is bounded by the count its block was handed. -/
theorem consumed_le_handed {answers : Answers} {g : Group} {iteration : Iteration}
    (returns : runOneIteration answers g = .ok iteration) (reaches : passes answers g = true)
    (idle : g.Idle) (reads : ReadsWithin answers g) {p i : Nat} {r : BufferReader}
    (attached : g.reader p i = some r) :
    answers.consumed g (p, i) = 0 ∨
      (∃ b, g.blocks[p]? = some b ∧ b.isHier = false) ∧
        answers.consumed g (p, i) ≤ answers.handedInput g p := by
  obtain ⟨w, port, buffered⟩ := Option.bind_eq_some_iff.mp attached
  obtain ⟨b, present, here⟩ := Option.bind_eq_some_iff.mp port
  cases part : b.isHier with
  | true =>
      left
      unfold Answers.consumed Answers.servedInput
      rw [present, Option.bind_some, answers.serve_of_hier _ _ b part, here, Option.elim_some,
        (idle b (List.mem_of_getElem? present) part).1 w (List.mem_of_getElem? here), ite_self]
  | false =>
      obtain ⟨report, wio, last, placed, made, _⟩ := calls_of_passes returns reaches present part
      have placement := placed_iteration placed
      have slot := placement.reader i
      rw [attached] at slot
      obtain ⟨handed, listed, _⟩ := Option.bind_eq_some_iff.mp slot
      refine Or.inr ⟨⟨b, present, part⟩, ?_⟩
      rw [answers.consumed_of_final g present here (by rw [buffered]; rfl) part last,
        ← placement.inputs handed (List.mem_of_getElem? listed)]
      exact reads p wio report placed made i handed listed

/-- What is published is bounded by the count handed to the last block. -/
theorem lastProduced_le_handed {answers : Answers} {g : Group} {iteration : Iteration}
    (returns : runOneIteration answers g = .ok iteration) (reaches : passes answers g = true)
    (idle : g.Idle) (writes : WritesWithin answers g) :
    answers.lastProduced g ≤ g.handedOutput := by
  unfold Answers.lastProduced
  cases atEnd : g.blocks.getLast? with
  | none => exact Nat.zero_le _
  | some last =>
      rw [Option.bind_some]
      have present : g.blocks[g.blocks.length - 1]? = some last := by
        rw [← List.getLast?_eq_getElem?, atEnd]
      cases part : last.isHier with
      | true =>
          rw [answers.serve_of_hier _ _ last part]
          cases port : last.outputs.head? with
          | none => exact Nat.zero_le _
          | some w =>
              rw [Option.elim_some, (idle last (List.mem_of_getElem? present) part).2 w
                (List.mem_of_mem_head? port)]
              exact Nat.zero_le _
      | false =>
          obtain ⟨report, wio, final, placed, made, _⟩ :=
            calls_of_passes returns reaches present part
          rw [answers.serve_of_final _ _ last part final, List.head?_eq_getElem?,
            Block.outputs_report_getElem?]
          cases port : last.outputs[0]? with
          | none => exact Nat.zero_le _
          | some w =>
              have placement := placed_iteration placed
              have slot := placement.buffers 0
              rw [Group.output, present, Option.bind_some, port, Option.map_some] at slot
              obtain ⟨handed, listed, _⟩ := Option.map_eq_some_iff.mp slot
              rw [Option.map_some, Option.elim_some,
                ← placement.outputs handed (List.mem_of_getElem? listed)]
              exact writes _ wio report placed made 0 handed listed

end GraphExecutor

/-! ## What every move keeps -/

namespace Group

/-- A block has not moved whatever it is offered. -/
theorem Idle.of_bare {b b' : Block} (bare : b'.bare = b.bare)
    (still : (∀ w ∈ b.inputs, w.nConsumed = 0) ∧ ∀ w ∈ b.outputs, w.nProduced = 0) :
    (∀ w ∈ b'.inputs, w.nConsumed = 0) ∧ ∀ w ∈ b'.outputs, w.nProduced = 0 := by
  have inputs : b'.inputs.map BlockWorkInput.nConsumed = b.inputs.map BlockWorkInput.nConsumed := by
    rw [← b'.bare_nConsumed, bare, b.bare_nConsumed]
  have outputs : b'.outputs.map BlockWorkOutput.nProduced =
      b.outputs.map BlockWorkOutput.nProduced := by
    rw [← b'.bare_nProduced, bare, b.bare_nProduced]
  constructor
  · intro w member
    have listed := List.mem_map_of_mem (f := BlockWorkInput.nConsumed) member
    rw [inputs] at listed
    obtain ⟨w0, inside, same⟩ := List.mem_map.mp listed
    rw [← same, still.1 w0 inside]
  · intro w member
    have listed := List.mem_map_of_mem (f := BlockWorkOutput.nProduced) member
    rw [outputs] at listed
    obtain ⟨w0, inside, same⟩ := List.mem_map.mp listed
    rw [← same, still.2 w0 inside]

/-- The checks leave the ports of hierarchical blocks alone. -/
theorem SameTotals.idle {g g' : Group} (same : g.SameTotals g') (idle : g.Idle) : g'.Idle := by
  intro b' member hier
  obtain ⟨p, present⟩ := List.mem_iff_getElem?.mp member
  obtain ⟨b, present0, bare⟩ := same.symm.block present
  apply Idle.of_bare bare.symm
  apply idle b (List.mem_of_getElem? present0)
  rw [← Block.bare_isHier, bare, Block.bare_isHier, hier]

variable {g g' : Group} {move : Move}

/-- A hierarchical block stays as it is. -/
theorem Step.idle (step : g.Step move g') (idle : g.Idle) : g'.Idle := by
  cases step with
  | neighbours moved =>
      intro b member
      rw [moved.blocks] at member
      exact idle b member
  | iterate answers returns =>
      cases GraphExecutor.course returns with
      | inputsBlocked checks => exact (GraphExecutor.negotiate_cases checks).1.idle idle
      | outputsBlocked events checks => exact (GraphExecutor.negotiate_cases checks).1.idle idle
      | worked ready events checks runs atStart atEnd kept =>
          have before := (GraphExecutor.negotiate_cases checks).1.idle idle
          intro b' member hier
          obtain ⟨served, inside, rfl⟩ := List.mem_map.mp member
          rw [GraphExecutor.workLoop_blocks runs, answers.served_nil_left] at inside
          obtain ⟨p, bound, rfl⟩ := List.mem_mapIdx.mp inside
          have part : ready.blocks[p].isHier = true := by
            rw [← answers.isHier_serve ready.blocks.length p]
            exact hier
          rw [answers.serve_of_hier _ _ _ part]
          obtain ⟨inputs, outputs⟩ := before _ (List.getElem_mem bound) part
          refine ⟨fun w listed => ?_, outputs⟩
          obtain ⟨w0, port, rfl⟩ := List.mem_map.mp listed
          exact inputs w0 port

/-- Every port keeps its reader. -/
theorem Step.wiring (step : g.Step move g') : GraphExecutor.SameWiring g g' := by
  cases step with
  | iterate answers returns => exact GraphExecutor.wiring_iteration returns
  | neighbours moved =>
      intro p i
      rw [reader, reader, input, input, moved.blocks]

/-- Every block keeps its shape. -/
theorem Step.shape (step : g.Step move g') :
    g'.blocks.map Block.shape = g.blocks.map Block.shape := by
  cases step with
  | iterate answers returns => exact GraphExecutor.shape_iteration returns
  | neighbours moved => rw [moved.blocks]

/-- Every block after a step was there before it. -/
theorem Step.block (step : g.Step move g') {p : Nat} {b' : Block}
    (present : g'.blocks[p]? = some b') :
    ∃ b, g.blocks[p]? = some b ∧ b.isHier = b'.isHier ∧ b.writes = b'.writes := by
  have both : (g.blocks.map Block.shape)[p]? = some b'.shape := by
    rw [← step.shape, List.getElem?_map, present, Option.map_some]
  rw [List.getElem?_map] at both
  obtain ⟨b, here, same⟩ := Option.map_eq_some_iff.mp both
  exact ⟨b, here, congrArg Prod.fst same, congrArg Prod.snd same⟩

/-- A step keeps the number of blocks. -/
theorem Step.length_eq (step : g.Step move g') : g'.blocks.length = g.blocks.length := by
  have lengths := congrArg List.length step.shape
  rwa [List.length_map, List.length_map] at lengths

/-- A step moves readers on, but not to other buffers. -/
theorem Step.reader (step : g.Step move g') {p i : Nat} {r : BufferReader}
    (attached : g.reader p i = some r) :
    ∃ r', g'.reader p i = some r' ∧ r'.source = r.source := by
  have both := step.wiring p i
  rw [attached, Option.map_some] at both
  obtain ⟨r', attached', same⟩ := Option.map_eq_some_iff.mp both
  exact ⟨r', attached', (BufferReader.mk.inj same).1⟩

/-- After a step every port reads the buffer it read before. -/
theorem Step.sourceOf (step : g.Step move g') : g'.sourceOf = g.sourceOf := by
  funext port
  have source (g : Group) : g.sourceOf port =
      ((g.reader port.1 port.2).map fun r => { r with totalRead := 0 }).elim 0
        BufferReader.source := by
    unfold Group.sourceOf
    cases g.reader port.1 port.2 <;> rfl
  rw [source, source, step.wiring]

end Group

/-- The group alone moves its readers. -/
theorem Neighbours.released {g g' : Group} (moved : Neighbours g g') :
    g'.ledger.released = g.ledger.released := by
  simp only [Group.ledger, Group.reader, Group.input, moved.blocks]

/-! ## Small groups -/

/-- A block that reads two buffers with the given items and writes a third one. -/
def twoInputs (first second : Nat) : Group where
  blocks := [{ kind := .triton true
               inputs := [{ bufp := some ⟨0, 0, 0, 0⟩ }, { bufp := some ⟨1, 0, 0, 0⟩ }]
               outputs := [{ bufp := some 2 }] }]
  buffers := fun k =>
    { bufSize := 16, totalWritten := if k = 0 then first else if k = 1 then second else 0 }

/-- Every call of `do_work` moves `n` items at every port. -/
def moving (n : Nat) : Answers where
  reports := fun _ => [⟨.ok, fun _ => n, fun _ => n, fun _ => n, fun _ => n, true⟩]

/-- Moving no more than the inputs are handed stays within them. -/
theorem readsWithin_moving {n : Nat} {g : Group} (below : ∀ p, n ≤ (moving n).handedInput g p) :
    GraphExecutor.ReadsWithin (moving n) g := by
  apply GraphExecutor.readsWithin_of_reports
  intro p r listed i
  cases List.mem_singleton.mp listed
  exact below p

/-- Moving no more than the outputs are handed stays within them. -/
theorem writesWithin_moving {n : Nat} {g : Group} (below : n ≤ g.handedOutput) :
    GraphExecutor.WritesWithin (moving n) g := by
  apply GraphExecutor.writesWithin_of_reports
  intro p r listed i
  cases List.mem_singleton.mp listed
  exact below

/-- A chain of two blocks: items of buffer 0 go through buffer 1, which has room
for `inner` items, to buffer 2. -/
def twoBlocks (items inner : Nat) : Group where
  blocks := [{ kind := .triton true, inputs := [{ bufp := some ⟨0, 0, 0, 0⟩ }]
               outputs := [{ bufp := some 1 }] },
             { kind := .triton true, inputs := [{ bufp := some ⟨1, 0, 0, 0⟩ }]
               outputs := [{ bufp := some 2 }] }]
  buffers := fun k => { bufSize := if k = 1 then inner else 16
                        totalWritten := if k = 0 then items else 0 }

/-- A group without hierarchical blocks has none that could have moved. -/
theorem idle_of_plain {g : Group} (plain : ∀ b ∈ g.blocks, b.isHier = false) : g.Idle := by
  intro b member hier
  rw [plain b member] at hier
  cases hier

end TorchDsp
