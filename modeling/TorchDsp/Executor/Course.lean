import TorchDsp.Executor.WorkLoop

/-! # The courses an iteration can take

An iteration that returns has stopped at one of its two check loops, or has run
all blocks and committed (`TorchDsp.GraphExecutor.course`). The checks change
nothing but the counts on offer.
-/

namespace TorchDsp

/-- What no iteration changes about a block: whether it takes part, and the
buffers it writes. -/
def Block.shape (b : Block) : Bool × List Nat :=
  (b.isHier, b.writes)

/-- A block without the counts on offer at its ports. -/
def Block.bare (b : Block) : Block :=
  { b with
    inputs := b.inputs.map fun w => { w with nItems := 0 }
    outputs := b.outputs.map fun w => { w with nItems := 0 } }

namespace Block

/-- The counts on offer do not decide whether a block is asynchronous. -/
theorem bare_isAsyncBlock (b : Block) : b.bare.isAsyncBlock = b.isAsyncBlock := rfl

/-- A block keeps its inputs when the counts on offer are left out. -/
theorem bare_length_inputs (b : Block) : b.bare.inputs.length = b.inputs.length :=
  List.length_map _

/-- The counts on offer do not decide whether a block takes part. -/
@[simp] theorem bare_isHier (b : Block) : b.bare.isHier = b.isHier := rfl

/-- Each input keeps all but its count. -/
theorem bare_inputs_getElem? (b : Block) (i : Nat) :
    b.bare.inputs[i]? = b.inputs[i]?.map fun w => { w with nItems := 0 } :=
  List.getElem?_map

/-- Each output keeps all but its count. -/
theorem bare_outputs_getElem? (b : Block) (i : Nat) :
    b.bare.outputs[i]? = b.outputs[i]?.map fun w => { w with nItems := 0 } :=
  List.getElem?_map

/-- What a block has consumed is not a count on offer. -/
theorem bare_nConsumed (b : Block) :
    b.bare.inputs.map BlockWorkInput.nConsumed = b.inputs.map BlockWorkInput.nConsumed :=
  List.map_map

/-- What a block has produced is not a count on offer. -/
theorem bare_nProduced (b : Block) :
    b.bare.outputs.map BlockWorkOutput.nProduced = b.outputs.map BlockWorkOutput.nProduced :=
  List.map_map

/-- A block keeps its outputs when the counts on offer are left out. -/
theorem bare_length_outputs (b : Block) : b.bare.outputs.length = b.outputs.length :=
  List.length_map _

/-- After a report the counts on offer are those of the report, whatever they were. -/
theorem bare_report (b : Block) (r : WorkReport) : (b.report r).bare = (b.bare.report r).bare := by
  unfold Block.bare Block.report
  simp only [List.mapIdx_eq_zipIdx_map, List.zipIdx_map, List.map_map]
  rfl

/-- A block writes the same buffers, whatever it is offered. -/
@[simp] theorem bare_writes (b : Block) : b.bare.writes = b.writes := by
  unfold Block.bare writes
  rw [List.filterMap_map]
  rfl

/-- The shape of a block does not depend on the counts on offer. -/
@[simp] theorem bare_shape (b : Block) : b.bare.shape = b.shape := by
  rw [shape, bare_isHier, bare_writes, shape]

end Block

namespace Group

/-- Groups that differ only in the counts on offer. -/
structure SameTotals (g g' : Group) : Prop where
  blocks : g'.blocks.map Block.bare = g.blocks.map Block.bare
  buffers : g'.buffers = g.buffers

variable {g g' : Group}

/-- Either group may be read as the one with the other counts. -/
theorem SameTotals.symm (same : SameTotals g g') : SameTotals g' g :=
  ⟨same.blocks.symm, same.buffers.symm⟩

/-- Counts may change more than once. -/
theorem SameTotals.trans {g'' : Group} (same : SameTotals g g') (next : SameTotals g' g'') :
    SameTotals g g'' :=
  ⟨next.blocks.trans same.blocks, next.buffers.trans same.buffers⟩

/-- Changing one block's counts on offer keeps all totals. -/
theorem sameTotals_modify {p : Nat} {b : Block} {change : Block → Block}
    (present : g.blocks[p]? = some b) (kept : (change b).bare = b.bare) :
    SameTotals g { g with blocks := g.blocks.modify p change } := by
  refine ⟨?_, rfl⟩
  apply List.ext_getElem?
  intro q
  rw [List.getElem?_map, List.getElem?_map]
  by_cases same : p = q
  · subst same
    rw [List.getElem?_modify_eq, present]
    exact congrArg some kept
  · rw [List.getElem?_modify_ne _ _ same]

/-- Both groups have as many blocks. -/
theorem SameTotals.length_eq (same : SameTotals g g') : g'.blocks.length = g.blocks.length := by
  have lengths := congrArg List.length same.blocks
  rwa [List.length_map, List.length_map] at lengths

/-- Two blocks at one position differ in the counts on offer alone. -/
theorem SameTotals.bare_eq (same : SameTotals g g') (p : Nat) :
    g'.blocks[p]?.map Block.bare = g.blocks[p]?.map Block.bare := by
  rw [← List.getElem?_map, ← List.getElem?_map, same.blocks]

/-- To every block of one group there is the block of the other. -/
theorem SameTotals.block (same : SameTotals g g') {p : Nat} {b : Block}
    (present : g.blocks[p]? = some b) : ∃ b', g'.blocks[p]? = some b' ∧ b'.bare = b.bare := by
  have both := same.bare_eq p
  rw [present, Option.map_some] at both
  obtain ⟨b', here, bare⟩ := Option.map_eq_some_iff.mp both
  exact ⟨b', here, bare⟩

/-- An input port has the same reader in both. -/
theorem SameTotals.input_bufp (same : SameTotals g g') (p i : Nat) :
    (g'.input p i).map BlockWorkInput.bufp = (g.input p i).map BlockWorkInput.bufp := by
  have forget (g : Group) : (g.input p i).map BlockWorkInput.bufp =
      (g.blocks[p]?.map Block.bare).bind fun b => b.inputs[i]?.map BlockWorkInput.bufp := by
    unfold input
    rw [Option.bind_map, Option.map_bind]
    congr 1
    funext b
    rw [Function.comp_apply, Function.comp_apply, Block.bare_inputs_getElem?, Option.map_map]
    rfl
  rw [forget, forget, same.bare_eq]

/-- An output port has the same buffer in both. -/
theorem SameTotals.output_bufp (same : SameTotals g g') (p i : Nat) :
    (g'.output p i).map BlockWorkOutput.bufp = (g.output p i).map BlockWorkOutput.bufp := by
  have forget (g : Group) : (g.output p i).map BlockWorkOutput.bufp =
      (g.blocks[p]?.map Block.bare).bind fun b => b.outputs[i]?.map BlockWorkOutput.bufp := by
    unfold output
    rw [Option.bind_map, Option.map_bind]
    congr 1
    funext b
    rw [Function.comp_apply, Function.comp_apply, Block.bare_outputs_getElem?, Option.map_map]
    rfl
  rw [forget, forget, same.bare_eq]

/-- The readers stand where they stood. -/
theorem SameTotals.reader_eq (same : SameTotals g g') (p i : Nat) :
    g'.reader p i = g.reader p i := by
  rw [reader_eq_bind, reader_eq_bind, same.input_bufp]

/-- The counts on offer take no room in a buffer. -/
theorem SameTotals.spaceAvailable_eq (same : SameTotals g g') (k : Nat) :
    g'.spaceAvailable k = g.spaceAvailable k := by
  have forget (g : Group) : (g.blocks.flatMap Block.inputs).filterMap (fun w =>
      w.bufp.bind fun r => if r.source = k then some r.totalRead else none) =
      ((g.blocks.map Block.bare).flatMap Block.inputs).filterMap fun w =>
        w.bufp.bind fun r => if r.source = k then some r.totalRead else none := by
    induction g.blocks with
    | nil => rfl
    | cons b rest ih =>
        rw [List.map_cons, List.flatMap_cons, List.flatMap_cons, List.filterMap_append,
          List.filterMap_append, ih]
        congr 1
        unfold Block.bare
        rw [List.filterMap_map]
        rfl
  unfold spaceAvailable readsOf
  rw [forget g, forget g', same.blocks, same.buffers]

/-- Both groups have the same shapes. -/
theorem SameTotals.shape_eq (same : SameTotals g g') :
    g'.blocks.map Block.shape = g.blocks.map Block.shape := by
  have shapes := congrArg (List.map Block.shape) same.blocks
  rw [List.map_map, List.map_map] at shapes
  have each : Block.shape ∘ Block.bare = Block.shape := funext Block.bare_shape
  rwa [each] at shapes

end Group

namespace GraphExecutor

/-! ## The checks -/

private theorem negotiateOutput_eq_of_sameTotals {g g' : Group} (same : g.SameTotals g')
    (multiple : Option Nat) : negotiateOutput g' multiple = negotiateOutput g multiple := by
  funext w
  unfold negotiateOutput outputCount outputRoom
  simp only [same.spaceAvailable_eq, same.buffers]

private theorem bare_of_keeps {ws checked : List BlockWorkInput}
    (keeps : checked.map (fun w => (w.bufp, w.nConsumed)) = ws.map fun w => (w.bufp, w.nConsumed)) :
    checked.map (fun w => { w with nItems := 0 }) = ws.map fun w => { w with nItems := 0 } := by
  have rebuilt := congrArg (List.map fun part : Option BufferReader × Nat =>
    (⟨part.1, 0, part.2⟩ : BlockWorkInput)) keeps
  rwa [List.map_map, List.map_map] at rebuilt

private theorem bare_of_output_keeps {ws checked : List BlockWorkOutput}
    (keeps : checked.map (fun w => (w.bufp, w.nProduced)) = ws.map fun w => (w.bufp, w.nProduced)) :
    checked.map (fun w => { w with nItems := 0 }) = ws.map fun w => { w with nItems := 0 } := by
  have rebuilt := congrArg (List.map fun part : Option Nat × Nat =>
    (⟨part.1, 0, part.2⟩ : BlockWorkOutput)) keeps
  rwa [List.map_map, List.map_map] at rebuilt

/-- What the input check can do. -/
theorem checkFirst_eq_ok {answers : Answers} {g g' : Group} {ready : Bool}
    (checks : checkFirst answers g = .ok (g', ready)) :
    g.SameTotals g' ∧ (∃ first b, g.blocks.head? = some first ∧ g'.blocks.head? = some b ∧
        (ready = true → b.inputs = first.inputs.map (negotiateInput g))) ∧
      ∃ last b, g.blocks.getLast? = some last ∧ g'.blocks.getLast? = some b ∧
        b.outputs = last.outputs ∧ b.outputMultiple = last.outputMultiple := by
  unfold checkFirst at checks
  cases shape : g.blocks with
  | nil => simp only [shape] at checks; cases checks
  | cons first rest =>
      simp only [shape] at checks
      cases checks
      refine ⟨⟨?_, rfl⟩, ⟨first, _, rfl, rfl, fun passes => ?_⟩, ?_⟩
      · rw [shape, List.map_cons, List.map_cons]
        congr 1
        unfold Block.bare
        rw [bare_of_keeps (checkInputs_keeps g answers.readInfo 0 first.inputs)]
      · exact checkInputs_ready g answers.readInfo 0 first.inputs passes
      · cases rest with
        | nil => exact ⟨first, _, rfl, rfl, rfl, rfl⟩
        | cons next others =>
            have atEnd := List.getLast?_eq_getLast_of_ne_nil (List.cons_ne_nil next others)
            exact ⟨_, _, by rw [List.getLast?_cons_cons, atEnd],
              by rw [List.getLast?_cons_cons, atEnd], rfl, rfl⟩

/-- What the output check can do. -/
theorem checkLast_eq_ok {answers : Answers} {g g' : Group} {ready : Bool}
    (checks : checkLast answers g = .ok (g', ready)) :
    g.SameTotals g' ∧ (∀ first, g.blocks.head? = some first →
        ∃ b, g'.blocks.head? = some b ∧ b.inputs = first.inputs) ∧
      ∃ last b, g.blocks.getLast? = some last ∧ g'.blocks.getLast? = some b ∧
        (ready = true → b.outputs = last.outputs.map (negotiateOutput g last.outputMultiple)) := by
  unfold checkLast at checks
  cases atEnd : g.blocks.getLast? with
  | none => simp only [atEnd] at checks; cases checks
  | some last =>
      simp only [atEnd] at checks
      obtain ⟨outputs, loop, stored⟩ := Except.bind_eq_ok checks
      have present : g.blocks[g.blocks.length - 1]? = some last := by
        rw [← List.getLast?_eq_getElem?, atEnd]
      have kept : ({ last with outputs := outputs.1 } : Block).bare = last.bare := by
        unfold Block.bare
        rw [bare_of_output_keeps (checkOutputs_keeps loop)]
      cases stored
      refine ⟨Group.sameTotals_modify present kept, fun first atStart => ?_, last,
        { last with outputs := outputs.1 }, rfl, ?_, fun passes => ?_⟩
      · rw [List.head?_eq_getElem?] at atStart ⊢
        rw [List.getElem?_modify, atStart]
        split
        · exact ⟨_, rfl, rfl⟩
        · exact ⟨_, rfl, rfl⟩
      · rw [List.getLast?_eq_getElem?, List.length_modify, List.getElem?_modify_eq, present]
        rfl
      · obtain ⟨checked, answer⟩ := outputs
        cases answer with
        | false => cases passes
        | true => exact checkOutputs_ready loop

/-- What the two checks can do. When both pass, the ports of the first block
carry their negotiated input counts and those of the last block their negotiated
output counts. -/
theorem negotiate_cases {answers : Answers} {g g' : Group} {readiness : Readiness}
    (checks : negotiate answers g = .ok (g', readiness)) :
    g.SameTotals g' ∧ (readiness = .ready → ∃ first last b e,
      g.blocks.head? = some first ∧ g.blocks.getLast? = some last ∧
      g'.blocks.head? = some b ∧ b.inputs = first.inputs.map (negotiateInput g) ∧
      g'.blocks.getLast? = some e ∧
      e.outputs = last.outputs.map (negotiateOutput g last.outputMultiple)) := by
  unfold negotiate at checks
  obtain ⟨⟨middle, ready⟩, input, checks⟩ := Except.bind_eq_ok checks
  obtain ⟨afterInputs, ⟨first, b, atStart, head, inputs⟩, last, e, atEnd, tail, same, multiple⟩ :=
    checkFirst_eq_ok input
  cases ready with
  | false =>
      cases checks
      exact ⟨afterInputs, fun absurd => by cases absurd⟩
  | true =>
      obtain ⟨⟨final, ready⟩, output, checks⟩ := Except.bind_eq_ok checks
      obtain ⟨afterOutputs, keepsHead, last', e', atEnd', tail', outputs⟩ := checkLast_eq_ok output
      cases checks
      refine ⟨afterInputs.trans afterOutputs, fun passes => ?_⟩
      cases ready with
      | false => cases passes
      | true =>
          obtain ⟨b', head', sameInputs⟩ := keepsHead b head
          rw [tail] at atEnd'
          cases atEnd'
          refine ⟨first, last, b', e', atStart, atEnd, head', ?_, tail', ?_⟩
          · rw [sameInputs, inputs rfl]
          · rw [outputs rfl, same, multiple, negotiateOutput_eq_of_sameTotals afterInputs]

/-! ## The commit phase -/

/-- The buffers that a chain writes are told by the shapes of its blocks. -/
theorem outputBuffers_of_shape {blocks others : List Block}
    (same : blocks.map Block.shape = others.map Block.shape) :
    outputBuffers blocks = outputBuffers others := by
  have written := congrArg (List.flatMap Prod.snd) same
  rwa [List.flatMap_map, List.flatMap_map] at written

private theorem outputBuffers_postReads (blocks : List Block) :
    outputBuffers (blocks.map postReads) = outputBuffers blocks := by
  unfold outputBuffers
  rw [List.flatMap_map]
  rfl

/-- Each posting of a buffer adds to its total. -/
theorem totalWritten_postWrites (n : Nat) (ids : List Nat) (buffers : Nat → Buffer) (k : Nat) :
    (postWrites n ids buffers k).totalWritten = (buffers k).totalWritten + n * ids.count k := by
  have repeated (times : Nat) (buffer : Buffer) :
      ((postWrite n)^[times] buffer).totalWritten = buffer.totalWritten + n * times := by
    induction times generalizing buffer with
    | zero => rfl
    | succ times ih =>
        rw [Function.iterate_succ_apply, ih, Nat.mul_succ]
        change buffer.totalWritten + n + n * times = _
        omega
  unfold postWrites
  rw [List.foldl_update_apply, repeated]

/-- Publishing nothing changes no buffer. -/
theorem postWrites_zero (ids : List Nat) (buffers : Nat → Buffer) :
    postWrites 0 ids buffers = buffers := by
  unfold postWrites
  induction ids with
  | nil => rfl
  | cons k rest ih =>
      have kept : Function.update buffers k (postWrite 0 (buffers k)) = buffers :=
        Function.update_eq_self k buffers
      rw [List.foldl_cons, kept, ih]

/-- Consuming leaves the port alone whose count is committed. -/
@[simp] theorem lastOutput_postReads (blocks : List Block) :
    lastOutput (blocks.map postReads) = lastOutput blocks := by
  unfold lastOutput
  rw [List.getLast?_map, Option.bind_map]
  rfl

/-- A commit that goes through. -/
theorem commit_eq_ok {g g' : Group} {events later : List Event}
    (commits : commit g events = .ok (g', later)) :
    ∃ w0 w, firstInput g.blocks = .ok w0 ∧ lastOutput g.blocks = .ok w ∧
      g' = { blocks := g.blocks.map postReads
             buffers := postWrites w.nProduced (outputBuffers g.blocks) g.buffers } ∧
      ∀ event ∈ events, event ∈ later := by
  unfold commit at commits
  obtain ⟨w0, atStart, commits⟩ := Except.bind_eq_ok commits
  obtain ⟨w, atEnd, commits⟩ := Except.bind_eq_ok commits
  rw [lastOutput_postReads] at atEnd
  cases commits
  refine ⟨w0, w, Except.mapError_eq_ok atStart, Except.mapError_eq_ok atEnd, ?_, fun event member =>
    List.mem_append_left _ (List.mem_append_left _ member)⟩
  rw [outputBuffers_postReads]

/-! ## The blocked callbacks -/

/-- Callbacks are only added to the events. -/
theorem unclog_events {call : Nat → Nat → Event} {answer : Nat → Nat → Bool} {neighbour : Nat}
    {action : SchedulerAction} {ports : List (Nat × Nat × Bool)} {events later : List Event}
    (calls : unclog call answer neighbour action ports events = .ok later) :
    ∀ event ∈ events, event ∈ later := by
  induction ports generalizing events with
  | nil => cases calls; exact fun event member => member
  | cons port rest ih =>
      obtain ⟨p, i, buffered⟩ := port
      cases buffered with
      | false => cases calls
      | true => exact fun event member => ih calls event (List.mem_append_left _ member)

/-- The commit phase makes no calls but notifications. -/
theorem mem_commit_events {g : Group} {events : List Event} {event : Event}
    (made : event ∈ callsOf Prod.snd (commit g events)) :
    event ∈ events ∨ ∃ p i action, event = .notify p i action := by
  have notified {p count : Nat} {action : SchedulerAction}
      (listed : event ∈ notifyPorts p count action) : ∃ p i action, event = .notify p i action := by
    obtain ⟨i, _, same⟩ := List.mem_map.mp listed
    exact ⟨p, i, action, same.symm⟩
  unfold commit at made
  rcases mem_callsOf_bind made with ⟨abort, fails, before⟩ | ⟨first, _, made⟩
  · cases outcome : firstInput g.blocks with
    | ok w => rw [outcome] at fails; cases fails
    | error cause => rw [outcome] at fails; cases fails; exact Or.inl before
  · rcases mem_callsOf_bind made with ⟨abort, fails, before⟩ | ⟨last, _, made⟩
    · cases outcome : lastOutput (g.blocks.map postReads) with
      | ok w => rw [outcome] at fails; cases fails
      | error cause =>
          rw [outcome] at fails
          cases fails
          rcases List.mem_append.mp before with earlier | listed
          · exact Or.inl earlier
          · exact Or.inr (notified listed)
    · rcases List.mem_append.mp made with before | listed
      · rcases List.mem_append.mp before with earlier | listed
        · exact Or.inl earlier
        · exact Or.inr (notified listed)
      · exact Or.inr (notified listed)

/-- The blocked callbacks make no calls but their own and notifications. -/
theorem mem_unclog_events {call : Nat → Nat → Event} {answer : Nat → Nat → Bool} {neighbour : Nat}
    {action : SchedulerAction} {ports : List (Nat × Nat × Bool)} {events : List Event}
    {event : Event} (made : event ∈ callsOf id (unclog call answer neighbour action ports events)) :
    event ∈ events ∨ ∃ p i, event = call p i ∨ event = .notify p i action := by
  induction ports generalizing events with
  | nil => exact Or.inl made
  | cons port rest ih =>
      obtain ⟨p, i, buffered⟩ := port
      cases buffered with
      | false => exact Or.inl made
      | true =>
          rcases ih made with listed | later
          · rcases List.mem_append.mp listed with earlier | new
            · exact Or.inl earlier
            · rcases List.mem_cons.mp new with same | notified
              · exact Or.inr ⟨p, i, Or.inl same⟩
              · split at notified
                · exact Or.inr ⟨p, i, Or.inr (List.mem_singleton.mp notified)⟩
                · exact (List.not_mem_nil notified).elim
          · exact Or.inr later

/-! ## The iteration -/

/-- How an iteration returns, part by part. -/
inductive Returned (answers : Answers) (g : Group) : Iteration → Prop
  | inputsBlocked {g' : Group} (checks : negotiate answers g = .ok (g', .inputsBlocked)) :
      Returned answers g ⟨.blkdIn, g', []⟩
  | outputsBlocked {g' : Group} {events : List Event}
      (checks : negotiate answers g = .ok (g', .outputsBlocked))
      (callbacks : unclogOutputs answers g'.blocks [] = .ok events) :
      Returned answers g ⟨.blkdOut, g', events⟩
  | worked {ready after : Group} {blocks : List Block} {l : Loop} {committed events : List Event}
      (checks : negotiate answers g = .ok (ready, .ready))
      (runs : workLoop answers [] ready.blocks {} = .ok (blocks, l))
      (commits : commit { ready with blocks } l.events = .ok (after, committed))
      (callbacks : (if l.unclogInputs then unclogInputs answers after.blocks committed
        else if l.unclogOutputs then unclogOutputs answers after.blocks committed
        else .ok committed) = .ok events) :
      Returned answers g ⟨l.status, after, events⟩

/-- Every iteration that returns took one of the courses. -/
theorem returned {answers : Answers} {g : Group} {iteration : Iteration}
    (returns : runOneIteration answers g = .ok iteration) : Returned answers g iteration := by
  unfold runOneIteration at returns
  obtain ⟨⟨g', readiness⟩, checks, returns⟩ := Except.bind_eq_ok returns
  have checks := Except.mapError_eq_ok checks
  cases readiness with
  | inputsBlocked => cases returns; exact .inputsBlocked checks
  | outputsBlocked =>
      obtain ⟨events, callbacks, returns⟩ := Except.bind_eq_ok returns
      cases returns
      exact .outputsBlocked checks callbacks
  | ready =>
      obtain ⟨⟨blocks, l⟩, runs, returns⟩ := Except.bind_eq_ok returns
      obtain ⟨⟨after, committed⟩, commits, returns⟩ := Except.bind_eq_ok returns
      obtain ⟨events, callbacks, returns⟩ := Except.bind_eq_ok returns
      cases returns
      exact .worked checks runs commits callbacks

/-- The ways in which an iteration returns. -/
inductive Course (answers : Answers) (g : Group) : Iteration → Prop
  | inputsBlocked {g' : Group} (checks : negotiate answers g = .ok (g', .inputsBlocked)) :
      Course answers g ⟨.blkdIn, g', []⟩
  | outputsBlocked {g' : Group} (events : List Event)
      (checks : negotiate answers g = .ok (g', .outputsBlocked)) :
      Course answers g ⟨.blkdOut, g', events⟩
  | worked (g' : Group) {blocks : List Block} {l : Loop} {w0 : BlockWorkInput}
      {w : BlockWorkOutput}
      (events : List Event) (checks : negotiate answers g = .ok (g', .ready))
      (runs : workLoop answers [] g'.blocks {} = .ok (blocks, l))
      (atStart : firstInput blocks = .ok w0) (atEnd : lastOutput blocks = .ok w)
      (kept : ∀ event ∈ l.events, event ∈ events) :
      Course answers g ⟨l.status,
        { blocks := blocks.map postReads
          buffers := postWrites w.nProduced (outputBuffers blocks) g'.buffers }, events⟩

/-- **Every iteration that returns takes one of three courses.** -/
theorem course {answers : Answers} {g : Group} {iteration : Iteration}
    (returns : runOneIteration answers g = .ok iteration) : Course answers g iteration := by
  cases returned returns with
  | inputsBlocked checks => exact .inputsBlocked checks
  | outputsBlocked checks callbacks => exact .outputsBlocked _ checks
  | @worked ready _ _ _ _ events checks runs commits callbacks =>
      obtain ⟨w0, w, atStart, atEnd, rfl, kept⟩ := commit_eq_ok commits
      refine .worked ready events checks runs atStart atEnd fun event member => ?_
      have later := kept event member
      split at callbacks
      · exact unclog_events callbacks event later
      · split at callbacks
        · exact unclog_events callbacks event later
        · cases callbacks
          exact later

end GraphExecutor

end TorchDsp
