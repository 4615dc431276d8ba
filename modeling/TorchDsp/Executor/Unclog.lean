import TorchDsp.Executor.BlockedIteration

/-! # The blocked callbacks of an iteration

A blocked iteration runs the blocked callback of every buffered port once, so
that a buffer that wrapped can realign, and notifies the neighbours whose buffer
moved. An iteration that fails its input check returns before it comes to do so;
all others keep to this (`TorchDsp.GraphExecutor.unclogs_iff`).
-/

namespace TorchDsp

def Event.isInputCallback (p i : Nat) : Event → Bool
  | .inputBlockedCallback q j => q == p && j == i
  | _ => false

def Event.isOutputCallback (p i : Nat) : Event → Bool
  | .outputBlockedCallback q j => q == p && j == i
  | _ => false

/-- The final report of the last block of a list, where it takes part. -/
def Answers.lastReport (answers : Answers) (blocks : List Block) (count : Nat) :
    Option WorkReport :=
  blocks.getLast?.bind fun last =>
    if last.isHier then none else answers.final count (count - 1)

private theorem Answers.lastReport_cons (answers : Answers) (b next : Block) (rest : List Block)
    (count : Nat) :
    answers.lastReport (b :: next :: rest) count = answers.lastReport (next :: rest) count := by
  rw [Answers.lastReport, List.getLast?_cons_cons, ← Answers.lastReport]

namespace GraphExecutor

/-- Every port of the first block passes its check. -/
def InputsReady (answers : Answers) (g : Group) : Prop :=
  ∀ i w, g.input 0 i = some w → inputReady g (answers.readInfo i) w = true

/-- An iteration that is blocked for want of input items, or of output space, has
run the respective callback of every buffered port of every block once, and has
notified the neighbour of each port of the first, or last, block that moved. -/
structure Unclogs (answers : Answers) (g : Group) (iteration : Iteration) : Prop where
  inputs : iteration.status = .blkdIn →
    ¬ InputsReady answers g ∨
      (answers.lastReport g.blocks g.blocks.length).any (·.ret = .insufficientInputItems) →
    ∀ p i, (g.reader p i).isSome →
      iteration.events.countP (Event.isInputCallback p i) = 1 ∧
      (p = 0 → answers.inputBlocked p i = true →
        [.inputBlockedCallback p i, .notify p i .notifyOutput] <:+: iteration.events)
  outputs : iteration.status = .blkdOut → ∀ p i, (g.outputBuffer p i).isSome →
    iteration.events.countP (Event.isOutputCallback p i) = 1 ∧
    (p + 1 = g.blocks.length → answers.outputBlocked p i = true →
      [.outputBlockedCallback p i, .notify p i .notifyInput] <:+: iteration.events)

/-! ## The loops over the callbacks -/

/-- The calls that the callback of one port leads to. -/
def portCalls (call : Nat → Nat → Event) (answer : Nat → Nat → Bool) (neighbour : Nat)
    (action : SchedulerAction) (port : Nat × Nat × Bool) : List Event :=
  call port.1 port.2.1 ::
    if answer port.1 port.2.1 && port.1 == neighbour then [.notify port.1 port.2.1 action] else []

section Callbacks

variable {call : Nat → Nat → Event} {answer : Nat → Nat → Bool} {neighbour : Nat}
  {action : SchedulerAction} {ports : List (Nat × Nat × Bool)} {events later : List Event}

/-- The callbacks go through exactly when every port has a buffer. -/
theorem unclog_eq_ok : unclog call answer neighbour action ports events = .ok later ↔
    (∀ port ∈ ports, port.2.2 = true) ∧
      later = events ++ ports.flatMap (portCalls call answer neighbour action) := by
  induction ports generalizing events with
  | nil =>
      rw [unclog, List.flatMap_nil, List.append_nil, Except.ok.injEq]
      exact ⟨fun same => ⟨fun port absurd => (List.not_mem_nil absurd).elim, same.symm⟩,
        fun both => both.2.symm⟩
  | cons port rest ih =>
      obtain ⟨p, i, buffered⟩ := port
      cases buffered with
      | false => simp [unclog]
      | true =>
          rw [unclog, ih, List.flatMap_cons, List.append_assoc, List.forall_mem_cons]
          exact and_congr_left fun _ => (and_iff_right rfl).symm

/-- Each port's callback is run as often as the port is listed. -/
theorem countP_portCalls {isCall : Event → Bool} {p i : Nat}
    (calls : ∀ q j, isCall (call q j) = (q == p && j == i))
    (silent : ∀ q j, isCall (.notify q j action) = false) :
    (ports.flatMap (portCalls call answer neighbour action)).countP isCall =
      ports.countP fun port => port.1 == p && port.2.1 == i := by
  induction ports with
  | nil => rfl
  | cons port rest ih =>
      have notified : (if answer port.1 port.2.1 && port.1 == neighbour then
          [Event.notify port.1 port.2.1 action] else []).countP isCall = 0 := by
        split
        · rw [List.countP_singleton, silent]
          rfl
        · rfl
      rw [List.flatMap_cons, List.countP_append, ih, portCalls, List.countP_cons, notified, calls,
        List.countP_cons]
      omega

/-- A port whose callback moved its buffer is notified next. -/
theorem notified_portCalls {p i : Nat} {x : Bool} (listed : (p, i, x) ∈ ports)
    (moved : answer p i = true) (next : p = neighbour) :
    [call p i, .notify p i action] <:+: ports.flatMap (portCalls call answer neighbour action) := by
  subst next
  obtain ⟨before, after, rfl⟩ := List.append_of_mem listed
  have here : portCalls call answer p action (p, i, x) =
      [call p i, .notify p i action] := by
    simp only [portCalls, moved, BEq.rfl, Bool.and_self, ↓reduceIte]
  rw [List.flatMap_append, List.flatMap_cons, here]
  exact ⟨_, _, (List.append_assoc _ _ _)⟩

/-- What the callbacks over all ports of the blocks do for one of them. -/
theorem unclog_cells {α : Type} {columns : Block → List α} {mark : α → Bool} {blocks : List Block}
    {p i : Nat} {b : Block} {cell : α} (isCall : Event → Bool)
    (runs : unclog call answer neighbour action (List.cells columns mark blocks) events =
      .ok later)
    (calls : ∀ q j, isCall (call q j) = (q == p && j == i))
    (silent : ∀ q j, isCall (.notify q j action) = false)
    (before : events.countP isCall = 0) (here : blocks[p]? = some b)
    (there : (columns b)[i]? = some cell) :
    later.countP isCall = 1 ∧ (p = neighbour → answer p i = true →
      [call p i, .notify p i action] <:+: later) := by
  obtain ⟨_, rfl⟩ := unclog_eq_ok.mp runs
  have listed : (p, i, mark cell) ∈ List.cells columns mark blocks :=
    List.mem_cells.mpr ⟨b, cell, here, there, rfl⟩
  refine ⟨?_, fun next moved => ?_⟩
  · rw [List.countP_append, before, countP_portCalls calls silent, List.count_places listed]
  · exact (notified_portCalls listed moved next).trans (List.suffix_append _ _).isInfix

end Callbacks

/-! ## What the do_work loop leaves behind -/

/-- The do_work loop records work calls only. -/
theorem isWork_workLoop {answers : Answers} {ran todo : List Block} {l : Loop} {event : Event}
    (made : event ∈ loopEvents (workLoop answers ran todo l)) :
    event ∈ l.events ∨ event.isWork = true := by
  induction todo generalizing ran l with
  | nil => exact Or.inl made
  | cons b rest ih =>
      have work {event : Event} (step : b.isHier = false ∧ ∃ placed,
          place (ran ++ b :: rest) b = .ok placed ∧ (event = .placed ran.length placed ∨
            ∃ r ∈ answers.reports ran.length, event = .doWork ran.length r)) :
          event.isWork = true := by
        obtain ⟨_, placed, _, rfl | ⟨r, _, rfl⟩⟩ := step
        · rfl
        · rfl
      rcases mem_workLoop_events made with old | step | ⟨middle, made, before⟩
      · exact Or.inl old
      · exact Or.inr (work step)
      · rcases ih made with earlier | inside
        · exact (before _ earlier).imp_right work
        · exact Or.inr inside

private theorem Loop.leave_flags {l : Loop} {b : Block} {r : WorkReport} {events : List Event}
    (inputs : l.unclogInputs = false) (outputs : l.unclogOutputs = false)
    (running : l.status ≠ .blkdOut) :
    (l.leave b r events).unclogInputs = decide (r.ret = .insufficientInputItems) ∧
      (l.leave b r events).unclogOutputs = decide (r.ret = .insufficientOutputItems) ∧
      ((l.leave b r events).status = .blkdOut → r.ret = .insufficientOutputItems) := by
  unfold Loop.leave
  cases r.ret with
  | ok =>
      refine ⟨inputs, outputs, fun blocked => ?_⟩
      simp only [workStatus] at blocked
      split at blocked <;> cases blocked
  | done => exact ⟨inputs, outputs, fun blocked => by cases blocked⟩
  | insufficientInputItems => exact ⟨rfl, outputs, fun blocked => by cases blocked⟩
  | insufficientOutputItems => exact ⟨inputs, rfl, fun _ => rfl⟩
  | other code => exact ⟨inputs, outputs, fun blocked => (running blocked).elim⟩

/-- A block before the last one is not left for want of items. -/
theorem ret_of_final {answers : Answers} {count position : Nat} {r : WorkReport}
    (final : answers.final count position = some r) (before : position + 1 ≠ count) :
    r.ret ≠ .insufficientInputItems ∧ r.ret ≠ .insufficientOutputItems := by
  have leaves := List.find?_some final
  rw [beq_false_of_ne before, WorkReport.leaves] at leaves
  refine ⟨fun code => ?_, fun code => ?_⟩
  · rw [code] at leaves
    cases leaves
  · rw [code] at leaves
    cases leaves

/-- A loop that returns has set the flags that the last block's final report
asks for, and is blocked on the output only by that report. -/
theorem workLoop_flags {answers : Answers} {ran todo blocks : List Block} {l l' : Loop}
    (runs : workLoop answers ran todo l = .ok (blocks, l')) (inputs : l.unclogInputs = false)
    (outputs : l.unclogOutputs = false) (running : l.status ≠ .blkdOut) :
    l'.unclogInputs = (answers.lastReport todo (ran.length + todo.length)).any
        (·.ret = .insufficientInputItems) ∧
      l'.unclogOutputs = (answers.lastReport todo (ran.length + todo.length)).any
        (·.ret = .insufficientOutputItems) ∧
      (l'.status = .blkdOut → l'.unclogOutputs = true) := by
  induction todo generalizing ran l with
  | nil =>
      cases runs
      exact ⟨inputs, outputs, fun blocked => (running blocked).elim⟩
  | cons b rest ih =>
      have length (after : Block) : (ran ++ [after]).length + rest.length =
          ran.length + (b :: rest).length := by
        rw [List.length_append, List.length_singleton, List.length_cons, Nat.add_assoc,
          Nat.add_comm 1]
      rcases workLoop_cons runs with ⟨hier, runs⟩ | ⟨part, _, _, r, _, final, _, _, runs⟩
      · have later := ih runs inputs outputs running
        rw [length] at later
        cases rest with
        | nil =>
            have none : answers.lastReport [b] (ran.length + [b].length) = none := by
              rw [Answers.lastReport, List.getLast?_singleton, Option.bind_some, if_pos hier]
            rw [none]
            exact later
        | cons next others =>
            rw [answers.lastReport_cons]
            exact later
      · obtain ⟨flagInputs, flagOutputs, blocked⟩ :=
          Loop.leave_flags (b := b.report r) (r := r) inputs outputs running
        cases rest with
        | nil =>
            have reported : answers.lastReport [b] (ran.length + [b].length) = some r := by
              rw [Answers.lastReport, List.getLast?_singleton, Option.bind_some, part]
              exact final
            rw [reported]
            cases runs
            refine ⟨flagInputs, flagOutputs, fun status => ?_⟩
            rw [flagOutputs, blocked status]
            rfl
        | cons next others =>
            obtain ⟨noInputs, noOutputs⟩ := ret_of_final final
              (by rw [List.length_cons, List.length_cons]; omega)
            have later := ih runs (flagInputs.trans (decide_eq_false noInputs))
              (flagOutputs.trans (decide_eq_false noOutputs))
              fun status => noOutputs (blocked status)
            rw [length] at later
            rw [answers.lastReport_cons]
            exact later

/-! ## The input check -/

/-- The input check passes when every port does. -/
theorem checkInputs_passes_iff {g : Group} {readInfo : Nat → Bool} {n : Nat}
    {ws : List BlockWorkInput} : (checkInputs g readInfo n ws).2 = true ↔
      ∀ i w, ws[i]? = some w → inputReady g (readInfo (n + i)) w = true := by
  induction ws generalizing n with
  | nil => exact iff_of_true rfl fun i w absurd => by cases absurd
  | cons first rest ih =>
      rw [@List.forall_getElem?_cons _ fun i w => inputReady g (readInfo i) w = true, checkInputs]
      by_cases passes : inputReady g (readInfo n) first = true
      · rw [if_pos passes, and_iff_right passes]
        exact ih
      · rw [if_neg passes]
        exact iff_of_false Bool.false_ne_true fun all => passes all.1

/-- The check of the first block decides whether an iteration is blocked on its
inputs. -/
theorem negotiate_inputsBlocked_iff {answers : Answers} {g g' : Group} {readiness : Readiness}
    (checks : negotiate answers g = .ok (g', readiness)) :
    readiness = .inputsBlocked ↔ ¬ InputsReady answers g := by
  unfold negotiate at checks
  obtain ⟨⟨middle, ready⟩, input, checks⟩ := Except.bind_eq_ok checks
  have passes : ready = true ↔ InputsReady answers g := by
    unfold checkFirst at input
    cases shape : g.blocks with
    | nil => rw [shape] at input; cases input
    | cons first rest =>
        rw [shape] at input
        cases input
        rw [checkInputs_passes_iff]
        simp only [InputsReady, Group.input, shape, List.getElem?_cons_zero, Option.bind_some,
          Nat.zero_add]
  cases ready with
  | false =>
      cases checks
      exact iff_of_true rfl fun all => Bool.false_ne_true (passes.mpr all)
  | true =>
      obtain ⟨⟨final, last⟩, _, checks⟩ := Except.bind_eq_ok checks
      refine iff_of_false (fun blocked => ?_) (not_not_intro (passes.mp rfl))
      cases checks
      cases last <;> cases blocked

/-- Only a port with a buffer fails its check. -/
theorem buffered_of_not_inputsReady {answers : Answers} {g : Group}
    (blocked : ¬ InputsReady answers g) : ∃ i, (g.reader 0 i).isSome = true := by
  by_contra none
  apply blocked
  intro i w listed
  cases buffered : w.bufp with
  | none => rw [inputReady, buffered]
  | some r =>
      refine (none ⟨i, ?_⟩).elim
      rw [Group.reader, listed, Option.bind_some, buffered]
      rfl

/-! ## The iteration -/

/-- The output ports of a group after the blocks have run. -/
theorem output_worked {answers : Answers} {g : Group} {blocks : List Block} {l : Loop}
    {buffers : Nat → Buffer} (runs : workLoop answers [] g.blocks {} = .ok (blocks, l))
    (p i : Nat) :
    (Group.output { blocks := blocks.map postReads, buffers } p i).map BlockWorkOutput.bufp =
      (g.output p i).map BlockWorkOutput.bufp := by
  rw [workLoop_blocks runs, answers.served_nil_left]
  unfold Group.output
  rw [List.getElem?_map, List.getElem?_mapIdx, Option.map_map]
  cases g.blocks[p]? with
  | none => rfl
  | some b =>
      rw [Option.map_some, Option.bind_some, Option.bind_some, Function.comp_apply]
      change ((answers.serve g.blocks.length p b).outputs[i]?).map _ = _
      rcases answers.serve_cases g.blocks.length p b with same | ⟨r, _, same⟩
      · rw [same]
      · rw [same, Block.outputs_report_getElem?, Option.map_map]
        rfl

/-- A buffered input port stays in its place. -/
theorem input_of_reader {g g' : Group} {p i : Nat}
    (same : (g'.reader p i).isSome = (g.reader p i).isSome)
    (attached : (g.reader p i).isSome = true) :
    ∃ b w, g'.blocks[p]? = some b ∧ b.inputs[i]? = some w := by
  rw [← same] at attached
  obtain ⟨r, attached⟩ := Option.isSome_iff_exists.mp attached
  obtain ⟨w, port, _⟩ := Option.bind_eq_some_iff.mp attached
  obtain ⟨b, present, listed⟩ := Option.bind_eq_some_iff.mp port
  exact ⟨b, w, present, listed⟩

private theorem output_of_outputBuffer {g g' : Group} {p i : Nat}
    (same : (g'.output p i).map BlockWorkOutput.bufp = (g.output p i).map BlockWorkOutput.bufp)
    (attached : (g.outputBuffer p i).isSome = true) :
    ∃ b w, g'.blocks[p]? = some b ∧ b.outputs[i]? = some w := by
  rw [Group.outputBuffer_eq_bind, ← same, ← Group.outputBuffer_eq_bind] at attached
  obtain ⟨k, attached⟩ := Option.isSome_iff_exists.mp attached
  obtain ⟨w, port, _⟩ := Option.bind_eq_some_iff.mp attached
  obtain ⟨b, present, listed⟩ := Option.bind_eq_some_iff.mp port
  exact ⟨b, w, present, listed⟩

/-- Neither the do_work loop nor the commit phase runs a blocked callback. -/
theorem countP_committed {answers : Answers} {ready after : Group} {blocks : List Block} {l : Loop}
    {committed : List Event} {isCall : Event → Bool}
    (runs : workLoop answers [] ready.blocks {} = .ok (blocks, l))
    (commits : commit { ready with blocks } l.events = .ok (after, committed))
    (work : ∀ event : Event, event.isWork = true → isCall event = false)
    (silent : ∀ p i action, isCall (.notify p i action) = false) :
    committed.countP isCall = 0 := by
  apply List.countP_eq_zero.mpr
  intro event member called
  have committing := @mem_commit_events { ready with blocks } l.events event
    (by rw [commits]; exact member)
  rcases committing with earlier | ⟨p, i, action, rfl⟩
  · rcases isWork_workLoop (by rw [runs]; exact earlier) with absurd | inside
    · exact List.not_mem_nil absurd
    · rw [work event inside] at called
      cases called
  · rw [silent] at called
    cases called

/-- The counts on offer do not change which report is the last. -/
theorem lastReport_of_sameTotals {answers : Answers} {g g' : Group} (same : g.SameTotals g') :
    answers.lastReport g'.blocks g'.blocks.length =
      answers.lastReport g.blocks g.blocks.length := by
  have ends := same.bare_eq (g.blocks.length - 1)
  unfold Answers.lastReport
  rw [List.getLast?_eq_getElem?, List.getLast?_eq_getElem?, same.length_eq]
  cases here : g.blocks[g.blocks.length - 1]? with
  | none =>
      rw [here, Option.map_none, Option.map_eq_none_iff] at ends
      rw [ends, Option.bind_none]
  | some last =>
      obtain ⟨last', there, bare⟩ := same.block here
      rw [there, Option.bind_some, Option.bind_some, ← last'.bare_isHier, bare, last.bare_isHier]

/-- **When a blocked iteration runs the callbacks.** -/
theorem unclogs_iff (answers : Answers) (g : Group) (iteration : Iteration)
    (returns : runOneIteration answers g = .ok iteration) :
    Unclogs answers g iteration ↔ InputsReady answers g := by
  constructor
  · intro unclogs
    by_contra blocked
    obtain ⟨i, attached⟩ := buffered_of_not_inputsReady blocked
    cases returned returns with
    | inputsBlocked checks =>
        obtain ⟨once, _⟩ := unclogs.inputs rfl (Or.inl blocked) 0 i attached
        cases once
    | outputsBlocked checks => cases (negotiate_inputsBlocked_iff checks).mpr blocked
    | worked checks => cases (negotiate_inputsBlocked_iff checks).mpr blocked
  · intro inputsReady
    have length : iteration.group.blocks.length = g.blocks.length := by
      have lengths := congrArg List.length (shape_iteration returns)
      rwa [List.length_map, List.length_map] at lengths
    have wiring (p i : Nat) : (iteration.group.reader p i).isSome = (g.reader p i).isSome := by
      have both := congrArg Option.isSome (wiring_iteration returns p i)
      rwa [Option.isSome_map, Option.isSome_map] at both
    cases returned returns with
    | inputsBlocked checks =>
        exact ((negotiate_inputsBlocked_iff checks).mp rfl inputsReady).elim
    | outputsBlocked checks callbacks =>
        refine ⟨fun absurd => (by cases absurd), fun _ p i attached => ?_⟩
        obtain ⟨b, w, here, there⟩ :=
          output_of_outputBuffer ((negotiate_cases checks).1.output_bufp p i) attached
        obtain ⟨once, notified⟩ := unclog_cells (Event.isOutputCallback p i) callbacks
          (fun _ _ => rfl) (fun _ _ => rfl) rfl here there
        exact ⟨once, fun next => notified (by rw [length, ← next, Nat.add_sub_cancel])⟩
    | worked checks runs commits callbacks =>
        have same := (negotiate_cases checks).1
        obtain ⟨flagInputs, flagOutputs, blocked⟩ := workLoop_flags runs rfl rfl (by decide)
        rw [List.length_nil, Nat.zero_add, lastReport_of_sameTotals same] at flagInputs flagOutputs
        refine ⟨fun _ cause p i attached => ?_, fun status p i attached => ?_⟩
        · have lacks := cause.resolve_left (not_not_intro inputsReady)
          rw [flagInputs, if_pos lacks] at callbacks
          obtain ⟨b, w, here, there⟩ := input_of_reader (wiring p i) attached
          obtain ⟨once, notified⟩ := unclog_cells (Event.isInputCallback p i) callbacks
            (fun _ _ => rfl) (fun _ _ => rfl)
            (countP_committed runs commits
              (fun event work => by cases event <;> first | rfl | cases work)
              fun _ _ _ => rfl) here there
          exact ⟨once, notified⟩
        · have flagged := blocked status
          have others : (answers.lastReport g.blocks g.blocks.length).any
              (·.ret = .insufficientInputItems) = false := by
            rw [flagged] at flagOutputs
            cases reported : answers.lastReport g.blocks g.blocks.length with
            | none => rfl
            | some r =>
                rw [reported] at flagOutputs
                have code : r.ret = .insufficientOutputItems := of_decide_eq_true flagOutputs.symm
                rw [Option.any_some, code]
                rfl
          rw [flagInputs, others, if_neg Bool.false_ne_true, if_pos flagged] at callbacks
          obtain ⟨_, _, _, _, rfl, _⟩ := commit_eq_ok commits
          obtain ⟨b, w, here, there⟩ := output_of_outputBuffer
            ((output_worked runs p i).trans (same.output_bufp p i)) attached
          obtain ⟨once, notified⟩ := unclog_cells (Event.isOutputCallback p i) callbacks
            (fun _ _ => rfl) (fun _ _ => rfl)
            (countP_committed runs commits
              (fun event work => by cases event <;> first | rfl | cases work)
              fun _ _ _ => rfl) here there
          exact ⟨once, fun next => notified (by rw [length, ← next, Nat.add_sub_cancel])⟩

/-- The second block lacks items, and the callback of the first block's port moves
its buffer. -/
theorem last_block_unclogs :
    ∃ iteration, runOneIteration { lacking 0 with inputBlocked := fun _ _ => true }
        (twoBlocks 4 16) = .ok iteration ∧ iteration.status = .blkdIn ∧
      [.inputBlockedCallback 0 0, .notify 0 0 .notifyOutput] <:+: iteration.events ∧
      iteration.events.countP (Event.isInputCallback 1 0) = 1 := by
  have unclogs := (unclogs_iff { lacking 0 with inputBlocked := fun _ _ => true }
    (twoBlocks 4 16) _ rfl).mpr fun i w listed => by
      match i with
      | 0 => cases listed; rfl
      | i + 1 => cases listed
  refine ⟨_, rfl, rfl, (unclogs.inputs rfl (Or.inr rfl) 0 0 rfl).2 rfl rfl, ?_⟩
  exact (unclogs.inputs rfl (Or.inr rfl) 1 0 rfl).1

/-- An iteration whose first buffer is empty returns without a callback. -/
theorem input_check_leaves_buffers :
    ∃ iteration, runOneIteration (moving 4) (twoBlocks 0 16) = .ok iteration ∧
      iteration.status = .blkdIn ∧ ¬ InputsReady (moving 4) (twoBlocks 0 16) ∧
      iteration.events.countP (Event.isInputCallback 0 0) = 0 ∧
      ¬ Unclogs (moving 4) (twoBlocks 0 16) iteration := by
  have blocked : ¬ InputsReady (moving 4) (twoBlocks 0 16) := fun ready =>
    Bool.false_ne_true (ready 0 _ rfl)
  refine ⟨_, rfl, rfl, blocked, rfl, fun unclogs => ?_⟩
  cases (unclogs.inputs rfl (Or.inl blocked) 0 0 rfl).1

end GraphExecutor

end TorchDsp
