import TorchDsp.Foundation.Loop
import TorchDsp.Executor.Negotiation

/-! # One iteration of the executor

`run_one_iteration` negotiates the counts, runs `do_work` of every block in
order, releases what the blocks consumed and publishes what they produced, and
gives blocked buffers a chance to realign. The blocks and buffers behave as
their `Answers` say: every `do_work` call of an iteration is answered by a
report, and any sequence of reports is possible.

A do_work loop that does not end, undefined behaviour and a callback that is
never made end the iteration with an `Abort`. Both outcomes carry the calls made
so far.
-/

namespace TorchDsp

/-- What a `do_work` call returns and leaves in the ports it was handed. -/
structure WorkReport where
  ret : WorkReturn
  inputItems : Nat → Nat := fun _ => 0
  consumed : Nat → Nat
  outputItems : Nat → Nat := fun _ => 0
  produced : Nat → Nat
  /-- Whether the callback installed for the call is made. -/
  calledBack : Bool := true

/-- How the blocks and buffers behave during one iteration. -/
structure Answers where
  /-- What `read_info` of port `i` of the first block returns. -/
  readInfo : Nat → Bool := fun _ => true
  /-- What `write_info` of port `i` of the last block returns. -/
  writeInfo : Nat → Bool := fun _ => true
  /-- The results of the successive `do_work` calls of the block at a position. -/
  reports : Nat → List WorkReport
  /-- What the blocked callback of an input port returns. -/
  inputBlocked : Nat → Nat → Bool := fun _ _ => false
  /-- What the blocked callback of an output port returns. -/
  outputBlocked : Nat → Nat → Bool := fun _ _ => false

/-- The calls that an iteration makes. -/
inductive Event
  /-- The ports of the block at `position` as they are first handed to `do_work`. -/
  | placed (position : Nat) (wio : Block)
  | doWork (position : Nat) (report : WorkReport)
  | inputBlockedCallback (position port : Nat)
  | outputBlockedCallback (position port : Nat)
  | notify (position port : Nat) (action : SchedulerAction)

/-- Whether a call belongs to the do_work loop. -/
def Event.isWork : Event → Bool
  | .placed .. => true
  | .doWork .. => true
  | _ => false

structure Abort where
  cause : Cause
  events : List Event

structure Iteration where
  status : ExecutorIterationStatus
  group : Group
  events : List Event

/-- A block with the counts of a work call in its ports. -/
def Block.place (b : Block) (inItems outItems : Nat) : Block :=
  { b with
    inputs := b.inputs.map fun w => { w with nItems := inItems, nConsumed := 0 }
    outputs := b.outputs.map fun w => { w with nItems := outItems, nProduced := 0 } }

/-- A block as a work call leaves it. -/
def Block.report (b : Block) (r : WorkReport) : Block :=
  { b with
    inputs := b.inputs.mapIdx fun i w =>
      { w with nItems := r.inputItems i, nConsumed := r.consumed i }
    outputs := b.outputs.mapIdx fun i w =>
      { w with nItems := r.outputItems i, nProduced := r.produced i } }

/-- The buffers that the output ports of a block write. -/
def Block.writes (b : Block) : List Nat :=
  b.outputs.filterMap BlockWorkOutput.bufp

namespace GraphExecutor

/-! ## Readiness -/

inductive Readiness
  | ready
  | inputsBlocked
  | outputsBlocked
  deriving DecidableEq, Repr

/-- The input check: the group with the counts it places, and whether it passes. -/
def checkFirst (answers : Answers) (g : Group) : Except Cause (Group × Bool) :=
  match g.blocks with
  | [] => .error .noBlock
  | first :: rest =>
      let inputs := checkInputs g answers.readInfo 0 first.inputs
      .ok ({ g with blocks := { first with inputs := inputs.1 } :: rest }, inputs.2)

/-- The output check: the group with the counts it places, and whether it passes. -/
def checkLast (answers : Answers) (g : Group) : Except Cause (Group × Bool) :=
  match g.blocks.getLast? with
  | none => .error .noBlock
  | some last => do
      let outputs ← checkOutputs g last.outputMultiple answers.writeInfo 0 last.outputs
      return ({ g with blocks := g.blocks.modify (g.blocks.length - 1) fun b =>
        { b with outputs := outputs.1 } }, outputs.2)

/-- The two checks: the group with the counts they place, and how far they get. -/
def negotiate (answers : Answers) (g : Group) : Except Cause (Group × Readiness) := do
  let (g, ready) ← checkFirst answers g
  if ready then
    let (g, ready) ← checkLast answers g
    return (g, if ready then .ready else .outputsBlocked)
  else return (g, .inputsBlocked)

/-! ## The do_work loop -/

/-- The variables of an iteration that its do_work loop assigns. -/
structure Loop where
  status : ExecutorIterationStatus := .ready
  unclogInputs : Bool := false
  unclogOutputs : Bool := false
  events : List Event := []

def Loop.log (l : Loop) (event : Event) : Loop :=
  { l with events := l.events ++ [event] }

/-- `first_wio.inputs()[0]` -/
def firstInput (blocks : List Block) : Except Cause BlockWorkInput :=
  match blocks.head?.bind fun b => b.inputs.head? with
  | none => .error .noInputPort
  | some w => .ok w

/-- `last_wio.outputs()[0]` -/
def lastOutput (blocks : List Block) : Except Cause BlockWorkOutput :=
  match blocks.getLast?.bind fun b => b.outputs.head? with
  | none => .error .noOutputPort
  | some w => .ok w

/-- Hand the counts of the first input and the last output to the ports of a
block; neither count is read for a block without such ports. -/
def place (blocks : List Block) (b : Block) : Except Cause Block := do
  let inItems ← (if b.inputs.isEmpty then .ok 0 else (firstInput blocks).map (·.nItems))
  let outItems ← (if b.outputs.isEmpty then .ok 0 else (lastOutput blocks).map (·.nItems))
  return b.place inItems outItems

/-- The status that a block leaves behind on `OK` or `DONE`. A source that
produced nothing counts as blocked. -/
def workStatus (b : Block) : WorkReturn → ExecutorIterationStatus
  | .done => .done
  | _ =>
      if b.inputs.isEmpty && !b.outputs.isEmpty &&
          b.outputs.foldr (fun w most => max w.nProduced most) 0 == 0 then
        .blkdIn
      else .ready

/-- The inner `while (true)` of one block. Only the last block is waited for,
and only the last block leaves the loop when items are insufficient. -/
def blockLoop (isLast : Bool) (position : Nat) (b : Block) (l : Loop) :
    List WorkReport → Except Abort (Block × Loop)
  | [] => .error ⟨.spinning, l.events⟩
  | r :: rest =>
      let b := b.report r
      let l := l.log (.doWork position r)
      match r.ret with
      | .ok | .done =>
          if isLast && !r.calledBack then .error ⟨.waiting, l.events⟩
          else .ok (b, { l with status := workStatus b r.ret })
      | .insufficientInputItems =>
          if isLast then .ok (b, { l with unclogInputs := true, status := .blkdIn })
          else blockLoop isLast position b l rest
      | .insufficientOutputItems =>
          if isLast then .ok (b, { l with unclogOutputs := true, status := .blkdOut })
          else blockLoop isLast position b l rest
      | .other _ => blockLoop isLast position b l rest

/-- The loop over the blocks; `ran` are those that are behind it. -/
def workLoop (answers : Answers) :
    List Block → List Block → Loop → Except Abort (List Block × Loop)
  | ran, [], l => .ok (ran, l)
  | ran, b :: rest, l =>
      if b.isHier then workLoop answers (ran ++ [b]) rest l
      else do
        let placed ← (place (ran ++ b :: rest) b).mapError (⟨·, l.events⟩)
        let l := l.log (.placed ran.length placed)
        if rest.isEmpty && !b.isAsyncBlock then .error ⟨.notAsync, l.events⟩
        else do
          let (b, l) ← blockLoop rest.isEmpty ran.length placed l (answers.reports ran.length)
          workLoop answers (ran ++ [b]) rest l

/-! ## The commit phase -/

/-- `post_read` of what the port consumed. -/
def postRead (w : BlockWorkInput) : BlockWorkInput :=
  { w with bufp := w.bufp.map fun r => { r with totalRead := r.totalRead + w.nConsumed } }

def postReads (b : Block) : Block :=
  { b with inputs := b.inputs.map postRead }

def postWrite (n : Nat) (buffer : Buffer) : Buffer :=
  { buffer with totalWritten := buffer.totalWritten + n }

/-- `post_write` of `n` on every buffer of a list. -/
def postWrites (n : Nat) (ids : List Nat) (buffers : Nat → Buffer) : Nat → Buffer :=
  ids.foldl (fun buffers k => Function.update buffers k (postWrite n (buffers k))) buffers

/-- The buffers that the output ports of the blocks write. -/
def outputBuffers (blocks : List Block) : List Nat :=
  blocks.flatMap Block.writes

def notifyPorts (position count : Nat) (action : SchedulerAction) : List Event :=
  (List.range count).map fun port => .notify position port action

/-- Release what every port consumed, then publish on every output the count of
the last block's first output. -/
def commit (g : Group) (events : List Event) : Except Abort (Group × List Event) := do
  let _ ← (firstInput g.blocks).mapError (⟨·, events⟩)
  let blocks := g.blocks.map postReads
  let events := events ++ notifyPorts 0 (blocks.head?.elim 0 fun b => b.inputs.length) .notifyOutput
  let w ← (lastOutput blocks).mapError (⟨·, events⟩)
  return ({ blocks, buffers := postWrites w.nProduced (outputBuffers blocks) g.buffers },
    events ++ notifyPorts (blocks.length - 1)
      (blocks.getLast?.elim 0 fun b => b.outputs.length) .notifyInput)

/-! ## The blocked callbacks -/

/-- Run the blocked callback of every port, given as position, index and whether
it has a buffer, and notify the neighbour of those of one block that moved. -/
def unclog (call : Nat → Nat → Event) (answer : Nat → Nat → Bool) (neighbour : Nat)
    (action : SchedulerAction) : List (Nat × Nat × Bool) → List Event → Except Abort (List Event)
  | [], events => .ok events
  | (_, _, false) :: _, events => .error ⟨.noBuffer, events⟩
  | (p, i, true) :: rest, events =>
      unclog call answer neighbour action rest (events ++ call p i ::
        if answer p i && p == neighbour then [.notify p i action] else [])

def unclogInputs (answers : Answers) (blocks : List Block) :
    List Event → Except Abort (List Event) :=
  unclog .inputBlockedCallback answers.inputBlocked 0 .notifyOutput
    (blocks.mapIdx fun p b => b.inputs.mapIdx fun i w => (p, i, w.bufp.isSome)).flatten

def unclogOutputs (answers : Answers) (blocks : List Block) :
    List Event → Except Abort (List Event) :=
  unclog .outputBlockedCallback answers.outputBlocked (blocks.length - 1) .notifyInput
    (blocks.mapIdx fun p b => b.outputs.mapIdx fun i w => (p, i, w.bufp.isSome)).flatten

/-! ## The iteration -/

/-- `run_one_iteration` over the blocks of the worker. An iteration whose inputs
are not ready returns at once, without the blocked callbacks. -/
def runOneIteration (answers : Answers) (g : Group) : Except Abort Iteration := do
  let (g, readiness) ← (negotiate answers g).mapError (⟨·, []⟩)
  match readiness with
  | .inputsBlocked => return ⟨.blkdIn, g, []⟩
  | .outputsBlocked => return ⟨.blkdOut, g, ← unclogOutputs answers g.blocks []⟩
  | .ready =>
      let (blocks, l) ← workLoop answers [] g.blocks {}
      let (g, events) ← commit { g with blocks } l.events
      let events ← (
        if l.unclogInputs then unclogInputs answers g.blocks events
        else if l.unclogOutputs then unclogOutputs answers g.blocks events
        else .ok events)
      return ⟨l.status, g, events⟩

/-- The calls that a part of an iteration has made, whether or not it comes to
an end. -/
def callsOf {α : Type} (events : α → List Event) : Except Abort α → List Event
  | .ok value => events value
  | .error abort => abort.events

/-- The calls of an iteration. -/
def eventsOf (result : Except Abort Iteration) : List Event :=
  callsOf Iteration.events result

end GraphExecutor

end TorchDsp
