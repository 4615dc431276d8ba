import TorchDsp.Executor.Waiting
import TorchDsp.Triton.Model

/-! # Inferences that fail

The client's errors are printed and dropped, and `work` returns `OK` with the
count it was asked for. An iteration that ends therefore releases the inputs of
a failed inference. Only an iteration that waits for the callback of the last
block for good leaves its items alone
(`TorchDsp.Stage.failures_kept_iff`).
-/

namespace TorchDsp

/-! ## The calls of a triton block -/

/-- What a `do_work` call hands to `work`, and what becomes of the client call. -/
structure Inference where
  inBufs : List BufferTritonReader
  outBufs : List BufferTriton
  noutputItems : Nat
  outcome : ClientOutcome
  items : 0 < noutputItems

/-- What `do_work` of a synchronous block reports: without enough items it does
not call `work` and moves nothing, otherwise it consumes on every input what
`work` produces. -/
def TritonBlock.Reported (b : TritonBlock) : Option Inference → WorkReport → Prop
  | none, r =>
      (r.ret = .insufficientInputItems ∨ r.ret = .insufficientOutputItems) ∧
        ∀ i, r.consumed i = 0 ∧ r.produced i = 0
  | some inference, r =>
      ∃ result, b.work inference.inBufs inference.outBufs inference.noutputItems
          inference.outcome = some result ∧
        r.ret = result.ret ∧ r.calledBack = result.calledBack ∧
        ∀ i, r.consumed i = result.produced ∧ r.produced i = result.produced

/-- What a call of `work` that returns makes of a `do_work` call. -/
theorem TritonBlock.reported_of_works {b : TritonBlock} {inference : Inference} {r : WorkReport}
    (works : (b.work inference.inBufs inference.outBufs inference.noutputItems
      inference.outcome).isSome = true)
    (code : r.ret = .ok)
    (called : r.calledBack = (b.model.async && decide (inference.outcome ≠ .callError)))
    (counts : ∀ i, r.consumed i = inference.noutputItems ∧ r.produced i = inference.noutputItems) :
    b.Reported (some inference) r := by
  obtain ⟨result, worked⟩ := Option.isSome_iff_exists.mp works
  obtain ⟨_, _, _, _, _, _, _, _, _, rfl⟩ := work_eq_some worked
  exact ⟨_, worked, code, called, counts⟩

/-- One `do_work` call of a triton block. -/
structure TritonCall where
  block : TritonBlock
  inference : Option Inference
  report : WorkReport
  reported : block.Reported inference report

/-- A call belongs to a block of the group: it has the block's mode, and an
inference has a reader for every input port. -/
structure TritonCall.Suits (c : TritonCall) (b : Block) : Prop where
  mode : b.kind = .triton c.block.model.async
  readers : ∀ inference, c.inference = some inference →
    inference.inBufs.length = b.inputs.length ∧ ∀ w ∈ b.inputs, w.bufp.isSome = true

/-- The triton blocks of a group answer as their calls say. -/
def Suited (calls : Nat → List TritonCall) (answers : Answers) (g : Group) : Prop :=
  ∀ (p : Nat) (b : Block) (async : Bool), g.blocks[p]? = some b → b.kind = .triton async →
    answers.reports p = (calls p).map TritonCall.report ∧ ∀ c ∈ calls p, c.Suits b

/-- The call with which the block at `position` of `count` blocks is left. -/
def finalCall (calls : Nat → List TritonCall) (count position : Nat) : Option TritonCall :=
  (calls position).find? fun c => c.report.leaves (position + 1 == count)

/-- What a call that makes an inference reports, whatever becomes of it. -/
structure TritonCall.Infers (c : TritonCall) (inference : Inference) : Prop where
  inputs : 2 ≤ inference.inBufs.length
  code : c.report.ret = .ok
  called : c.report.calledBack =
    (c.block.model.async && decide (inference.outcome ≠ .callError))
  counts : ∀ i, c.report.consumed i = inference.noutputItems ∧
    c.report.produced i = inference.noutputItems

/-- A call with an inference reports `OK` and the items it was asked for. -/
theorem TritonCall.infers {c : TritonCall} {inference : Inference}
    (inferred : c.inference = some inference) : c.Infers inference := by
  have reported := c.reported
  rw [inferred] at reported
  obtain ⟨result, worked, code, called, counts⟩ := reported
  obtain ⟨_, two, _, _, _, _, _, _, _, rfl⟩ := TritonBlock.work_eq_some worked
  exact ⟨two, code, called, counts⟩

/-- A call with an inference leaves its block. -/
theorem TritonCall.Infers.leaves {c : TritonCall} {inference : Inference}
    (infers : c.Infers inference) (isLast : Bool) : c.report.leaves isLast = true := by
  rw [WorkReport.leaves, infers.code]

/-- The calls before the one a block is left with make no inference. -/
theorem inference_eq_none_of_earlier {calls : Nat → List TritonCall} {count p : Nat}
    {c : TritonCall} (final : finalCall calls count p = some c) :
    ∃ earlier later, calls p = earlier ++ c :: later ∧ ∀ e ∈ earlier, e.inference = none := by
  obtain ⟨_, earlier, later, same, stays⟩ := List.find?_eq_some_iff_append.mp final
  refine ⟨earlier, later, same, fun e member => ?_⟩
  cases inferred : e.inference with
  | none => rfl
  | some inference =>
      have again := stays e member
      rw [(TritonCall.infers inferred).leaves] at again
      cases again

private theorem final_of_suited {calls : Nat → List TritonCall} {answers : Answers} {g : Group}
    (suited : Suited calls answers g) {p : Nat} {b : Block} {async : Bool}
    (present : g.blocks[p]? = some b) (kind : b.kind = .triton async) (count : Nat) :
    answers.final count p = (finalCall calls count p).map TritonCall.report := by
  rw [Answers.final, (suited p b async present kind).1, List.find?_map]
  rfl

namespace GraphExecutor

/-- In an iteration from `g`, the inference of the triton block at `p` fails. -/
structure InferenceFails (answers : Answers) (calls : Nat → List TritonCall) (g : Group) (p : Nat) :
    Prop where
  reaches : passes answers g = true
  inference : ∃ b async c inference, g.blocks[p]? = some b ∧ b.kind = .triton async ∧
    b.isHier = false ∧ finalCall calls g.blocks.length p = some c ∧
    c.inference = some inference ∧ inference.outcome ≠ .success

/-- From `g` to `g'`, nothing of a failed inference is published and none of its
inputs are released. -/
def FailuresKept (answers : Answers) (calls : Nat → List TritonCall) (g g' : Group) : Prop :=
  ∀ p, InferenceFails answers calls g p →
    (∀ b, g.blocks[p]? = some b → ∀ k ∈ b.writes, g'.ledger.published k = g.ledger.published k) ∧
      ∀ i, g'.ledger.released (p, i) = g.ledger.released (p, i)

/-- An iteration that returns releases the inputs of every inference, whatever
its outcome. -/
theorem released_of_failed {answers : Answers} {calls : Nat → List TritonCall} {g : Group}
    {iteration : Iteration} {p : Nat} (returns : runOneIteration answers g = .ok iteration)
    (suited : Suited calls answers g) (fails : InferenceFails answers calls g p) :
    g.ledger.released (p, 0) < iteration.group.ledger.released (p, 0) := by
  obtain ⟨b, async, c, inference, present, kind, part, final, inferred, _⟩ := fails.inference
  have last := final_of_suited suited present kind g.blocks.length
  rw [final, Option.map_some] at last
  have suits := (suited p b async present kind).2 c (List.mem_of_find?_eq_some final)
  obtain ⟨ports, buffered⟩ := suits.readers inference inferred
  have infers := TritonCall.infers inferred
  have bound : 0 < b.inputs.length := ports ▸ Nat.lt_of_lt_of_le Nat.two_pos infers.inputs
  have here : b.inputs[0]? = some b.inputs[0] := List.getElem?_eq_getElem bound
  rw [ledger_of_passes returns fails.reaches, Ledger.released_post,
    answers.consumed_of_final g present here (buffered _ (List.getElem_mem bound)) part last,
    (infers.counts 0).1]
  exact Nat.lt_add_of_pos_right inference.items

end GraphExecutor

/-! ## Runs -/

/-- A group and whether its executor waits for a callback that nobody makes. -/
structure Stage where
  group : Group
  waits : Bool := false

inductive InferenceMove
  | iterate (answers : Answers) (calls : Nat → List TritonCall)
  | neighbours

namespace Stage

open GraphExecutor

/-- One move. An iteration that waits has posted nothing and is the last one. -/
inductive Step : Stage → InferenceMove → Stage → Prop
  | iterate {g : Group} {answers : Answers} {calls : Nat → List TritonCall} {iteration : Iteration}
      (suited : Suited calls answers g) (returns : runOneIteration answers g = .ok iteration) :
      Step ⟨g, false⟩ (.iterate answers calls) ⟨iteration.group, false⟩
  | wait {g : Group} {answers : Answers} {calls : Nat → List TritonCall} {abort : Abort}
      (suited : Suited calls answers g) (stuck : runOneIteration answers g = .error abort)
      (waits : abort.cause = .waiting) :
      Step ⟨g, false⟩ (.iterate answers calls) ⟨g, true⟩
  | neighbours {g g' : Group} {waits : Bool} (moved : Neighbours g g') :
      Step ⟨g, waits⟩ .neighbours ⟨g', waits⟩

/-- An iteration keeps what failed exactly when nothing fails or the last block
is waited for in vain. -/
theorem failuresKept_step_iff {s s' : Stage} {answers : Answers} {calls : Nat → List TritonCall}
    (step : Step s (.iterate answers calls) s') :
    FailuresKept answers calls s.group s'.group ↔
      ∀ p, InferenceFails answers calls s.group p → answers.LastWaits s.group := by
  cases step with
  | iterate suited returns =>
      constructor
      · intro kept p fails
        have moved := released_of_failed returns suited fails
        rw [(kept p fails).2 0] at moved
        exact (Nat.lt_irrefl _ moved).elim
      · intro waits p fails
        exact (not_lastWaits_of_returns returns fails.reaches (waits p fails)).elim
  | wait suited stuck waits =>
      have last := (waits_of_iteration stuck waits).2
      exact ⟨fun _ _ _ => last, fun _ _ _ => ⟨fun _ _ _ _ => rfl, fun _ => rfl⟩⟩

/-- Nobody makes the callback of a triton block that is synchronous or whose
call the client rejects. -/
theorem silent_iff_of_inference {c : TritonCall} {inference : Inference}
    (inferred : c.inference = some inference) :
    c.report.Silent ↔ c.block.model.async = false ∨ inference.outcome = .callError := by
  have infers := TritonCall.infers inferred
  rw [WorkReport.Silent, infers.called, Bool.and_eq_false_iff, decide_eq_false_iff_not, not_not]
  exact ⟨fun silent => silent.2, fun silent => ⟨Or.inl infers.code, silent⟩⟩

/-- **Failed inferences.** -/
theorem failures_kept_iff (s s' : Stage) (taken : List (Transition.Taken Stage InferenceMove))
    (run : Transition.Run Step s taken s') :
    (∀ t ∈ taken, ∀ answers calls, t.label = .iterate answers calls →
      FailuresKept answers calls t.source.group t.target.group) ↔
    ∀ t ∈ taken, ∀ answers calls, t.label = .iterate answers calls →
      ∀ p, InferenceFails answers calls t.source.group p → answers.LastWaits t.source.group := by
  have exactly (t : Transition.Taken Stage InferenceMove) (member : t ∈ taken) (answers : Answers)
      (calls : Nat → List TritonCall) (label : t.label = .iterate answers calls) :
      FailuresKept answers calls t.source.group t.target.group ↔
        ∀ p, InferenceFails answers calls t.source.group p → answers.LastWaits t.source.group := by
    have step := run.step_of_mem t member
    rw [label] at step
    exact failuresKept_step_iff step
  constructor
  · intro kept t member answers calls label
    exact (exactly t member answers calls label).mp (kept t member answers calls label)
  · intro waits t member answers calls label
    exact (exactly t member answers calls label).mpr (waits t member answers calls label)

/-! ## Small runs -/

/-- An asynchronous block with two inputs of single items. -/
def adder : TritonBlock :=
  (TritonBlock.make {} "adder" true true
    [⟨[1, 1], "left", "FP32"⟩, ⟨[1, 1], "right", "FP32"⟩] [⟨[1, 1], "sum", "FP32"⟩]).get (by decide)

/-- Add four items; the client behaves as `outcome` says. -/
def adding (outcome : ClientOutcome) : Inference where
  inBufs := List.replicate 2 ⟨"/in", 4, 4, 0, 128, by decide, by decide⟩
  outBufs := [⟨"/out", 4, 16, 0, 128, by decide, by decide⟩]
  noutputItems := 4
  outcome := outcome
  items := by decide

def addCall (outcome : ClientOutcome) : TritonCall where
  block := adder
  inference := some (adding outcome)
  report := ⟨.ok, fun _ => 4, fun _ => 4, fun _ => 4, fun _ => 4, outcome ≠ .callError⟩
  reported := by
    apply TritonBlock.reported_of_works
    · cases outcome <;> decide +kernel
    · rfl
    · rfl
    · exact fun _ => ⟨rfl, rfl⟩

def addAnswers (outcome : ClientOutcome) : Answers where
  reports := fun _ => [(addCall outcome).report]

private theorem suited_add (outcome : ClientOutcome) :
    Suited (fun _ => [addCall outcome]) (addAnswers outcome) (twoInputs 4 4) := by
  intro p b async present kind
  match p with
  | 0 =>
      cases present
      refine ⟨rfl, fun c member => ?_⟩
      cases List.mem_singleton.mp member
      refine ⟨rfl, fun inference inferred => ?_⟩
      cases inferred
      exact ⟨rfl, by decide⟩
  | p + 1 => cases present

/-- The executor waits for the callback of a rejected call. -/
theorem rejected_inference_kept : ∃ s',
    Step ⟨twoInputs 4 4, false⟩
      (.iterate (addAnswers .callError) fun _ => [addCall .callError]) s' ∧
    s'.waits = true ∧
    FailuresKept (addAnswers .callError) (fun _ => [addCall .callError]) (twoInputs 4 4)
      s'.group := by
  have step : Step ⟨twoInputs 4 4, false⟩
      (.iterate (addAnswers .callError) fun _ => [addCall .callError]) ⟨twoInputs 4 4, true⟩ :=
    .wait (suited_add .callError) rfl rfl
  refine ⟨_, step, rfl,
    (failures_kept_iff _ _ _ (.single step)).mpr ?_ _ List.mem_cons_self _ _ rfl⟩
  intro t member answers calls label p fails
  cases List.mem_singleton.mp member
  cases label
  exact ⟨_, _, rfl, rfl, rfl, Or.inl rfl, rfl⟩

/-- The result of an accepted call carries an error. Its inputs are released and
as many items are published. -/
theorem failed_inference_published : ∃ s',
    Step ⟨twoInputs 4 4, false⟩
      (.iterate (addAnswers .resultError) fun _ => [addCall .resultError]) s' ∧
    InferenceFails (addAnswers .resultError) (fun _ => [addCall .resultError]) (twoInputs 4 4) 0 ∧
    s'.group.ledger.released (0, 0) = 4 ∧ s'.group.ledger.published 2 = 4 ∧
    ¬ FailuresKept (addAnswers .resultError) (fun _ => [addCall .resultError]) (twoInputs 4 4)
      s'.group := by
  have fails : InferenceFails (addAnswers .resultError) (fun _ => [addCall .resultError])
      (twoInputs 4 4) 0 :=
    ⟨rfl, _, _, _, _, rfl, rfl, rfl, rfl, rfl, by decide⟩
  refine ⟨_, .iterate (suited_add .resultError) rfl, fails, rfl, rfl, fun kept => ?_⟩
  have moved := (kept 0 fails).2 0
  exact absurd moved (by decide)

end Stage

end TorchDsp
