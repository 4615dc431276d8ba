import TorchDsp.Executor.Phases
import TorchDsp.Executor.Steps

/-! # A block between its neighbours

The executor of a group takes its phases one by one, and in between an upstream
block publishes items and a downstream block releases some. In a group of one
block with one input and one output, a phase moves at most one index, so these
interleavings are all that can happen, and nine courses are all that its phases
can take (`TorchDsp.Interleaving.phase_of_resume`).
-/

namespace TorchDsp

open GraphExecutor

/-- A group and the iteration that its executor is in. -/
structure Interleaving where
  group : Group
  point : Point := .start

namespace Interleaving

inductive Turn
  | resume (answers : Answers)
  /-- Another block publishes `n` items into buffer `k`. -/
  | publish (k n : Nat)
  /-- The outside reader `i` of buffer `k` releases `n` items. -/
  | release (k i n : Nat)

/-- The total of an outside reader after it has released `n` more items. -/
def releaseOutside (i n : Nat) (buffer : Buffer) : Buffer :=
  { buffer with outsideReads := buffer.outsideReads.modify i (· + n) }

def next (σ : Interleaving) : Turn → Option Interleaving
  | .resume answers =>
      match resume answers σ.group σ.point with
      | .ok (group, point) => some { group, point }
      | .error _ => none
  | .publish k n =>
      if k ∉ outputBuffers σ.group.blocks ∧ n ≤ σ.group.spaceAvailable k then
        some { σ with group := { σ.group with
          buffers := Function.update σ.group.buffers k (postWrite n (σ.group.buffers k)) } }
      else none
  | .release k i n =>
      match (σ.group.buffers k).outsideReads[i]? with
      | none => none
      | some total =>
          if total + n ≤ (σ.group.buffers k).totalWritten then
            some { σ with group := { σ.group with
              buffers := Function.update σ.group.buffers k
                (releaseOutside i n (σ.group.buffers k)) } }
          else none

def Step (σ : Interleaving) (turn : Turn) (σ' : Interleaving) : Prop :=
  next σ turn = some σ'

/-- What can happen in one turn. -/
inductive Moved (σ : Interleaving) : Turn → Interleaving → Prop
  | resume (answers : Answers) {group : Group} {point : Point}
      (resumes : GraphExecutor.resume answers σ.group σ.point = .ok (group, point)) :
      Moved σ (.resume answers) { group, point }
  | neighbours (turn : Turn) {group : Group} (moved : Neighbours σ.group group) :
      Moved σ turn { σ with group }

/-- Neighbours may change one buffer. -/
theorem neighbours_update {g : Group} {k : Nat} {buffer : Buffer}
    (own : k ∈ outputBuffers g.blocks → buffer.totalWritten = (g.buffers k).totalWritten)
    (grown : (g.buffers k).totalWritten ≤ buffer.totalWritten)
    (limits : buffer.bufSize = (g.buffers k).bufSize ∧
      buffer.maxBufferFill = (g.buffers k).maxBufferFill ∧
      buffer.minBufferFill = (g.buffers k).minBufferFill)
    (outside : List.Forall₂ (· ≤ ·) (g.buffers k).outsideReads buffer.outsideReads) :
    Neighbours g { g with buffers := Function.update g.buffers k buffer } := by
  refine ⟨rfl, fun j member => ?_, fun j => ?_, fun j => ?_, fun j => ?_⟩
  all_goals by_cases same : j = k
  all_goals simp only [Function.update_apply, same, ↓reduceIte]
  · exact own (same ▸ member)
  · exact grown
  · exact Nat.le_refl _
  · exact limits
  · exact ⟨trivial, trivial, trivial⟩
  · exact outside
  · exact List.forall₂_refl _

/-- A reader that moves on keeps all readers from moving back. -/
theorem forall₂_modify (reads : List Nat) (i n : Nat) :
    List.Forall₂ (· ≤ ·) reads (reads.modify i (· + n)) := by
  induction reads generalizing i with
  | nil => cases i <;> exact .nil
  | cons total rest ih =>
      cases i with
      | zero => exact .cons (Nat.le_add_right total n) (List.forall₂_refl rest)
      | succ i => exact .cons (Nat.le_refl total) (ih i)

/-- A step is a phase of the group or a move of its neighbours. -/
theorem Step.moved {σ σ' : Interleaving} {turn : Turn} (step : Step σ turn σ') :
    Moved σ turn σ' := by
  cases turn with
  | resume answers =>
      simp only [Step, next] at step
      split at step <;> cases step
      exact .resume answers (by assumption)
  | publish k n =>
      simp only [Step, next] at step
      split at step <;> cases step
      rename_i room
      exact .neighbours _ (neighbours_update (fun own => (room.1 own).elim)
        (Nat.le_add_right _ _) ⟨rfl, rfl, rfl⟩ (List.forall₂_refl _))
  | release k i n =>
      simp only [Step, next] at step
      split at step
      · cases step
      · split at step <;> cases step
        exact .neighbours _ (neighbours_update (fun _ => rfl) (Nat.le_refl _) ⟨rfl, rfl, rfl⟩
          (forall₂_modify _ i n))

end Interleaving

/-! ## A group of one block -/

/-- The items of a buffer that its slowest reader has not released. -/
def Group.itemsHeld (g : Group) (k : Nat) : Nat :=
  (g.buffers k).totalWritten - (g.readsOf k).foldr min (g.buffers k).totalWritten

/-- The room is what the buffer does not hold. -/
theorem Group.spaceAvailable_eq (g : Group) (k : Nat) :
    g.spaceAvailable k = (g.buffers k).bufSize - g.itemsHeld k :=
  rfl

/-- The group consists of the block `b` only, whose input port `w` has the reader
`r` and whose output port `v` writes the buffer `k`. -/
structure Group.OneBlock (g : Group) (b : Block) (w : BlockWorkInput) (r : BufferReader)
    (v : BlockWorkOutput) (k : Nat) : Prop where
  blocks : g.blocks = [b]
  part : b.isHier = false
  inputs : b.inputs = [w]
  reader : w.bufp = some r
  outputs : b.outputs = [v]
  buffer : v.bufp = some k
  apart : r.source ≠ k

namespace Group.OneBlock

variable {g : Group} {b : Block} {w : BlockWorkInput} {r : BufferReader} {v : BlockWorkOutput}
  {k : Nat}

/-- The one input port. -/
theorem input (one : g.OneBlock b w r v k) : g.input 0 0 = some w := by
  simp [Group.input, one.blocks, one.inputs]

/-- The one output port. -/
theorem output (one : g.OneBlock b w r v k) : g.output 0 0 = some v := by
  simp [Group.output, one.blocks, one.outputs]

/-- The group writes one buffer. -/
theorem outputBuffers (one : g.OneBlock b w r v k) : outputBuffers g.blocks = [k] := by
  simp [GraphExecutor.outputBuffers, Block.writes, one.blocks, one.outputs, one.buffer]

/-- The one reader. -/
theorem readerOf (one : g.OneBlock b w r v k) : g.reader 0 0 = some r := by
  rw [Group.reader, one.input, Option.bind_some, one.reader]

/-- The buffer of the output port. -/
theorem bufferOf (one : g.OneBlock b w r v k) : g.outputBuffer 0 0 = some k := by
  rw [Group.outputBuffer, one.output, Option.bind_some, one.buffer]

/-- Only outside readers read what the block writes. -/
theorem readsOf (one : g.OneBlock b w r v k) : g.readsOf k = (g.buffers k).outsideReads := by
  simp [Group.readsOf, one.blocks, one.inputs, one.reader, one.apart]

/-- The buffer holds what its slowest outside reader has not read. -/
theorem itemsHeld (one : g.OneBlock b w r v k) :
    g.itemsHeld k = (g.buffers k).totalWritten -
      (g.buffers k).outsideReads.foldr min (g.buffers k).totalWritten := by
  rw [Group.itemsHeld, one.readsOf]

/-- What the buffer holds does not depend on the ports. -/
theorem itemsHeld_congr {g' : Group} {b' : Block} {w' : BlockWorkInput} {r' : BufferReader}
    {v' : BlockWorkOutput} (one : g.OneBlock b w r v k) (other : g'.OneBlock b' w' r' v' k)
    (same : g'.buffers = g.buffers) : g'.itemsHeld k = g.itemsHeld k := by
  rw [other.itemsHeld, one.itemsHeld, same]

/-- A count on the input port keeps the group one block. -/
theorem setInput (one : g.OneBlock b w r v k) (n : Nat) :
    Group.OneBlock { g with blocks := [{ b with inputs := [{ w with nItems := n }] }] }
      { b with inputs := [{ w with nItems := n }] } { w with nItems := n } r v k :=
  ⟨rfl, one.part, rfl, one.reader, one.outputs, one.buffer, one.apart⟩

/-- A count on the output port keeps the group one block. -/
theorem setOutput (one : g.OneBlock b w r v k) (n : Nat) :
    Group.OneBlock { g with blocks := [{ b with outputs := [{ v with nItems := n }] }] }
      { b with outputs := [{ v with nItems := n }] } w r { v with nItems := n } k :=
  ⟨rfl, one.part, one.inputs, one.reader, rfl, one.buffer, one.apart⟩

/-- A report keeps the group one block. -/
theorem report (one : g.OneBlock b w r v k) (report : WorkReport) :
    Group.OneBlock { g with blocks := [b.report report] } (b.report report)
      { w with nItems := report.inputItems 0, nConsumed := report.consumed 0 } r
      { v with nItems := report.outputItems 0, nProduced := report.produced 0 } k :=
  ⟨rfl, one.part, by simp [Block.report, one.inputs], one.reader,
    by simp [Block.report, one.outputs], one.buffer, one.apart⟩

/-- Consuming moves the reader and keeps the group one block. -/
theorem postReads (one : g.OneBlock b w r v k) :
    Group.OneBlock { g with blocks := [GraphExecutor.postReads b] } (GraphExecutor.postReads b)
      (postRead w) { r with totalRead := r.totalRead + w.nConsumed } v k :=
  ⟨rfl, one.part, by simp [GraphExecutor.postReads, one.inputs], by simp [postRead, one.reader],
    one.outputs, one.buffer, one.apart⟩

/-- The group is one block whatever its buffers are. -/
theorem ofBlocks {g' : Group} (one : g.OneBlock b w r v k) (same : g'.blocks = g.blocks) :
    g'.OneBlock b w r v k :=
  ⟨same.trans one.blocks, one.part, one.inputs, one.reader, one.outputs, one.buffer, one.apart⟩

/-- Other totals keep the group one block. -/
theorem setBuffers (one : g.OneBlock b w r v k) (buffers : Nat → Buffer) :
    Group.OneBlock { g with buffers } b w r v k :=
  one.ofBlocks rfl

end Group.OneBlock

namespace Interleaving

/-- One phase of a group of one block. -/
inductive Phase (answers : Answers) (g : Group) (b : Block) (w : BlockWorkInput)
    (r : BufferReader) (v : BlockWorkOutput) (k : Nat) : Point → Group → Point → Prop
  | inputBlocked (status : ExecutorIterationStatus) (events : List Event) :
      Phase answers g b w r v k .start g (.returned status events)
  | input : Phase answers g b w r v k .start
      { g with blocks := [{ b with inputs := [{ w with nItems := inputCount g r }] }] }
      .inputsChecked
  | outputBlocked (status : ExecutorIterationStatus) (events : List Event) :
      Phase answers g b w r v k .inputsChecked g (.returned status events)
  | output : Phase answers g b w r v k .inputsChecked
      { g with blocks :=
        [{ b with outputs := [{ v with nItems := outputCount g b.outputMultiple k }] }] }
      .outputsChecked
  | work (report : WorkReport) (l : Loop) (listed : report ∈ answers.reports 0)
      (leaves : report.leaves true = true) :
      Phase answers g b w r v k .outputsChecked { g with blocks := [b.report report] } (.worked l)
  | release (l l' : Loop) :
      Phase answers g b w r v k (.worked l) { g with blocks := [postReads b] } (.released l')
  | publish (l l' : Loop) :
      Phase answers g b w r v k (.released l)
        { g with buffers := Function.update g.buffers k (postWrite v.nProduced (g.buffers k)) }
        (.published l')
  | callbacks (l : Loop) (status : ExecutorIterationStatus) (events : List Event) :
      Phase answers g b w r v k (.published l) g (.returned status events)
  | again (status : ExecutorIterationStatus) (events : List Event) :
      Phase answers g b w r v k (.returned status events) g .start

variable {answers : Answers} {g : Group} {b : Block} {w : BlockWorkInput} {r : BufferReader}
  {v : BlockWorkOutput} {k : Nat}

private theorem checkFirst_one (one : g.OneBlock b w r v k) :
    checkFirst answers g = .ok (
      if inputReady g (answers.readInfo 0) w then
        ({ g with blocks := [{ b with inputs := [{ w with nItems := inputCount g r }] }] }, true)
      else (g, false)) := by
  have port : negotiateInput g w = { w with nItems := inputCount g r } := by
    unfold negotiateInput
    rw [one.reader]
  obtain ⟨all, buffers⟩ := g
  obtain rfl := one.blocks
  simp only [checkFirst, one.inputs, checkInputs, port]
  by_cases ready : inputReady { blocks := [b], buffers } (answers.readInfo 0) w = true
  · simp only [ready, ↓reduceIte]
  · simp only [ready, Bool.false_eq_true, ↓reduceIte]
    rw [← one.inputs]

private theorem checkLast_one {g' : Group} {ready : Bool} (one : g.OneBlock b w r v k)
    (checks : checkLast answers g = .ok (g', ready)) :
    (ready = false ∧ g' = g) ∨ ready = true ∧ g' = { g with blocks :=
      [{ b with outputs := [{ v with nItems := outputCount g b.outputMultiple k }] }] } := by
  have port : negotiateOutput g b.outputMultiple v =
      { v with nItems := outputCount g b.outputMultiple k } := by
    unfold negotiateOutput
    rw [one.buffer]
  obtain ⟨all, buffers⟩ := g
  obtain rfl := one.blocks
  simp only [checkLast, List.getLast?_singleton, one.outputs] at checks
  obtain ⟨⟨ports, passes⟩, outputs, checks⟩ := Except.bind_eq_ok checks
  cases checks
  rcases checkOutputs_cons outputs with ⟨_, rfl, rfl⟩ | ⟨_, others, last, rfl⟩
  · left
    refine ⟨rfl, ?_⟩
    rw [← one.outputs]
    rfl
  · cases last
    right
    rw [port]
    exact ⟨rfl, rfl⟩

/-- Every phase of the executor is one of the phases of a group of one block. -/
theorem phase_of_resume {g' : Group} {point point' : Point} (one : g.OneBlock b w r v k)
    (resumes : resume answers g point = .ok (g', point')) :
    Phase answers g b w r v k point g' point' := by
  cases point with
  | start =>
      simp only [resume, checkFirst_one one] at resumes
      split at resumes
      · cases resumes
        exact .input
      · cases resumes
        exact .inputBlocked _ _
  | inputsChecked =>
      obtain ⟨⟨checked, ready⟩, checks, onward⟩ := Except.bind_eq_ok resumes
      rcases checkLast_one one (Except.mapError_eq_ok checks) with ⟨rfl, rfl⟩ | ⟨rfl, rfl⟩
      · obtain ⟨events, _, ends⟩ := Except.bind_eq_ok onward
        cases ends
        exact .outputBlocked _ _
      · cases onward
        exact .output
  | outputsChecked =>
      obtain ⟨⟨blocks, l⟩, runs, ends⟩ := Except.bind_eq_ok resumes
      cases ends
      rw [one.blocks] at runs
      rcases workLoop_cons runs with ⟨hier, _⟩ | ⟨_, _, _, report, _, last, _, _, runs⟩
      · rw [one.part] at hier
        cases hier
      · cases runs
        have found : (answers.reports 0).find? (WorkReport.leaves true) = some report := last
        exact .work report _ (List.mem_of_find?_eq_some found) (List.find?_some found)
  | worked l =>
      obtain ⟨⟨posted, events⟩, releases, ends⟩ := Except.bind_eq_ok resumes
      cases ends
      obtain ⟨_, _, releases⟩ := Except.bind_eq_ok releases
      cases releases
      rw [one.blocks]
      exact .release l _
  | released l =>
      obtain ⟨⟨posted, events⟩, publishes, ends⟩ := Except.bind_eq_ok resumes
      cases ends
      obtain ⟨port, last, publishes⟩ := Except.bind_eq_ok publishes
      cases publishes
      have port := lastOutput_eq_ok.mp (Except.mapError_eq_ok last)
      rw [one.blocks, List.getLast?_singleton, Option.bind_some, one.outputs] at port
      cases port
      rw [one.outputBuffers]
      exact .publish l _
  | published l =>
      obtain ⟨events, _, ends⟩ := Except.bind_eq_ok resumes
      cases ends
      exact .callbacks l _ _
  | returned status events =>
      cases resumes
      exact .again status events

end Interleaving

end TorchDsp
