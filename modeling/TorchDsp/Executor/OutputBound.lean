import Mathlib.Data.List.Nodup
import TorchDsp.Executor.Steps

/-! # The output counts and what is published

The output check looks at the last block only, and every output port of every
block is handed the count of that block's first port. The counts fit the buffers
exactly when this one count does, and blocks that produce no more than they are
handed then publish only what their buffers have room for
(`TorchDsp.GraphExecutor.handed_outputs_fit_iff`).
-/

namespace TorchDsp

namespace GraphExecutor

/-- Every buffer that the block at position `p` writes has room for the count
handed to the outputs. -/
def OutputsFit (g : Group) (p : Nat) : Prop :=
  ∀ i k, g.outputBuffer p i = some k → g.handedOutput ≤ g.spaceAvailable k

private theorem placed_fits_iff {answers : Answers} {g : Group} {p : Nat} {wio : Block}
    (made : .placed p wio ∈ eventsOf (runOneIteration answers g)) :
    (∀ w ∈ wio.outputs, ∀ k, w.bufp = some k → w.nItems ≤ g.spaceAvailable k) ↔
      OutputsFit g p := by
  have placement := placed_iteration made
  constructor
  · intro fits i k attached
    rw [← placement.buffer] at attached
    obtain ⟨w, listed, buffered⟩ := Option.bind_eq_some_iff.mp attached
    have member := List.mem_of_getElem? listed
    rw [← placement.outputs w member]
    exact fits w member k buffered
  · intro fits w member k buffered
    obtain ⟨i, listed⟩ := List.mem_iff_getElem?.mp member
    rw [placement.outputs w member]
    apply fits i k
    rw [← placement.buffer, listed, Option.bind_some, buffered]

/-- A buffer that the group writes belongs to an output port of one of its blocks. -/
theorem outputBuffer_of_mem {g : Group} {k : Nat} (written : k ∈ outputBuffers g.blocks) :
    ∃ p i, g.outputBuffer p i = some k := by
  obtain ⟨b, member, inside⟩ := List.mem_flatMap.mp written
  obtain ⟨w, listed, buffered⟩ := List.mem_filterMap.mp inside
  obtain ⟨p, present⟩ := List.mem_iff_getElem?.mp member
  obtain ⟨i, port⟩ := List.mem_iff_getElem?.mp listed
  refine ⟨p, i, ?_⟩
  rw [Group.outputBuffer, Group.output, present, Option.bind_some, port, Option.bind_some, buffered]

/-- An iteration whose outputs fit publishes no more than there is room for. -/
theorem published_le_space {answers : Answers} {g : Group} {iteration : Iteration}
    (returns : runOneIteration answers g = .ok iteration) (reaches : passes answers g = true)
    (idle : g.Idle) (separate : (outputBuffers g.blocks).Nodup) (writes : WritesWithin answers g)
    (fits : ∀ p, OutputsFit g p) (k : Nat) : answers.published g k ≤ g.spaceAvailable k := by
  unfold Answers.published
  by_cases written : k ∈ outputBuffers g.blocks
  · obtain ⟨p, i, attached⟩ := outputBuffer_of_mem written
    rw [List.count_eq_one_of_mem separate written, Nat.mul_one]
    exact Nat.le_trans (lastProduced_le_handed returns reaches idle writes) (fits p i k attached)
  · rw [List.count_eq_zero_of_not_mem written, Nat.mul_zero]
    exact Nat.zero_le _

/-- **Output counts and publications.** The count placed on every output port of
a block fits the buffer of that port exactly when the count of the last block's
first port does. In a run whose iterations that run their blocks have room for
that count in every buffer, and whose blocks produce at most what they are
handed, an iteration never publishes more than a buffer has room for. -/
theorem handed_outputs_fit_iff (g : Group) :
    (∀ answers p wio, .placed p wio ∈ eventsOf (runOneIteration answers g) →
      ((∀ w ∈ wio.outputs, ∀ k, w.bufp = some k → w.nItems ≤ g.spaceAvailable k) ↔
        OutputsFit g p)) ∧
    ∀ taken g', Transition.Run Group.Step g taken g' → g.Idle →
      (outputBuffers g.blocks).Nodup →
      (∀ t ∈ taken, ∀ answers, t.label = .iterate answers → WritesWithin answers t.source ∧
        (passes answers t.source = true → ∀ p, OutputsFit t.source p)) →
      ∀ t ∈ taken, ∀ answers, t.label = .iterate answers → ∀ k,
        t.target.ledger.published k ≤ t.source.ledger.published k + t.source.spaceAvailable k := by
  refine ⟨fun answers p wio made => placed_fits_iff made, ?_⟩
  intro taken g' run idle separate meets t member answers label k
  have along := run.invariant
    (fun g => g.Idle ∧ (outputBuffers g.blocks).Nodup) ⟨idle, separate⟩
    fun t _ step holds => ⟨step.idle holds.1, by
      rw [outputBuffers_of_shape step.shape]
      exact holds.2⟩
  obtain ⟨idle, separate⟩ := (along.2 t member).1
  obtain ⟨writes, fits⟩ := meets t member answers label
  have step := run.step_of_mem t member
  obtain ⟨source, move, target⟩ := t
  cases label
  cases step with
  | @iterate answers iteration returns =>
      cases reaches : passes answers source with
      | false =>
          rw [ledger_of_blocked returns reaches]
          exact Nat.le_add_right _ _
      | true =>
          rw [ledger_of_passes returns reaches, Ledger.published_post]
          apply Nat.add_le_add_left
          exact published_le_space returns reaches idle separate writes (fits reaches) k

/-- Where every buffer has room for sixteen items, an iteration of four items
stays within them. -/
theorem roomy_chain_published :
    (∃ wio, .placed 0 wio ∈ eventsOf (runOneIteration (moving 4) (twoBlocks 4 16)) ∧
      ∀ w ∈ wio.outputs, ∀ k, w.bufp = some k → w.nItems ≤ (twoBlocks 4 16).spaceAvailable k) ∧
    ∃ g', Transition.Run Group.Step (twoBlocks 4 16)
      [⟨twoBlocks 4 16, .iterate (moving 4), g'⟩] g' ∧
      ∀ k, g'.ledger.published k ≤
        (twoBlocks 4 16).ledger.published k + (twoBlocks 4 16).spaceAvailable k := by
  have fits (p : Nat) : OutputsFit (twoBlocks 4 16) p := by
    intro i k attached
    match p, i with
    | 0, 0 | 1, 0 => cases attached; exact Nat.le_refl 16
    | 0, i + 1 | 1, i + 1 | p + 2, i => cases attached
  obtain ⟨wio, made⟩ : ∃ wio, .placed 0 wio ∈
      eventsOf (runOneIteration (moving 4) (twoBlocks 4 16)) := ⟨_, List.Mem.head _⟩
  refine ⟨⟨wio, made, ((handed_outputs_fit_iff _).1 _ _ _ made).2 (fits 0)⟩, ?_⟩
  have run := Transition.Run.single (@Group.Step.iterate (twoBlocks 4 16) (moving 4) _ rfl)
  refine ⟨_, run, (handed_outputs_fit_iff _).2 _ _ run ?_ ?_ ?_ _ List.mem_cons_self _ rfl⟩
  · exact idle_of_plain (by decide)
  · decide
  · intro t member answers label
    cases List.mem_singleton.mp member
    cases label
    exact ⟨writesWithin_moving (by decide), fun _ => fits⟩

/-- An inner buffer with room for four items: its writer is handed eight, all
of which are published. -/
theorem inner_buffer_overrun :
    ∃ wio iteration, .placed 0 wio ∈ eventsOf (runOneIteration (moving 8) (twoBlocks 8 4)) ∧
      (∃ w ∈ wio.outputs, ∃ k, w.bufp = some k ∧ (twoBlocks 8 4).spaceAvailable k < w.nItems) ∧
      runOneIteration (moving 8) (twoBlocks 8 4) = .ok iteration ∧
      WritesWithin (moving 8) (twoBlocks 8 4) ∧
      (twoBlocks 8 4).ledger.published 1 + (twoBlocks 8 4).spaceAvailable 1 <
        iteration.group.ledger.published 1 :=
  ⟨_, _, List.Mem.head _, ⟨_, List.Mem.head _, _, rfl, by decide⟩, rfl,
    writesWithin_moving (by decide), by decide⟩

end GraphExecutor

end TorchDsp
