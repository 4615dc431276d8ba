import TorchDsp.Executor.OutputCheck
import TorchDsp.Triton.Request

/-! # Counts and output multiples

The output count is rounded to the multiple of the last block alone and handed to
every block. A block with another multiple is handed whole batches exactly when
its multiple divides the count that the last block can take
(`TorchDsp.GraphExecutor.placed_whole_iff`); otherwise its `work` publishes items
that no batch has computed.
-/

namespace TorchDsp

/-- The number of items in a batch of a block; without an output multiple, one. -/
def Block.multiple (b : Block) : Nat :=
  b.outputMultiple.getD 1

/-- The count `n` that a group offers to its outputs: the largest multiple of the
last block's output multiple with room in the first buffer it writes. A port without
buffer offers the count it has. -/
def Group.Offers (g : Group) (n : Nat) : Prop :=
  ∃ last w, g.blocks.getLast? = some last ∧ last.outputs.head? = some w ∧
    match w.bufp with
    | none => n = w.nItems
    | some k => IsGreatest {count | last.multiple % 2 ^ 32 ∣ count ∧
        count ≤ g.spaceAvailable k ∧ count ≤ intMax ∧
        (0 < (g.buffers k).maxBufferFill → count ≤ (g.buffers k).maxBufferFill)} n

namespace TritonBlock

/-- What a call of `work` computes: a batch at least, and every item that it
publishes. -/
structure ComputesAll (b : TritonBlock) (noutputItems : Nat) (result : WorkResult) : Prop where
  perBatch : numItemsPerBatch b.model = some b.outputMultiple
  batch : 1 ≤ noutputItems / b.outputMultiple
  computed : noutputItems / b.outputMultiple * b.outputMultiple = result.produced

/-- A constructed block, after any calls. -/
def Constructed (b : TritonBlock) : Prop :=
  ∃ statics modelName async healthy inputs outputs fresh calls,
    make statics modelName async healthy inputs outputs = some fresh ∧
      Transition.follow call fresh calls = some b

end TritonBlock

namespace GraphExecutor

/-- Every output port of a block is handed a positive multiple of the block's own
output multiple, and a `triton_block` with this multiple computes all it publishes. -/
structure HandedWhole (b wio : Block) : Prop where
  counts : ∀ w ∈ wio.outputs, 0 < w.nItems ∧ b.multiple ∣ w.nItems
  batches : ∀ w ∈ wio.outputs, ∀ triton : TritonBlock, triton.Constructed →
    b.outputMultiple = some triton.outputMultiple → ∀ inBufs outBufs outcome result,
      triton.work inBufs outBufs w.nItems outcome = some result →
        triton.ComputesAll w.nItems result

private theorem offeredOutput_eq_outputCount (g : Group) (multiple : Option Nat)
    {w : BlockWorkOutput} {k : Nat} (buffered : w.bufp = some k) :
    g.offeredOutput multiple w = outputCount g multiple k := by
  rw [← nItems_negotiateOutput, negotiateOutput]
  simp only [buffered]

/-- The check places the largest multiple with room. -/
theorem isGreatest_outputCount (g : Group) (multiple : Option Nat) (k : Nat) :
    IsGreatest {count | multiple.getD 1 % 2 ^ 32 ∣ count ∧ count ≤ g.spaceAvailable k ∧
      count ≤ intMax ∧ (0 < (g.buffers k).maxBufferFill → count ≤ (g.buffers k).maxBufferFill)}
      (outputCount g multiple k) := by
  refine ⟨⟨dvd_outputCount g multiple k, le_outputRoom_iff.mp ?_⟩, ?_⟩
  · rw [outputCount_eq_roundDown]
    exact roundDown_le _ _
  · intro count ⟨divides, room⟩
    rw [outputCount_eq_roundDown]
    exact le_roundDown divides (le_outputRoom_iff.mpr room) (outputRoom_le_intMax g k)

/-- What the group offers is what its blocks are handed. -/
theorem offers_iff {g : Group} {n : Nat} : g.Offers n ↔
    (∃ last w, g.blocks.getLast? = some last ∧ last.outputs.head? = some w) ∧
      n = g.handedOutput := by
  have port {last : Block} {w : BlockWorkOutput} (atEnd : g.blocks.getLast? = some last)
      (first : last.outputs.head? = some w) :
      g.handedOutput = g.offeredOutput last.outputMultiple w := by
    rw [Group.handedOutput, atEnd, Option.elim_some, first, Option.elim_some]
  constructor
  · rintro ⟨last, w, atEnd, first, offered⟩
    refine ⟨⟨last, w, atEnd, first⟩, ?_⟩
    rw [port atEnd first]
    cases buffered : w.bufp with
    | none =>
        rw [buffered] at offered
        rw [Group.offeredOutput, buffered, Option.elim_none, offered]
    | some k =>
        rw [buffered] at offered
        rw [offeredOutput_eq_outputCount g _ buffered]
        have greatest := isGreatest_outputCount g last.outputMultiple k
        exact Nat.le_antisymm (greatest.2 offered.1) (offered.2 greatest.1)
  · rintro ⟨⟨last, w, atEnd, first⟩, rfl⟩
    refine ⟨last, w, atEnd, first, ?_⟩
    rw [port atEnd first]
    cases buffered : w.bufp with
    | none => rw [Group.offeredOutput, buffered, Option.elim_none]
    | some k =>
        rw [offeredOutput_eq_outputCount g _ buffered]
        exact isGreatest_outputCount g last.outputMultiple k

private theorem port_of_handedOutput_pos {g : Group} (positive : 0 < g.handedOutput) :
    ∃ last w, g.blocks.getLast? = some last ∧ last.outputs.head? = some w := by
  unfold Group.handedOutput at positive
  cases atEnd : g.blocks.getLast? with
  | none => rw [atEnd] at positive; cases positive
  | some last =>
      rw [atEnd, Option.elim_some] at positive
      cases first : last.outputs.head? with
      | none => rw [first] at positive; cases positive
      | some w => exact ⟨last, w, rfl, first⟩

/-- **When a block is handed whole batches.** -/
theorem placed_whole_iff (answers : Answers) (g : Group) (p : Nat) (b wio : Block)
    (present : g.blocks[p]? = some b)
    (made : .placed p wio ∈ eventsOf (runOneIteration answers g)) :
    HandedWhole b wio ↔
      (b.outputs ≠ [] → ∃ n, g.Offers n ∧ 0 < n ∧ b.multiple ∣ n) := by
  have placement := placed_iteration made
  have ports : wio.outputs.length = b.outputs.length := by
    have buffers : wio.outputs.map BlockWorkOutput.bufp = b.outputs.map BlockWorkOutput.bufp := by
      apply List.ext_getElem?
      intro i
      rw [List.getElem?_map, List.getElem?_map, placement.buffers, Group.output, present,
        Option.bind_some]
    have lengths := congrArg List.length buffers
    rwa [List.length_map, List.length_map] at lengths
  constructor
  · intro whole outputs
    obtain ⟨w, member⟩ := List.exists_mem_of_ne_nil wio.outputs fun none => by
      rw [none] at ports
      exact outputs (List.length_eq_zero_iff.mp ports.symm)
    obtain ⟨positive, divides⟩ := whole.counts w member
    rw [placement.outputs w member] at positive divides
    exact ⟨g.handedOutput, offers_iff.mpr ⟨port_of_handedOutput_pos positive, rfl⟩, positive,
      divides⟩
  · intro whole
    have counts (w : BlockWorkOutput) (member : w ∈ wio.outputs) :
        0 < w.nItems ∧ b.multiple ∣ w.nItems := by
      obtain ⟨n, offered, positive, divides⟩ := whole fun none => by
        rw [none, List.length_nil] at ports
        rw [List.length_eq_zero_iff.mp ports] at member
        cases member
      rw [placement.outputs w member, ← (offers_iff.mp offered).2]
      exact ⟨positive, divides⟩
    refine ⟨counts, fun w member triton constructed multiple inBufs outBufs outcome result worked =>
      ?_⟩
    obtain ⟨positive, divides⟩ := counts w member
    obtain ⟨_, _, _, _, _, _, fresh, _, made, history⟩ := constructed
    have perBatch := TritonBlock.numItemsPerBatch_of_calls made history
    obtain ⟨_, _, batchItems, _, _, found, nonzero, _, _, rfl⟩ := TritonBlock.work_eq_some worked
    rw [perBatch] at found
    cases found
    have same : b.multiple = triton.outputMultiple := by
      rw [Block.multiple, multiple, Option.getD_some]
    rw [same] at divides
    refine ⟨perBatch, ?_, Nat.div_mul_cancel divides⟩
    exact Nat.div_pos (Nat.le_of_dvd positive divides) (Nat.pos_of_ne_zero nonzero)

/-- A chain of two blocks with the given output multiples and eight items. -/
def twoMultiples (first last : Nat) : Group where
  blocks := [{ kind := .triton true, outputMultiple := some first
               inputs := [{ bufp := some ⟨0, 0, 0, 0⟩ }], outputs := [{ bufp := some 1 }] },
             { kind := .triton true, outputMultiple := some last
               inputs := [{ bufp := some ⟨1, 0, 0, 0⟩ }], outputs := [{ bufp := some 2 }] }]
  buffers := fun k => { bufSize := 8, totalWritten := if k = 0 then 8 else 0 }

/-- A first block with batches of two gets the six items that the last block can
take in batches of three. -/
theorem two_divides_six :
    ∃ b wio, .placed 0 wio ∈ eventsOf (runOneIteration (moving 6) (twoMultiples 2 3)) ∧
      HandedWhole b wio ∧ b.multiple = 2 ∧ wio.outputs.map BlockWorkOutput.nItems = [6] := by
  obtain ⟨wio, made, handed⟩ : ∃ wio,
      .placed 0 wio ∈ eventsOf (runOneIteration (moving 6) (twoMultiples 2 3)) ∧
        wio.outputs.map BlockWorkOutput.nItems = [6] := ⟨_, List.Mem.head _, rfl⟩
  refine ⟨_, wio, made, (placed_whole_iff _ _ 0 _ wio rfl made).mpr fun _ => ?_, rfl, handed⟩
  exact ⟨6, offers_iff.mpr ⟨⟨_, _, rfl, rfl⟩, rfl⟩, by decide, by decide⟩

/-- A first block with batches of four gets six items, too: its call of `work`
computes one batch and publishes six items. -/
theorem four_of_six_computed :
    ∃ b wio w, (twoMultiples 4 3).blocks[0]? = some b ∧ b.multiple = 4 ∧
      .placed 0 wio ∈ eventsOf (runOneIteration (moving 6) (twoMultiples 4 3)) ∧
      w ∈ wio.outputs ∧ w.nItems = 6 ∧ w.nItems / b.multiple * b.multiple = 4 ∧
      ¬ HandedWhole b wio := by
  refine ⟨_, _, _, rfl, rfl, List.Mem.head _, List.Mem.head _, rfl, rfl, fun whole => ?_⟩
  have divides := (whole.counts _ (List.Mem.head _)).2
  revert divides
  decide

end GraphExecutor

end TorchDsp
