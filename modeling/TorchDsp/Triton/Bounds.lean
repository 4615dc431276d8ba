import TorchDsp.Triton.Request

/-! # Ports, tensors and their indices

`work` reads two input ports and one output port by index, and an inference takes a
buffer for every tensor of the model and overrides the first dimension of every
input. All of these accesses are in bounds when the parameters of the block provide
the ports and every input has a dimension
(`TorchDsp.TritonBlock.accesses_in_bounds_iff`).
-/

namespace TorchDsp

/-- An access by index to a list. -/
structure Access where
  index : Nat
  length : Nat
  deriving DecidableEq, Repr

def Access.InBounds (access : Access) : Prop :=
  access.index < access.length

namespace TritonModelImpl

/-- The accesses of `infer_batch_zerocopy`: for each input the dimension it
overrides and the reader, for each output the buffer. -/
def inferAccesses (model : TritonModelImpl) (numIn numOut : Nat) : List Access :=
  (model.inputPtrs.mapIdx fun idx input =>
      [⟨0, input.shape.length⟩, ⟨idx, numIn⟩]).flatten ++
    model.outputPtrs.mapIdx fun idx _ => ⟨idx, numOut⟩

private theorem inferAccesses_inBounds_iff {model : TritonModelImpl} {numIn numOut : Nat} :
    (∀ access ∈ model.inferAccesses numIn numOut, access.InBounds) ↔
      (model.inputPtrs.length ≤ numIn ∧ ∀ input ∈ model.inputPtrs, input.shape ≠ []) ∧
        model.outputPtrs.length ≤ numOut := by
  rw [inferAccesses, List.forall_mem_append]
  apply and_congr
  · constructor
    · intro inside
      have each (idx : Nat) (input : InferInput) (held : model.inputPtrs[idx]? = some input) :
          0 < input.shape.length ∧ idx < numIn := by
        have member : [(⟨0, input.shape.length⟩ : Access), ⟨idx, numIn⟩] ∈
            model.inputPtrs.mapIdx fun idx input =>
              [(⟨0, input.shape.length⟩ : Access), ⟨idx, numIn⟩] := by
          apply @List.mem_of_getElem? _ _ idx _
          rw [List.getElem?_mapIdx, held]
          rfl
        exact ⟨inside _ (List.mem_flatten.mpr ⟨_, member, List.Mem.head _⟩),
          inside _ (List.mem_flatten.mpr ⟨_, member, .tail _ (List.Mem.head _)⟩)⟩
      refine ⟨?_, fun input member => ?_⟩
      · by_contra more
        have held := List.getElem?_eq_getElem (Nat.lt_of_not_le more)
        exact Nat.lt_irrefl _ (each numIn _ held).2
      · obtain ⟨idx, held⟩ := List.mem_iff_getElem?.mp member
        exact List.ne_nil_of_length_pos (each idx input held).1
    · rintro ⟨readers, ranked⟩ access member
      obtain ⟨both, listed, member⟩ := List.mem_flatten.mp member
      obtain ⟨idx, within, rfl⟩ := List.mem_mapIdx.mp listed
      rcases List.mem_cons.mp member with rfl | member
      · exact List.length_pos_of_ne_nil (ranked _ (List.getElem_mem within))
      · cases List.mem_singleton.mp member
        exact Nat.lt_of_lt_of_le within readers
  · constructor
    · intro inside
      by_contra more
      have member : (⟨numOut, numOut⟩ : Access) ∈
          model.outputPtrs.mapIdx fun idx _ => (⟨idx, numOut⟩ : Access) :=
        List.mem_mapIdx.mpr ⟨numOut, Nat.lt_of_not_le more, rfl⟩
      exact Nat.lt_irrefl _ (inside _ member)
    · intro buffers access member
      obtain ⟨idx, within, rfl⟩ := List.mem_mapIdx.mp member
      exact Nat.lt_of_lt_of_le within buffers

end TritonModelImpl

namespace TritonBlock

open TritonModelImpl

/-- The accesses of `work` to the ports of the block. -/
def portAccesses (numIn numOut : Nat) : List Access :=
  [⟨0, numOut⟩, ⟨0, numIn⟩, ⟨1, numIn⟩, ⟨0, numOut⟩]

/-- All accesses of a call of `work`. It infers when it has a number to divide by. -/
def accesses (b : TritonBlock) (numIn numOut : Nat) : List Access :=
  portAccesses numIn numOut ++
    if (numItemsPerBatch b.model).any (· ≠ 0) then b.model.inferAccesses numIn numOut else []

private theorem portAccesses_inBounds_iff {numIn numOut : Nat} :
    (∀ access ∈ portAccesses numIn numOut, access.InBounds) ↔ 2 ≤ numIn ∧ 1 ≤ numOut := by
  simp only [portAccesses, List.forall_mem_cons, Access.InBounds]
  constructor
  · rintro ⟨output, _, input, _⟩
    exact ⟨input, output⟩
  · rintro ⟨inputs, output⟩
    exact ⟨output, by omega, inputs, output, fun access absurd => (List.not_mem_nil absurd).elim⟩

/-- A call of `work` returns when its accesses are in bounds and it has a number to
divide by. -/
theorem isSome_work_iff (b : TritonBlock) (inBufs : List BufferTritonReader)
    (outBufs : List BufferTriton) (noutputItems : Nat) (outcome : ClientOutcome) :
    (b.work inBufs outBufs noutputItems outcome).isSome ↔
      (∀ access ∈ b.accesses inBufs.length outBufs.length, access.InBounds) ∧
        (numItemsPerBatch b.model).any (· ≠ 0) = true := by
  rw [accesses, List.forall_mem_append, portAccesses_inBounds_iff]
  constructor
  · intro returns
    obtain ⟨result, worked⟩ := Option.isSome_iff_exists.mp returns
    obtain ⟨output, inputs, batchItems, tensors, requested, perBatch, nonzero, sharesIn, sharesOut,
      _⟩ := work_eq_some worked
    have divides : (numItemsPerBatch b.model).any (· ≠ 0) = true := by
      rw [perBatch, Option.any_some]
      exact decide_eq_true nonzero
    rw [if_pos divides]
    refine ⟨⟨⟨inputs, output⟩, inferAccesses_inBounds_iff.mpr ⟨?_, ?_⟩⟩, divides⟩
    · exact (isSome_shareInputs _ _ _).mp (Option.isSome_iff_exists.mpr ⟨tensors, sharesIn⟩)
    · exact (isSome_shareOutputs _ _).mp (Option.isSome_iff_exists.mpr ⟨requested, sharesOut⟩)
  · rintro ⟨⟨⟨inputs, output⟩, infers⟩, divides⟩
    rw [if_pos divides] at infers
    obtain ⟨readers, buffers⟩ := inferAccesses_inBounds_iff.mp infers
    obtain ⟨batchItems, perBatch, nonzero⟩ := Option.any_eq_true _ _ |>.mp divides
    obtain ⟨tensors, sharesIn⟩ := Option.isSome_iff_exists.mp
      ((isSome_shareInputs (noutputItems / batchItems) _ _).mpr readers)
    obtain ⟨requested, sharesOut⟩ :=
      Option.isSome_iff_exists.mp ((isSome_shareOutputs _ _).mpr buffers)
    have ports : ¬ (decide (outBufs.length < 1) || decide (inBufs.length < 2)) = true := by
      rw [Bool.or_eq_true, decide_eq_true_eq, decide_eq_true_eq]
      omega
    rw [work, if_neg ports, perBatch, Option.bind_eq_bind, Option.bind_some,
      if_neg (of_decide_eq_true nonzero), inferBatchZerocopy, sharesIn, sharesOut]
    rfl

/-- **Which blocks stay in bounds.** -/
theorem accesses_in_bounds_iff {statics : Statics} {modelName : String} {async healthy : Bool}
    {inputs outputs : List IoMetadata} {fresh b : TritonBlock} {calls : List BlockCall}
    (constructed : make statics modelName async healthy inputs outputs = some fresh)
    (history : Transition.follow call fresh calls = some b) (numIn numOut : Nat) :
    (∀ access ∈ b.accesses numIn numOut, access.InBounds) ↔
      2 ≤ numIn ∧ 1 ≤ numOut ∧ (b.outputMultiple ≠ 0 →
        (accepted inputs).length ≤ numIn ∧ (accepted outputs).length ≤ numOut ∧
          ∀ ioMeta ∈ accepted inputs, ioMeta.shape ≠ []) := by
  have keeps := keeps_of_calls history
  have configured := make_spec (make_eq_some constructed).1
  have tensors : b.model.inputPtrs.length = (accepted inputs).length := by
    rw [← keeps.inputs.length_eq, configured.inputPtrs, List.length_map]
  have requested : b.model.outputPtrs.length = (accepted outputs).length := by
    rw [keeps.tensors, configured.outputPtrs, List.length_map]
  have same := keeps.inputs
  rw [configured.inputPtrs, List.forall₂_map_left_iff] at same
  have ranked : (∀ input ∈ b.model.inputPtrs, input.shape ≠ []) ↔
      ∀ ioMeta ∈ accepted inputs, ioMeta.shape ≠ [] :=
    same.forall_mem_congr fun _ _ kept => not_congr kept.ranked
  rw [accesses, List.forall_mem_append, portAccesses_inBounds_iff, and_assoc,
    numItemsPerBatch_of_calls constructed history, Option.any_some]
  refine and_congr_right fun _ => and_congr_right fun _ => ?_
  by_cases zero : b.outputMultiple = 0
  · rw [if_neg (by rw [decide_eq_true_eq]; exact not_not_intro zero)]
    exact iff_of_true (fun access absurd => (List.not_mem_nil absurd).elim)
      fun nonzero => (nonzero zero).elim
  · rw [if_pos (decide_eq_true zero), inferAccesses_inBounds_iff, ranked, tensors, requested]
    constructor
    · rintro ⟨⟨readers, ranks⟩, buffers⟩ _
      exact ⟨readers, buffers, ranks⟩
    · intro enough
      obtain ⟨readers, buffers, ranks⟩ := enough zero
      exact ⟨⟨readers, ranks⟩, buffers⟩

/-- The block of two inputs and one output stays in bounds with as many ports. -/
theorem pair_in_bounds : (pairBlock.accesses 2 1).length = 9 ∧
    ∀ access ∈ pairBlock.accesses 2 1, access.InBounds := by
  have made : make {} "simple" false true pairInputs pairOutputs = some pairBlock :=
    (Option.some_get _).symm
  have history : Transition.follow call pairBlock [] = some pairBlock := rfl
  exact ⟨by decide, (accesses_in_bounds_iff made history 2 1).mpr
    ⟨by decide, by decide, by decide⟩⟩

/-- A model of one input, as `fft_gpu` is. -/
def fftInputs : List IoMetadata := [⟨parseIoShape [-1, 1024], "input__0", "FP32"⟩]

def fftOutputs : List IoMetadata := [⟨parseIoShape [-1, 1024], "output__0", "FP32"⟩]

/-- With the default of one port on each side, `work` reads a second input port. -/
theorem second_port_missing : ∃ fresh,
    make {} "fft_gpu" false true fftInputs fftOutputs = some fresh ∧
      (⟨1, 1⟩ : Access) ∈ fresh.accesses 1 1 ∧
      ¬ ∀ access ∈ fresh.accesses 1 1, access.InBounds := by
  obtain ⟨fresh, made⟩ := Option.isSome_iff_exists.mp
    (show (make {} "fft_gpu" false true fftInputs fftOutputs).isSome from by decide)
  have second : (⟨1, 1⟩ : Access) ∈ fresh.accesses 1 1 :=
    List.mem_append_left _ (.tail _ (.tail _ (List.Mem.head _)))
  exact ⟨fresh, made, second, fun inside => Nat.lt_irrefl 1 (inside _ second)⟩

end TritonBlock

end TorchDsp
