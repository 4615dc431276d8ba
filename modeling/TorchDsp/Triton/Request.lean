import Mathlib.Algebra.BigOperators.Group.List.Basic
import Mathlib.Algebra.Ring.Int.Defs
import Mathlib.Data.List.TakeWhile
import TorchDsp.Foundation.Loop
import TorchDsp.Foundation.Run
import TorchDsp.Triton.Model

/-! # The requests a block builds

The shape of a request comes from the batch size of the call, its byte sizes from
the fill of the buffers. They agree exactly when every reader holds the items of
the whole batch and no more, and every output buffer has room for its tensor of
the batch (`TorchDsp.TritonBlock.request_consistent_iff`).
-/

namespace TorchDsp

namespace TritonModelImpl

/-! ## What a constructed model keeps -/

/-- The listed tensors up to the first one without bytes. -/
def accepted (listed : List IoMetadata) : List IoMetadata :=
  listed.takeWhile fun ioMeta => elementByteSize ioMeta ≠ 0

private theorem itemsize_pos_of_mem_accepted {listed : List IoMetadata} {ioMeta : IoMetadata}
    (member : ioMeta ∈ accepted listed) : 0 < itemsize ioMeta.datatype := by
  have bytes := List.mem_takeWhile_imp member
  rw [decide_eq_true_eq, elementByteSize] at bytes
  apply Nat.pos_of_ne_zero
  intro none
  rw [none, Nat.mul_zero] at bytes
  exact bytes rfl

/-- A tensor with bytes is taken in. -/
theorem accepted_cons_of_bytes {ioMeta : IoMetadata} (rest : List IoMetadata)
    (bytes : elementByteSize ioMeta ≠ 0) :
    accepted (ioMeta :: rest) = ioMeta :: accepted rest :=
  List.takeWhile_cons_of_pos (decide_eq_true bytes)

/-- A tensor without bytes ends the loop. -/
theorem accepted_cons_of_no_bytes {ioMeta : IoMetadata} (rest : List IoMetadata)
    (empty : elementByteSize ioMeta = 0) : accepted (ioMeta :: rest) = [] :=
  List.takeWhile_cons_of_neg fun bytes => of_decide_eq_true bytes empty

/-- The tensor object created for a listed input. -/
def inputOf (ioMeta : IoMetadata) : InferInput :=
  ⟨ioMeta.name, ioMeta.shape, ioMeta.datatype, none⟩

/-- The object created for a listed output. -/
def outputOf (ioMeta : IoMetadata) : InferRequestedOutput :=
  ⟨ioMeta.name, none⟩

/-- The sizes that a model keeps of its tensors: of an item, and of all elements. -/
def keptSizes (memories : List IoMemory) : List (Nat × Nat) :=
  memories.map fun memory => (memory.itemSize, memory.elementByteSize)

def listedSizes (listed : List IoMetadata) : List (Nat × Nat) :=
  listed.map fun ioMeta => (itemsize ioMeta.datatype, elementByteSize ioMeta)

/-- A loop of the constructor: it takes in the listed tensors one after the other and
ends at the first one without bytes. -/
structure Configures
    (loop : Statics → TritonModelImpl → List IoMetadata → TritonModelImpl × Statics)
    (take : Statics → TritonModelImpl → IoMetadata → TritonModelImpl × Statics) : Prop where
  ends : ∀ statics model, loop statics model [] = (model, statics)
  stops : ∀ statics model ioMeta rest, elementByteSize ioMeta = 0 →
    loop statics model (ioMeta :: rest) = (model, (allocateShm statics ioMeta).2)
  goes : ∀ statics model ioMeta rest, elementByteSize ioMeta ≠ 0 →
    loop statics model (ioMeta :: rest) =
      loop (take statics model ioMeta).2 (take statics model ioMeta).1 rest

def takeInput (statics : Statics) (model : TritonModelImpl) (ioMeta : IoMetadata) :
    TritonModelImpl × Statics :=
  createTritonInput (allocateShm statics ioMeta).2
    { model with inputs := model.inputs ++ [(allocateShm statics ioMeta).1] } ioMeta

def takeOutput (statics : Statics) (model : TritonModelImpl) (ioMeta : IoMetadata) :
    TritonModelImpl × Statics :=
  createTritonOutput (allocateShm statics ioMeta).2
    { model with outputs := model.outputs ++ [(allocateShm statics ioMeta).1] } ioMeta

/-- The loop over the inputs takes them in one after the other. -/
theorem configures_inputs : Configures configureInputs takeInput :=
  ⟨fun _ _ => rfl, fun _ _ _ _ empty => if_pos empty, fun _ _ _ _ bytes => if_neg bytes⟩

/-- The loop over the outputs takes them in one after the other. -/
theorem configures_outputs : Configures configureOutputs takeOutput :=
  ⟨fun _ _ => rfl, fun _ _ _ _ empty => if_pos empty, fun _ _ _ _ bytes => if_neg bytes⟩

section Configures

variable {loop : Statics → TritonModelImpl → List IoMetadata → TritonModelImpl × Statics}
  {take : Statics → TritonModelImpl → IoMetadata → TritonModelImpl × Statics}

/-- What no tensor touches stays as it is. -/
theorem Configures.keeps (configures : Configures loop take) {γ : Type}
    (part : TritonModelImpl → γ)
    (kept : ∀ statics model ioMeta, part (take statics model ioMeta).1 = part model)
    (statics : Statics) (model : TritonModelImpl) (listed : List IoMetadata) :
    part (loop statics model listed).1 = part model := by
  induction listed generalizing statics model with
  | nil => rw [configures.ends]
  | cons ioMeta rest ih =>
      by_cases empty : elementByteSize ioMeta = 0
      · rw [configures.stops _ _ _ _ empty]
      · rw [configures.goes _ _ _ _ empty, ih, kept]

/-- A list that every tensor adds an entry to has an entry for each accepted one. -/
theorem Configures.grows (configures : Configures loop take) {γ : Type}
    (part : TritonModelImpl → List γ) (entry : IoMetadata → γ → Prop)
    (added : ∀ statics model ioMeta, ∃ value, entry ioMeta value ∧
      part (take statics model ioMeta).1 = part model ++ [value])
    (statics : Statics) (model : TritonModelImpl) (listed : List IoMetadata) :
    ∃ values, List.Forall₂ entry (accepted listed) values ∧
      part (loop statics model listed).1 = part model ++ values := by
  induction listed generalizing statics model with
  | nil =>
      rw [configures.ends]
      exact ⟨[], .nil, (List.append_nil _).symm⟩
  | cons ioMeta rest ih =>
      by_cases empty : elementByteSize ioMeta = 0
      · rw [configures.stops _ _ _ _ empty, accepted_cons_of_no_bytes rest empty]
        exact ⟨[], .nil, (List.append_nil _).symm⟩
      · rw [configures.goes _ _ _ _ empty, accepted_cons_of_bytes rest empty]
        obtain ⟨value, describes, first⟩ := added statics model ioMeta
        obtain ⟨values, each, whole⟩ :=
          ih (take statics model ioMeta).2 (take statics model ioMeta).1
        refine ⟨value :: values, .cons describes each, ?_⟩
        rw [whole, first, List.append_assoc, List.singleton_append]

/-- A loop that takes in tensors appends the entry of each to every list that grows with them. -/
theorem Configures.extends (configures : Configures loop take) {γ : Type}
    (part : TritonModelImpl → List γ) (entry : IoMetadata → γ)
    (added : ∀ statics model ioMeta,
      part (take statics model ioMeta).1 = part model ++ [entry ioMeta])
    (statics : Statics) (model : TritonModelImpl) (listed : List IoMetadata) :
    part (loop statics model listed).1 = part model ++ (accepted listed).map entry := by
  obtain ⟨values, each, whole⟩ := configures.grows part (fun ioMeta value => entry ioMeta = value)
    (fun statics model ioMeta => ⟨_, rfl, added statics model ioMeta⟩) statics model listed
  have same : List.Forall₂ Eq ((accepted listed).map entry) values :=
    List.forall₂_map_left_iff.mpr each
  rw [List.forall₂_eq_eq_eq] at same
  rw [whole, same]

end Configures

/-- The loop over the inputs appends the accepted ones and leaves the outputs. -/
theorem configureInputs_spec (statics : Statics) (model : TritonModelImpl)
    (listed : List IoMetadata) :
    keptSizes (configureInputs statics model listed).1.inputs =
        keptSizes model.inputs ++ listedSizes (accepted listed) ∧
      (configureInputs statics model listed).1.inputPtrs =
        model.inputPtrs ++ (accepted listed).map inputOf ∧
      (configureInputs statics model listed).1.outputs = model.outputs ∧
      (configureInputs statics model listed).1.outputPtrs = model.outputPtrs :=
  ⟨configures_inputs.extends (fun model => keptSizes model.inputs)
      (fun ioMeta => (itemsize ioMeta.datatype, elementByteSize ioMeta))
      (fun _ _ _ => List.map_append) statics model listed,
    configures_inputs.extends TritonModelImpl.inputPtrs inputOf (fun _ _ _ => rfl) statics model
      listed,
    configures_inputs.keeps TritonModelImpl.outputs (fun _ _ _ => rfl) statics model listed,
    configures_inputs.keeps TritonModelImpl.outputPtrs (fun _ _ _ => rfl) statics model listed⟩

/-- The loop over the outputs appends the accepted ones and leaves the inputs. -/
theorem configureOutputs_spec (statics : Statics) (model : TritonModelImpl)
    (listed : List IoMetadata) :
    keptSizes (configureOutputs statics model listed).1.outputs =
        keptSizes model.outputs ++ listedSizes (accepted listed) ∧
      (configureOutputs statics model listed).1.outputPtrs =
        model.outputPtrs ++ (accepted listed).map outputOf ∧
      (configureOutputs statics model listed).1.inputs = model.inputs ∧
      (configureOutputs statics model listed).1.inputPtrs = model.inputPtrs :=
  ⟨configures_outputs.extends (fun model => keptSizes model.outputs)
      (fun ioMeta => (itemsize ioMeta.datatype, elementByteSize ioMeta))
      (fun _ _ _ => List.map_append) statics model listed,
    configures_outputs.extends TritonModelImpl.outputPtrs outputOf (fun _ _ _ => rfl) statics model
      listed,
    configures_outputs.keeps TritonModelImpl.inputs (fun _ _ _ => rfl) statics model listed,
    configures_outputs.keeps TritonModelImpl.inputPtrs (fun _ _ _ => rfl) statics model listed⟩

/-- What a constructed model holds of the listed tensors. -/
structure Configured (inputs outputs : List IoMetadata) (model : TritonModelImpl) : Prop where
  inputSizes : keptSizes model.inputs = listedSizes (accepted inputs)
  outputSizes : keptSizes model.outputs = listedSizes (accepted outputs)
  inputPtrs : model.inputPtrs = (accepted inputs).map inputOf
  outputPtrs : model.outputPtrs = (accepted outputs).map outputOf

/-- A constructed model has the outputs that were accepted. -/
theorem Configured.length_outputs {inputs outputs : List IoMetadata} {model : TritonModelImpl}
    (configured : Configured inputs outputs model) :
    model.outputs.length = (accepted outputs).length := by
  have lengths := congrArg List.length configured.outputSizes
  rwa [keptSizes, listedSizes, List.length_map, List.length_map] at lengths

/-- The constructor configures the model as listed. -/
theorem configured_of_create (statics : Statics) (modelName : String) (async : Bool)
    (inputs outputs : List IoMetadata) :
    Configured inputs outputs (create statics modelName async true inputs outputs).1 := by
  obtain ⟨memories, tensors, noMemory, noTensor⟩ :=
    configureInputs_spec statics { modelName, async } inputs
  obtain ⟨results, requested, kept, keptTensors⟩ := configureOutputs_spec
    (configureInputs statics { modelName, async } inputs).2
    (configureInputs statics { modelName, async } inputs).1 outputs
  rw [noMemory] at results
  rw [noTensor] at requested
  refine ⟨?_, results, keptTensors.trans tensors, requested⟩
  exact (congrArg keptSizes kept).trans memories

/-- A model is returned by a healthy server that lists a first input with bytes. -/
theorem make_eq_some_iff {statics : Statics} {modelName : String} {async healthy : Bool}
    {inputs outputs : List IoMetadata} {model : TritonModelImpl} :
    (make statics modelName async healthy inputs outputs).1 = some model ↔
      healthy = true ∧ accepted inputs ≠ [] ∧
        (create statics modelName async healthy inputs outputs).1 = model := by
  have returns : (make statics modelName async healthy inputs outputs).1 =
      if (create statics modelName async healthy inputs outputs).1.inputs.length = 0 then none
      else some (create statics modelName async healthy inputs outputs).1 := rfl
  rw [returns]
  cases healthy with
  | false => exact iff_of_false (fun absurd => by cases absurd) fun both => by cases both.1
  | true =>
      have count := congrArg List.length
        (configured_of_create statics modelName async inputs outputs).inputSizes
      rw [keptSizes, listedSizes, List.length_map, List.length_map] at count
      rw [Option.ite_none_left_eq_some, count, List.length_eq_zero_iff, Option.some.injEq]
      exact (and_iff_right rfl).symm

/-- The tensor objects of a constructed model are those of the accepted tensors. -/
theorem make_spec {statics : Statics} {modelName : String} {async healthy : Bool}
    {inputs outputs : List IoMetadata} {model : TritonModelImpl}
    (made : (make statics modelName async healthy inputs outputs).1 = some model) :
    Configured inputs outputs model := by
  obtain ⟨rfl, _, rfl⟩ := make_eq_some_iff.mp made
  exact configured_of_create statics modelName async inputs outputs

/-! ## What a call keeps -/

/-- A tensor object still describes the listed tensor it was created for, but for
the batch dimension. -/
structure Describes (ioMeta : IoMetadata) (input : InferInput) : Prop where
  name : input.name = ioMeta.name
  datatype : input.datatype = ioMeta.datatype
  ranked : input.shape ≠ []
  dimensions : input.shape.tail = ioMeta.shape.tail

/-- Two tensor objects that differ only in the batch dimension and the shared
memory. -/
structure SameTensor (first second : InferInput) : Prop where
  name : second.name = first.name
  datatype : second.datatype = first.datatype
  ranked : second.shape = [] ↔ first.shape = []
  dimensions : second.shape.tail = first.shape.tail

/-- A tensor object is the same as itself. -/
theorem SameTensor.refl (input : InferInput) : SameTensor input input :=
  ⟨rfl, rfl, Iff.rfl, rfl⟩

/-- Tensor objects stay the same from call to call. -/
theorem SameTensor.trans {first second third : InferInput} (same : SameTensor first second)
    (next : SameTensor second third) : SameTensor first third :=
  ⟨next.name.trans same.name, next.datatype.trans same.datatype, next.ranked.trans same.ranked,
    next.dimensions.trans same.dimensions⟩

/-- A tensor object that stays the same goes on describing its tensor. -/
theorem SameTensor.describes {ioMeta : IoMetadata} {input : InferInput}
    (same : SameTensor (inputOf ioMeta) input) (ranked : ioMeta.shape ≠ []) :
    Describes ioMeta input :=
  ⟨same.name, same.datatype, mt same.ranked.mp ranked, same.dimensions⟩

private theorem sameTensor_shareInput {input : InferInput} (ranked : input.shape ≠ [])
    (batchSize : Nat) (buffer : BufferTritonReader) :
    SameTensor input (shareInput batchSize buffer input) :=
  ⟨rfl, rfl, iff_of_false (List.cons_ne_nil _ _) ranked, rfl⟩

/-- The first tensor is shared with the first buffer, the others with the later ones. -/
theorem shareInputs_cons_eq_some {batchSize : Nat} {input : InferInput} {inputs shared :
    List InferInput} {buffers : List BufferTritonReader}
    (shares : shareInputs batchSize (input :: inputs) buffers = some shared) :
    ∃ buffer later rest, buffers = buffer :: later ∧ input.shape ≠ [] ∧
      shareInputs batchSize inputs later = some rest ∧
      shared = shareInput batchSize buffer input :: rest := by
  cases buffers with
  | nil => cases shares
  | cons buffer later =>
      obtain ⟨ranked, mapped⟩ := Option.ite_none_left_eq_some.mp shares
      obtain ⟨rest, shares, same⟩ := Option.map_eq_some_iff.mp mapped
      exact ⟨buffer, later, rest, rfl, mt List.isEmpty_iff.mpr ranked, shares, same.symm⟩

/-- Sharing changes nothing but the batch dimension and the shared memory. -/
theorem sameTensors_of_shareInputs {batchSize : Nat} {inputs shared : List InferInput}
    {buffers : List BufferTritonReader}
    (shares : shareInputs batchSize inputs buffers = some shared) :
    List.Forall₂ SameTensor inputs shared := by
  induction inputs generalizing buffers shared with
  | nil => cases shares; exact .nil
  | cons first inputs ih =>
      obtain ⟨buffer, later, rest, rfl, ranked, onward, rfl⟩ := shareInputs_cons_eq_some shares
      exact .cons (sameTensor_shareInput ranked batchSize buffer) (ih onward)

private theorem length_of_shareOutputs {outputs shared : List InferRequestedOutput}
    {buffers : List BufferTriton} (shares : shareOutputs outputs buffers = some shared) :
    shared.length = outputs.length := by
  induction outputs generalizing buffers shared with
  | nil => cases shares; rfl
  | cons output outputs ih =>
      cases buffers with
      | nil => cases shares
      | cons buffer later =>
          obtain ⟨rest, shares, same⟩ := Option.map_eq_some_iff.mp shares
          rw [← same, List.length_cons, List.length_cons, ih shares]

/-! ## What a call hands over -/

private theorem ranked_of_describes {metas : List IoMetadata} {inputs : List InferInput}
    {buffers : List BufferTritonReader} (describes : List.Forall₂ Describes metas inputs)
    (each : metas.length = buffers.length) :
    List.Forall₂ (fun input _ => input.shape ≠ []) inputs buffers := by
  induction describes generalizing buffers with
  | nil => rw [List.length_eq_zero_iff.mp each.symm]; exact .nil
  | cons first _ ih =>
      cases buffers with
      | nil => cases each
      | cons buffer later => exact .cons first.ranked (ih (Nat.succ.inj each))

private theorem shareInputs_of_ranked (batchSize : Nat) {inputs : List InferInput}
    {buffers : List BufferTritonReader}
    (ranked : List.Forall₂ (fun input _ => input.shape ≠ []) inputs buffers) :
    shareInputs batchSize inputs buffers =
      some (List.zipWith (shareInput batchSize) buffers inputs) := by
  induction ranked with
  | nil => rfl
  | cons first _ ih =>
      rw [shareInputs, if_neg (mt List.isEmpty_iff.mp first), ih]
      rfl

private theorem shareOutputs_of_length {outputs : List InferRequestedOutput}
    {buffers : List BufferTriton} (each : outputs.length = buffers.length) :
    shareOutputs outputs buffers = some (List.zipWith shareOutput buffers outputs) := by
  induction outputs generalizing buffers with
  | nil => cases buffers <;> rfl
  | cons output outputs ih =>
      cases buffers with
      | nil => cases each
      | cons buffer later => rw [shareOutputs, ih (Nat.succ.inj each)]; rfl

/-- Inputs are shared when each of them has a buffer and a batch dimension. -/
theorem isSome_shareInputs (batchSize : Nat) (inputs : List InferInput)
    (buffers : List BufferTritonReader) :
    (shareInputs batchSize inputs buffers).isSome ↔
      inputs.length ≤ buffers.length ∧ ∀ input ∈ inputs, input.shape ≠ [] := by
  induction inputs generalizing buffers with
  | nil => exact iff_of_true rfl ⟨Nat.zero_le _, fun input absurd => (List.not_mem_nil absurd).elim⟩
  | cons input inputs ih =>
      cases buffers with
      | nil => exact iff_of_false Bool.false_ne_true fun both => Nat.not_succ_le_zero _ both.1
      | cons buffer buffers =>
          rw [shareInputs, List.forall_mem_cons, List.length_cons, List.length_cons,
            Nat.succ_le_succ_iff]
          by_cases scalar : input.shape = []
          · rw [if_pos (List.isEmpty_iff.mpr scalar)]
            exact iff_of_false Bool.false_ne_true fun both => both.2.1 scalar
          · rw [if_neg (mt List.isEmpty_iff.mp scalar), Option.isSome_map, ih]
            exact and_congr_right fun _ => (and_iff_right scalar).symm

/-- Outputs are shared when each of them has a buffer. -/
theorem isSome_shareOutputs (outputs : List InferRequestedOutput) (buffers : List BufferTriton) :
    (shareOutputs outputs buffers).isSome ↔ outputs.length ≤ buffers.length := by
  induction outputs generalizing buffers with
  | nil => exact iff_of_true rfl (Nat.zero_le _)
  | cons output outputs ih =>
      cases buffers with
      | nil => exact iff_of_false Bool.false_ne_true (Nat.not_succ_le_zero _)
      | cons buffer buffers =>
          rw [shareOutputs, Option.isSome_map, ih, List.length_cons, List.length_cons,
            Nat.succ_le_succ_iff]

/-- The tensor handed over for an input has the shape of the batch, the bytes of
this shape, and its bytes lie in the buffer. -/
structure InputConsistent (ioMeta : IoMetadata) (batchSize : Nat) (buffer : BufferTritonReader)
    (input : InferInput) (region : SharedMemory) : Prop where
  shared : input.sharedMemory = some region
  shape : input.shape = (batchSize : Int) :: ioMeta.shape.tail
  bytes : (region.byteSize : Int) = input.shape.prod * itemsize input.datatype
  key : region.name = buffer.shmKey
  inside : region.offset + region.byteSize ≤ buffer.bytes

/-- The bytes handed over for an output lie in the buffer and hold the batch. -/
structure OutputConsistent (ioMeta : IoMetadata) (batchSize : Nat) (buffer : BufferTriton)
    (output : InferRequestedOutput) (region : SharedMemory) : Prop where
  shared : output.sharedMemory = some region
  room : batchSize * ioMeta.shape.tail.prod * itemsize ioMeta.datatype ≤ (region.byteSize : Int)
  key : region.name = buffer.shmKey
  inside : region.offset + region.byteSize ≤ buffer.bytes

private theorem exists_inputConsistent_iff {ioMeta : IoMetadata} {batchSize : Nat}
    {buffer : BufferTritonReader} {input : InferInput} (fits : batchSize < 2 ^ 63)
    (sized : buffer.itemSize = itemsize ioMeta.datatype) (positive : 0 < itemsize ioMeta.datatype)
    (describes : Describes ioMeta input) :
    (∃ region, InputConsistent ioMeta batchSize buffer (shareInput batchSize buffer input) region) ↔
      (buffer.itemsAvailable : Int) = batchSize * ioMeta.shape.tail.prod := by
  have inside : buffer.readIndex + buffer.itemsAvailable * buffer.itemSize % 2 ^ 64 ≤
      buffer.bytes := by
    rw [buffer.bytes_mod]
    exact buffer.contiguous
  have shape : (shareInput batchSize buffer input).shape =
      (batchSize : Int) :: ioMeta.shape.tail := by
    rw [shareInput, int64OfSize_of_lt fits, describes.dimensions]
  have bytes : ((buffer.itemsAvailable * buffer.itemSize % 2 ^ 64 : Nat) : Int) =
      (shareInput batchSize buffer input).shape.prod * itemsize input.datatype ↔
      (buffer.itemsAvailable : Int) = batchSize * ioMeta.shape.tail.prod := by
    have nonzero : (itemsize ioMeta.datatype : Int) ≠ 0 := by omega
    rw [buffer.bytes_mod, shape, describes.datatype, sized, List.prod_cons, Int.natCast_mul,
      Int.mul_eq_mul_right_iff nonzero]
  constructor
  · rintro ⟨region, consistent⟩
    have same := Option.some.inj consistent.shared
    subst same
    exact bytes.mp consistent.bytes
  · intro exactly
    exact ⟨_, rfl, shape, bytes.mpr exactly, rfl, inside⟩

private theorem exists_outputConsistent_iff {ioMeta : IoMetadata} {buffer : BufferTriton}
    (batchSize : Nat) (output : InferRequestedOutput)
    (sized : buffer.itemSize = itemsize ioMeta.datatype)
    (positive : 0 < itemsize ioMeta.datatype) :
    (∃ region, OutputConsistent ioMeta batchSize buffer (shareOutput buffer output) region) ↔
      batchSize * ioMeta.shape.tail.prod ≤ (buffer.spaceAvailable : Int) := by
  have inside : buffer.writeIndex + buffer.spaceAvailable * buffer.itemSize % 2 ^ 64 ≤
      buffer.bytes := by
    rw [buffer.bytes_mod]
    exact buffer.contiguous
  have room : batchSize * ioMeta.shape.tail.prod * itemsize ioMeta.datatype ≤
      ((buffer.spaceAvailable * buffer.itemSize % 2 ^ 64 : Nat) : Int) ↔
      batchSize * ioMeta.shape.tail.prod ≤ (buffer.spaceAvailable : Int) := by
    rw [buffer.bytes_mod, sized, Int.natCast_mul]
    exact Int.mul_le_mul_iff_of_pos_right (by omega)
  constructor
  · rintro ⟨region, consistent⟩
    have same := Option.some.inj consistent.shared
    subst same
    exact room.mp consistent.room
  · intro enough
    exact ⟨_, rfl, room.mpr enough, rfl, inside⟩

end TritonModelImpl

namespace TritonBlock

open TritonModelImpl

/-! ## Sequences of calls -/

/-- What the scheduler does to a block. -/
inductive BlockCall
  | setAsyncCallback (cb : Callback)
  | work (inBufs : List BufferTritonReader) (outBufs : List BufferTriton) (noutputItems : Nat)
      (outcome : ClientOutcome)

def call (b : TritonBlock) : BlockCall → Option TritonBlock
  | .setAsyncCallback cb => some (b.setAsyncCallback cb)
  | .work inBufs outBufs noutputItems outcome =>
      (b.work inBufs outBufs noutputItems outcome).map WorkResult.block

/-- What every sequence of calls keeps of a block made for the listed tensors. -/
structure Serves (inputs outputs : List IoMetadata) (batchItems : Nat) (b : TritonBlock) :
    Prop where
  inputs : List.Forall₂ Describes inputs b.model.inputPtrs
  memories : b.model.outputs.length = outputs.length
  outputs : b.model.outputPtrs.length = outputs.length
  perBatch : numItemsPerBatch b.model = some batchItems
  multiple : b.outputMultiple = batchItems

/-- What every sequence of calls keeps of a block. -/
structure Keeps (fresh b : TritonBlock) : Prop where
  memories : b.model.outputs = fresh.model.outputs
  inputs : List.Forall₂ SameTensor fresh.model.inputPtrs b.model.inputPtrs
  tensors : b.model.outputPtrs.length = fresh.model.outputPtrs.length
  multiple : b.outputMultiple = fresh.outputMultiple

/-- A block keeps what it has. -/
theorem Keeps.refl (b : TritonBlock) : Keeps b b :=
  ⟨rfl, List.forall₂_same.mpr fun input _ => .refl input, rfl, rfl⟩

/-- A call keeps the memories, the tensors and the multiple of a block. -/
theorem Keeps.call {fresh b after : TritonBlock} {action : BlockCall} (keeps : Keeps fresh b)
    (called : b.call action = some after) : Keeps fresh after := by
  cases action with
  | setAsyncCallback cb =>
      cases called
      exact ⟨keeps.memories, keeps.inputs, keeps.tensors, keeps.multiple⟩
  | work inBufs outBufs noutputItems outcome =>
      obtain ⟨result, worked, same⟩ := Option.map_eq_some_iff.mp called
      obtain ⟨_, _, _, tensors, requested, _, _, sharesIn, sharesOut, rfl⟩ := work_eq_some worked
      cases same
      refine ⟨keeps.memories, ?_, (length_of_shareOutputs sharesOut).trans keeps.tensors,
        keeps.multiple⟩
      exact keeps.inputs.comp (sameTensors_of_shareInputs sharesIn) fun _ _ _ => .trans

/-- `work` divides by the same number after any calls. -/
theorem Keeps.perBatch {fresh b : TritonBlock} {batchItems : Nat} (keeps : Keeps fresh b)
    (perBatch : numItemsPerBatch fresh.model = some batchItems) :
    numItemsPerBatch b.model = some batchItems := by
  rw [numItemsPerBatch, getOutputSizes, getOutputSignature] at perBatch ⊢
  rw [keeps.memories]
  exact perBatch

/-- All calls keep the memories, the tensors and the multiple of a block. -/
theorem keeps_of_calls {fresh b : TritonBlock} {calls : List BlockCall}
    (history : Transition.follow call fresh calls = some b) : Keeps fresh b := by
  obtain ⟨taken, run, _⟩ := Transition.Run.of_follow history
  exact run.invariant_of_step (Keeps fresh) (.refl fresh) fun _ _ _ called kept => kept.call called

/-- A block is constructed from a model and its items per batch. -/
theorem make_eq_some {statics : Statics} {modelName : String} {async healthy : Bool}
    {inputs outputs : List IoMetadata} {fresh : TritonBlock}
    (constructed : make statics modelName async healthy inputs outputs = some fresh) :
    (TritonModelImpl.make statics modelName async healthy inputs outputs).1 = some fresh.model ∧
      numItemsPerBatch fresh.model = some fresh.outputMultiple := by
  obtain ⟨model, made, constructed⟩ := Option.bind_eq_some_iff.mp constructed
  obtain ⟨outputMultiple, perBatch, same⟩ := Option.bind_eq_some_iff.mp constructed
  cases same
  exact ⟨made, perBatch⟩

/-- The output multiple of a constructed block is the number of items that `work`
divides by, after every sequence of calls. -/
theorem numItemsPerBatch_of_calls {statics : Statics} {modelName : String} {async healthy : Bool}
    {inputs outputs : List IoMetadata} {fresh b : TritonBlock} {calls : List BlockCall}
    (constructed : make statics modelName async healthy inputs outputs = some fresh)
    (history : Transition.follow call fresh calls = some b) :
    numItemsPerBatch b.model = some b.outputMultiple := by
  have keeps := keeps_of_calls history
  rw [keeps.multiple]
  exact keeps.perBatch (make_eq_some constructed).2

private theorem serves_of_calls {statics : Statics} {modelName : String} {async healthy : Bool}
    {inputs outputs : List IoMetadata} {fresh b : TritonBlock} {calls : List BlockCall}
    (constructed : make statics modelName async healthy inputs outputs = some fresh)
    (ranked : ∀ ioMeta ∈ accepted inputs, ioMeta.shape ≠ [])
    (history : Transition.follow call fresh calls = some b) :
    Serves (accepted inputs) (accepted outputs) fresh.outputMultiple b := by
  have keeps := keeps_of_calls history
  have configured := make_spec (make_eq_some constructed).1
  refine ⟨?_, ?_, ?_, ?_, keeps.multiple⟩
  · have same := keeps.inputs
    rw [configured.inputPtrs, List.forall₂_map_left_iff] at same
    have both := (List.forall₂_and_left _ _).mpr ⟨ranked, same⟩
    exact both.imp fun _ _ parts => parts.2.describes parts.1
  · rw [keeps.memories, configured.length_outputs]
  · rw [keeps.tensors, configured.outputPtrs, List.length_map]
  · rw [numItemsPerBatch_of_calls constructed history, keeps.multiple]

/-! ## The request of a call -/

/-- A request agrees with the batch and with the buffers it was built for. -/
structure RequestConsistent (inputs outputs : List IoMetadata) (batchSize : Nat)
    (inBufs : List BufferTritonReader) (outBufs : List BufferTriton) (request : InferRequest) :
    Prop where
  inputCount : request.inputs.length = inputs.length
  outputCount : request.outputs.length = outputs.length
  inputs : ∀ (i : Nat) (ioMeta : IoMetadata) (buffer : BufferTritonReader) (input : InferInput),
    inputs[i]? = some ioMeta → inBufs[i]? = some buffer → request.inputs[i]? = some input →
      ∃ region, InputConsistent ioMeta batchSize buffer input region
  outputs : ∀ (k : Nat) (ioMeta : IoMetadata) (buffer : BufferTriton)
      (output : InferRequestedOutput),
    outputs[k]? = some ioMeta → outBufs[k]? = some buffer → request.outputs[k]? = some output →
      ∃ region, OutputConsistent ioMeta batchSize buffer output region

/-- Each port feeds a tensor with items of its size, and holds enough of them. -/
def ReadersReady (noutputItems : Nat) : List IoMetadata → List BufferTritonReader → Prop :=
  List.Forall₂ fun ioMeta buffer =>
    buffer.itemSize = itemsize ioMeta.datatype ∧ noutputItems ≤ buffer.itemsAvailable

def WritersReady (noutputItems : Nat) : List IoMetadata → List BufferTriton → Prop :=
  List.Forall₂ fun ioMeta buffer =>
    buffer.itemSize = itemsize ioMeta.datatype ∧ noutputItems ≤ buffer.spaceAvailable

/-- With two readers and a batch that is counted in whole, a call builds its request. -/
theorem work_of_serves {inputs outputs : List IoMetadata} {batchItems : Nat}
    {b : TritonBlock} {inBufs : List BufferTritonReader} {outBufs : List BufferTriton}
    (outcome : ClientOutcome) (batchSize : Nat) (serves : Serves inputs outputs batchItems b)
    (readers : inputs.length = inBufs.length) (writers : outputs.length = outBufs.length)
    (positive : 0 < batchItems) (two : 2 ≤ inBufs.length) :
    ∃ result, b.work inBufs outBufs (batchSize * batchItems) outcome = some result ∧
      result.request.inputs = List.zipWith (shareInput batchSize) inBufs b.model.inputPtrs ∧
      result.request.outputs = List.zipWith shareOutput outBufs b.model.outputPtrs := by
  have ranked : List.Forall₂ (fun input _ => input.shape ≠ []) b.model.inputPtrs inBufs :=
    ranked_of_describes serves.inputs readers
  have one : 1 ≤ outBufs.length := by
    rw [← writers, ← serves.memories]
    apply List.length_pos_iff.mpr
    intro none
    have perBatch := serves.perBatch
    rw [numItemsPerBatch, getOutputSizes, none] at perBatch
    cases perBatch
  have ports : ¬ (decide (outBufs.length < 1) || decide (inBufs.length < 2)) = true := by
    rw [Bool.or_eq_true, decide_eq_true_eq, decide_eq_true_eq]
    omega
  rw [work, if_neg ports, serves.perBatch, Option.bind_eq_bind, Option.bind_some,
    if_neg (Nat.pos_iff_ne_zero.mp positive), inferBatchZerocopy,
    Nat.mul_div_cancel _ positive, shareInputs_of_ranked batchSize ranked,
    shareOutputs_of_length (serves.outputs.trans writers)]
  exact ⟨_, rfl, rfl, rfl⟩

/-- The batch of a call fits an `int64_t`, as its items lie in one buffer. -/
theorem batchSize_lt {metas : List IoMetadata} {noutputItems batchItems batchSize : Nat}
    {inBufs : List BufferTritonReader} (ready : ReadersReady noutputItems metas inBufs)
    (sized : ∀ ioMeta ∈ metas, 0 < itemsize ioMeta.datatype)
    (multiple : noutputItems = batchSize * batchItems) (positive : 0 < batchItems)
    (two : 2 ≤ inBufs.length) : batchSize < 2 ^ 63 := by
  cases ready with
  | nil => cases two
  | @cons ioMeta buffer _ _ first _ =>
      have width : 0 < buffer.itemSize := first.1 ▸ sized ioMeta List.mem_cons_self
      calc batchSize ≤ noutputItems := multiple ▸ Nat.le_mul_of_pos_right batchSize positive
        _ ≤ buffer.itemsAvailable := first.2
        _ ≤ buffer.itemsAvailable * buffer.itemSize := Nat.le_mul_of_pos_right _ width
        _ ≤ buffer.bytes := Nat.le_trans (Nat.le_add_left _ _) buffer.contiguous
        _ < 2 ^ 63 := buffer.addressable

private theorem inputs_consistent_iff {metas : List IoMetadata} {noutputItems batchSize : Nat}
    {tensors : List InferInput} {inBufs : List BufferTritonReader}
    (describes : List.Forall₂ Describes metas tensors)
    (ready : ReadersReady noutputItems metas inBufs)
    (sized : ∀ ioMeta ∈ metas, 0 < itemsize ioMeta.datatype) (fits : batchSize < 2 ^ 63) :
    (∀ (i : Nat) (ioMeta : IoMetadata) (buffer : BufferTritonReader) (input : InferInput),
      metas[i]? = some ioMeta → inBufs[i]? = some buffer →
        (List.zipWith (shareInput batchSize) inBufs tensors)[i]? = some input →
          ∃ region, InputConsistent ioMeta batchSize buffer input region) ↔
    ∀ (i : Nat) (ioMeta : IoMetadata) (buffer : BufferTritonReader),
      metas[i]? = some ioMeta → inBufs[i]? = some buffer →
        (buffer.itemsAvailable : Int) = batchSize * ioMeta.shape.tail.prod := by
  have perTensor {i : Nat} {ioMeta : IoMetadata} {buffer : BufferTritonReader}
      (listed : metas[i]? = some ioMeta) (fed : inBufs[i]? = some buffer) {input : InferInput}
      (held : tensors[i]? = some input) :=
    exists_inputConsistent_iff fits (ready.getElem? listed fed).1
      (sized ioMeta (List.mem_of_getElem? listed)) (describes.getElem? listed held)
  constructor
  · intro consistent i ioMeta buffer listed fed
    obtain ⟨input, held⟩ := describes.exists_getElem? listed
    exact (perTensor listed fed held).mp (consistent i ioMeta buffer _ listed fed
      (List.getElem?_zipWith_eq_some.mpr ⟨buffer, input, fed, held, rfl⟩))
  · intro exactly i ioMeta buffer _ listed fed shared
    obtain ⟨_, input, same, held, rfl⟩ := List.getElem?_zipWith_eq_some.mp shared
    cases Option.some.inj (fed.symm.trans same)
    exact (perTensor listed fed held).mpr (exactly i ioMeta buffer listed fed)

private theorem outputs_consistent_iff {metas : List IoMetadata} {noutputItems : Nat}
    {tensors : List InferRequestedOutput} {outBufs : List BufferTriton} (batchSize : Nat)
    (each : tensors.length = metas.length) (ready : WritersReady noutputItems metas outBufs)
    (sized : ∀ ioMeta ∈ metas, 0 < itemsize ioMeta.datatype) :
    (∀ (k : Nat) (ioMeta : IoMetadata) (buffer : BufferTriton) (output : InferRequestedOutput),
      metas[k]? = some ioMeta → outBufs[k]? = some buffer →
        (List.zipWith shareOutput outBufs tensors)[k]? = some output →
          ∃ region, OutputConsistent ioMeta batchSize buffer output region) ↔
    ∀ (k : Nat) (ioMeta : IoMetadata) (buffer : BufferTriton),
      metas[k]? = some ioMeta → outBufs[k]? = some buffer →
        batchSize * ioMeta.shape.tail.prod ≤ (buffer.spaceAvailable : Int) := by
  have perTensor {k : Nat} {ioMeta : IoMetadata} {buffer : BufferTriton}
      (listed : metas[k]? = some ioMeta) (fed : outBufs[k]? = some buffer)
      (output : InferRequestedOutput) :=
    exists_outputConsistent_iff batchSize output (ready.getElem? listed fed).1
      (sized ioMeta (List.mem_of_getElem? listed))
  constructor
  · intro consistent k ioMeta buffer listed fed
    obtain ⟨within, _⟩ := List.getElem?_eq_some_iff.mp listed
    have held : tensors[k]? = some tensors[k] := List.getElem?_eq_getElem (each ▸ within)
    exact (perTensor listed fed _).mp (consistent k ioMeta buffer _ listed fed
      (List.getElem?_zipWith_eq_some.mpr ⟨buffer, _, fed, held, rfl⟩))
  · intro enough k ioMeta buffer _ listed fed shared
    obtain ⟨_, output, same, _, rfl⟩ := List.getElem?_zipWith_eq_some.mp shared
    cases Option.some.inj (fed.symm.trans same)
    exact (perTensor listed fed output).mpr (enough k ioMeta buffer listed fed)

/-- The request of a call is consistent exactly when the block has two input
ports, every reader holds the items of the batch and no others, and every output
buffer has room for its tensor of the batch. -/
theorem request_consistent_iff {statics : Statics} {modelName : String} {async healthy : Bool}
    {inputs outputs : List IoMetadata} {fresh b : TritonBlock} {calls : List BlockCall}
    {inBufs : List BufferTritonReader} {outBufs : List BufferTriton}
    {noutputItems batchSize : Nat} (outcome : ClientOutcome)
    (constructed : make statics modelName async healthy inputs outputs = some fresh)
    (ranked : ∀ ioMeta ∈ accepted inputs, ioMeta.shape ≠ [])
    (history : Transition.follow call fresh calls = some b)
    (readers : ReadersReady noutputItems (accepted inputs) inBufs)
    (writers : WritersReady noutputItems (accepted outputs) outBufs)
    (positive : 0 < noutputItems) (multiple : noutputItems = batchSize * b.outputMultiple) :
    (∃ result, b.work inBufs outBufs noutputItems outcome = some result ∧
      RequestConsistent (accepted inputs) (accepted outputs) batchSize inBufs outBufs
        result.request) ↔
    2 ≤ inBufs.length ∧
      (∀ (i : Nat) (ioMeta : IoMetadata) (buffer : BufferTritonReader),
        (accepted inputs)[i]? = some ioMeta → inBufs[i]? = some buffer →
          (buffer.itemsAvailable : Int) = batchSize * ioMeta.shape.tail.prod) ∧
      ∀ (k : Nat) (ioMeta : IoMetadata) (buffer : BufferTriton),
        (accepted outputs)[k]? = some ioMeta → outBufs[k]? = some buffer →
          batchSize * ioMeta.shape.tail.prod ≤ (buffer.spaceAvailable : Int) := by
  have serves := serves_of_calls constructed ranked history
  rw [serves.multiple] at multiple
  have items : 0 < fresh.outputMultiple := Nat.pos_of_ne_zero fun none => by
    rw [multiple, none, Nat.mul_zero] at positive
    cases positive
  have tensorsIn := fun two => inputs_consistent_iff serves.inputs readers
    (fun _ => itemsize_pos_of_mem_accepted) (batchSize_lt readers
      (fun _ => itemsize_pos_of_mem_accepted) multiple items two)
  have tensorsOut := outputs_consistent_iff batchSize serves.outputs writers
    fun _ => itemsize_pos_of_mem_accepted
  have builds := fun two => work_of_serves outcome batchSize serves readers.length_eq
    writers.length_eq items two
  constructor
  · rintro ⟨result, worked, consistent⟩
    obtain ⟨_, two, _⟩ := work_eq_some worked
    obtain ⟨_, built, inputs, outputs⟩ := builds two
    rw [multiple, built] at worked
    cases worked
    exact ⟨two, (tensorsIn two).mp (inputs ▸ consistent.inputs),
      tensorsOut.mp (outputs ▸ consistent.outputs)⟩
  · rintro ⟨two, exactly, enough⟩
    obtain ⟨result, built, inputs, outputs⟩ := builds two
    refine ⟨result, multiple ▸ built, ?_, ?_, ?_, ?_⟩
    · rw [inputs, List.length_zipWith, ← readers.length_eq, serves.inputs.length_eq, Nat.min_self]
    · rw [outputs, List.length_zipWith, ← writers.length_eq, serves.outputs, Nat.min_self]
    · rw [inputs]
      exact (tensorsIn two).mpr exactly
    · rw [outputs]
      exact tensorsOut.mpr enough

/-! ## Two inputs of four items -/

def pairInputs : List IoMetadata :=
  [⟨parseIoShape [-1, 4], "left", "FP32"⟩, ⟨parseIoShape [-1, 4], "right", "FP32"⟩]

def pairOutputs : List IoMetadata := [⟨parseIoShape [-1, 4], "sum", "FP32"⟩]

def pairBlock : TritonBlock :=
  (make {} "simple" false true pairInputs pairOutputs).get (by decide)

def oneBatch : BufferTritonReader := ⟨"/in", 4, 4, 16, 64, by decide, by decide⟩

def twoBatches : BufferTritonReader := ⟨"/in", 4, 8, 16, 64, by decide, by decide⟩

def roomForThree : BufferTriton := ⟨"/out", 4, 12, 0, 64, by decide, by decide⟩

/-- Two readers with one batch each, after an earlier call. -/
theorem one_batch_consistent : ∃ result,
    ((pairBlock.setAsyncCallback (.pass 0)).work [oneBatch, oneBatch] [roomForThree] 4 .success =
      some result) ∧
      RequestConsistent (accepted pairInputs) (accepted pairOutputs) 1 [oneBatch, oneBatch]
        [roomForThree] result.request := by
  have made : make {} "simple" false true pairInputs pairOutputs = some pairBlock :=
    (Option.some_get _).symm
  have shapes : ∀ ioMeta ∈ accepted pairInputs, ioMeta.shape ≠ [] := by decide
  have readers : ReadersReady 4 (accepted pairInputs) [oneBatch, oneBatch] :=
    .cons (by decide) (.cons (by decide) .nil)
  have writers : WritersReady 4 (accepted pairOutputs) [roomForThree] := .cons (by decide) .nil
  have history : Transition.follow call pairBlock [.setAsyncCallback (.pass 0)] =
      some (pairBlock.setAsyncCallback (.pass 0)) := rfl
  refine (request_consistent_iff .success made shapes history readers writers (by decide)
    rfl).mpr ⟨by decide, ?_, ?_⟩
  · intro i ioMeta buffer listed fed
    match i with
    | 0 => cases listed; cases fed; rfl
    | 1 => cases listed; cases fed; rfl
    | _ + 2 => cases listed
  · intro k ioMeta buffer listed fed
    match k with
    | 0 => cases listed; cases fed; decide
    | _ + 1 => cases listed

/-- With two batches in the readers and one to produce, the request has the bytes
of two batches and the shape of one. -/
theorem two_batches_inconsistent :
    make {} "simple" false true pairInputs pairOutputs = some pairBlock ∧
      (∀ ioMeta ∈ accepted pairInputs, ioMeta.shape ≠ []) ∧
      ReadersReady 4 (accepted pairInputs) [twoBatches, twoBatches] ∧
      WritersReady 4 (accepted pairOutputs) [roomForThree] ∧
      4 = 1 * pairBlock.outputMultiple ∧
      ¬ ∃ result,
        pairBlock.work [twoBatches, twoBatches] [roomForThree] 4 .success = some result ∧
          RequestConsistent (accepted pairInputs) (accepted pairOutputs) 1
            [twoBatches, twoBatches] [roomForThree] result.request := by
  refine ⟨(Option.some_get _).symm, by decide, .cons (by decide) (.cons (by decide) .nil),
    .cons (by decide) .nil, rfl, ?_⟩
  rintro ⟨result, worked, consistent⟩
  have built : (pairBlock.work [twoBatches, twoBatches] [roomForThree] 4 .success).map
      (fun result => result.request.inputs[0]?) =
        some (some ⟨"left", [1, 4], "FP32", some ⟨"/in", 32, 16⟩⟩) := by decide +kernel
  rw [worked] at built
  obtain ⟨region, tensor⟩ := consistent.inputs 0 ⟨[1, 4], "left", "FP32"⟩ twoBatches _
    (by decide) rfl (Option.some.inj built)
  have same := Option.some.inj tensor.shared
  subst same
  have bytes : (32 : Int) = 1 * (4 * 1) * 4 := tensor.bytes
  omega

end TritonBlock

end TorchDsp
