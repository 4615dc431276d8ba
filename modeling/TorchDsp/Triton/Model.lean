import TorchDsp.Runtime.Buffer

/-! # Triton models and blocks

A `triton_model` lists the tensors of a model of the inference server and keeps
one tensor object for each. An inference rewrites these objects for the buffers
of the call and hands them to the client. The block calls the model once per
`work` and publishes what it was asked for.

A part without result stands for an access out of bounds, a division by zero or
a constructor that throws.
-/

namespace TorchDsp

/-- The conversion of a `size_t` to `int64_t`. -/
def int64OfSize (value : Nat) : Int := Int.bmod value (2 ^ 64)

/-- Sizes below the largest `int64_t` are converted unchanged. -/
theorem int64OfSize_of_lt {value : Nat} (fits : value < 2 ^ 63) : int64OfSize value = value := by
  unfold int64OfSize
  rw [Int.bmod_eq_of_le] <;> omega

/-- A size that is converted to a positive number is below the largest `int64_t`. -/
theorem lt_of_int64OfSize_pos {value : Nat} (fits : value < 2 ^ 64)
    (positive : 0 < int64OfSize value) : value < 2 ^ 63 := by
  unfold int64OfSize at positive
  rw [Int.bmod_def] at positive
  split at positive <;> omega

/-! ## Shared-memory buffers -/

/-- What an inference reads off the reader of an input buffer. Indices and sizes
are in bytes; the available items lie within the buffer without wrapping. -/
structure BufferTritonReader where
  shmKey : String
  itemSize : Nat
  itemsAvailable : Nat
  readIndex : Nat
  bytes : Nat
  contiguous : readIndex + itemsAvailable * itemSize ≤ bytes
  addressable : bytes < 2 ^ 63

/-- The bytes on offer do not wrap. -/
theorem BufferTritonReader.bytes_mod (buffer : BufferTritonReader) :
    buffer.itemsAvailable * buffer.itemSize % 2 ^ 64 = buffer.itemsAvailable * buffer.itemSize := by
  have inside := buffer.contiguous
  have small := buffer.addressable
  exact Nat.mod_eq_of_lt (by omega)

/-- What an inference reads off an output buffer. -/
structure BufferTriton where
  shmKey : String
  itemSize : Nat
  spaceAvailable : Nat
  writeIndex : Nat
  bytes : Nat
  contiguous : writeIndex + spaceAvailable * itemSize ≤ bytes
  addressable : bytes < 2 ^ 63

/-- The bytes of a buffer are counted without overflow. -/
theorem BufferTriton.bytes_mod (buffer : BufferTriton) :
    buffer.spaceAvailable * buffer.itemSize % 2 ^ 64 = buffer.spaceAvailable * buffer.itemSize := by
  have inside := buffer.contiguous
  have small := buffer.addressable
  exact Nat.mod_eq_of_lt (by omega)

/-! ## Tensors -/

/-- A tensor as the server's metadata lists it, after `parse_io_shape`. -/
structure IoMetadata where
  shape : List Int
  name : String
  datatype : String
  deriving DecidableEq, Repr

structure IoMemory where
  itemSize : Nat
  elementByteSize : Nat
  shmKey : String
  deriving DecidableEq, Repr

/-- The arguments of `SetSharedMemory`. -/
structure SharedMemory where
  name : String
  byteSize : Nat
  offset : Nat
  deriving DecidableEq, Repr

structure InferInput where
  name : String
  shape : List Int
  datatype : String
  sharedMemory : Option SharedMemory := none
  deriving DecidableEq, Repr

structure InferRequestedOutput where
  name : String
  sharedMemory : Option SharedMemory := none
  deriving DecidableEq, Repr

/-- The callbacks a block can hold: the initial one, which does nothing, and the
one installed in a pass of the executor. -/
inductive Callback
  | nothing
  | pass (number : Nat)
  deriving DecidableEq, Repr

/-- What is handed to the client. Without a callback the call is synchronous. -/
structure InferRequest where
  modelName : String
  inputs : List InferInput
  outputs : List InferRequestedOutput
  callback : Option Callback
  deriving DecidableEq, Repr

/-- What becomes of a client call. -/
inductive ClientOutcome
  | success
  /-- `Infer` or `AsyncInfer` returns an error. -/
  | callError
  /-- The call is accepted, and its result carries an error status. -/
  | resultError
  deriving DecidableEq, Repr

/-- The function-local counters that name segments and tensors. -/
structure Statics where
  segmentNumber : Nat := 0
  inputNumber : Nat := 0
  outputNumber : Nat := 0
  deriving DecidableEq, Repr

structure TritonModelImpl where
  modelName : String
  async : Bool
  inputs : List IoMemory := []
  outputs : List IoMemory := []
  inputPtrs : List InferInput := []
  outputPtrs : List InferRequestedOutput := []
  registeredInputNames : List String := []
  registeredOutputNames : List String := []
  deriving DecidableEq, Repr

namespace TritonModelImpl

/-! ## Construction -/

/-- `std::abs` of every listed dimension. -/
def parseIoShape (listed : List Int) : List Int :=
  listed.map fun dimension => (dimension.natAbs : Int)

/-- The product of the dimensions in `int64_t`, returned as `size_t`. -/
def numElements (shape : List Int) : Nat :=
  sizeOfInt (shape.foldl (fun product dimSize => Int.bmod (product * dimSize) (2 ^ 64)) 1)

def itemsize (dataType : String) : Nat :=
  if dataType = "FP32" then 4
  else if dataType = "FLOAT32" then 4
  else if dataType = "INT32" then 4
  else if dataType = "INT16" then 2
  else if dataType = "INT8" then 1
  else 0

/-- The `element_byte_size` of a tensor. -/
def elementByteSize (ioMeta : IoMetadata) : Nat :=
  numElements ioMeta.shape * itemsize ioMeta.datatype % 2 ^ 64

def allocateShm (statics : Statics) (ioMeta : IoMetadata) : IoMemory × Statics :=
  ({ itemSize := itemsize ioMeta.datatype
     elementByteSize := elementByteSize ioMeta
     shmKey := "/gr_" ++ ioMeta.name ++ toString statics.segmentNumber },
   { statics with segmentNumber := (statics.segmentNumber + 1) % 2 ^ 32 })

def createTritonInput (statics : Statics) (model : TritonModelImpl) (ioMeta : IoMetadata) :
    TritonModelImpl × Statics :=
  ({ model with
      inputPtrs := model.inputPtrs ++ [⟨ioMeta.name, ioMeta.shape, ioMeta.datatype, none⟩]
      registeredInputNames := model.registeredInputNames ++
        [toString statics.inputNumber ++ "input_" ++ ioMeta.name] },
   { statics with inputNumber := statics.inputNumber + 1 })

def createTritonOutput (statics : Statics) (model : TritonModelImpl) (ioMeta : IoMetadata) :
    TritonModelImpl × Statics :=
  ({ model with
      outputPtrs := model.outputPtrs ++ [⟨ioMeta.name, none⟩]
      registeredOutputNames := model.registeredOutputNames ++
        [toString statics.outputNumber ++ "output_" ++ ioMeta.name] },
   { statics with outputNumber := statics.outputNumber + 1 })

/-- The loop over the listed inputs. It ends at the first one without bytes. -/
def configureInputs : Statics → TritonModelImpl → List IoMetadata → TritonModelImpl × Statics
  | statics, model, [] => (model, statics)
  | statics, model, ioMeta :: rest =>
      let (ioMem, statics) := allocateShm statics ioMeta
      if ioMem.elementByteSize = 0 then (model, statics)
      else
        let model := { model with inputs := model.inputs ++ [ioMem] }
        let (model, statics) := createTritonInput statics model ioMeta
        configureInputs statics model rest

/-- The loop over the listed outputs. -/
def configureOutputs : Statics → TritonModelImpl → List IoMetadata → TritonModelImpl × Statics
  | statics, model, [] => (model, statics)
  | statics, model, ioMeta :: rest =>
      let (ioMem, statics) := allocateShm statics ioMeta
      if ioMem.elementByteSize = 0 then (model, statics)
      else
        let model := { model with outputs := model.outputs ++ [ioMem] }
        let (model, statics) := createTritonOutput statics model ioMeta
        configureOutputs statics model rest

/-- The constructor. Against a server that is not healthy it returns early. -/
def create (statics : Statics) (modelName : String) (async healthy : Bool)
    (inputs outputs : List IoMetadata) : TritonModelImpl × Statics :=
  if !healthy then ({ modelName, async }, statics)
  else
    let (model, statics) := configureInputs statics { modelName, async } inputs
    configureOutputs statics model outputs

/-- What the constructor is called with, and what it hears from the server. -/
structure Construction where
  modelName : String
  async : Bool
  healthy : Bool
  inputs : List IoMetadata
  outputs : List IoMetadata

def Construction.create (statics : Statics) (construction : Construction) :
    TritonModelImpl × Statics :=
  TritonModelImpl.create statics construction.modelName construction.async construction.healthy
    construction.inputs construction.outputs

/-- `triton_model::make` -/
def make (statics : Statics) (modelName : String) (async healthy : Bool)
    (inputs outputs : List IoMetadata) : Option TritonModelImpl × Statics :=
  let (model, statics) := create statics modelName async healthy inputs outputs
  (if model.inputs.length = 0 then none else some model, statics)

def getInputSignature (model : TritonModelImpl) : List Int :=
  model.inputs.map fun input => intOfSize input.itemSize

def getInputSizes (model : TritonModelImpl) : List Int :=
  model.inputs.map fun input => intOfSize input.elementByteSize

def getOutputSignature (model : TritonModelImpl) : List Int :=
  model.outputs.map fun output => intOfSize output.itemSize

def getOutputSizes (model : TritonModelImpl) : List Int :=
  model.outputs.map fun output => intOfSize output.elementByteSize

/-! ## Inference -/

/-- Rewrite an input tensor for the reader it takes its items from. -/
def shareInput (batchSize : Nat) (buffer : BufferTritonReader) (input : InferInput) :
    InferInput :=
  { input with
    shape := int64OfSize batchSize :: input.shape.tail
    sharedMemory := some ⟨buffer.shmKey, buffer.itemsAvailable * buffer.itemSize % 2 ^ 64,
      buffer.readIndex⟩ }

/-- Rewrite an output tensor for the buffer it goes to. -/
def shareOutput (buffer : BufferTriton) (output : InferRequestedOutput) : InferRequestedOutput :=
  { output with
    sharedMemory := some ⟨buffer.shmKey, buffer.spaceAvailable * buffer.itemSize % 2 ^ 64,
      buffer.writeIndex⟩ }

/-- The loop over the input tensors. It needs a reader for each tensor and a
first dimension to override. -/
def shareInputs (batchSize : Nat) :
    List InferInput → List BufferTritonReader → Option (List InferInput)
  | [], _ => some []
  | _ :: _, [] => none
  | input :: inputs, buffer :: buffers =>
      if input.shape.isEmpty then none
      else (shareInputs batchSize inputs buffers).map (shareInput batchSize buffer input :: ·)

/-- The loop over the output tensors. -/
def shareOutputs :
    List InferRequestedOutput → List BufferTriton → Option (List InferRequestedOutput)
  | [], _ => some []
  | _ :: _, [] => none
  | output :: outputs, buffer :: buffers =>
      (shareOutputs outputs buffers).map (shareOutput buffer output :: ·)

/-- `infer_batch_zerocopy`: the model with its rewritten tensors, the request,
and whether the callback will be made. Errors of the client are printed only. -/
def inferBatchZerocopy (model : TritonModelImpl) (inBuffers : List BufferTritonReader)
    (outBuffers : List BufferTriton) (batchSize : Nat) (cb : Callback) (outcome : ClientOutcome) :
    Option (TritonModelImpl × InferRequest × Bool) := do
  let inputs ← shareInputs batchSize model.inputPtrs inBuffers
  let outputs ← shareOutputs model.outputPtrs outBuffers
  return ({ model with inputPtrs := inputs, outputPtrs := outputs },
    { modelName := model.modelName, inputs, outputs
      callback := if model.async then some cb else none },
    model.async && outcome ≠ .callError)

end TritonModelImpl

/-! ## The block -/

structure TritonBlock where
  model : TritonModelImpl
  outputMultiple : Nat
  callback : Callback := .nothing
  deriving DecidableEq, Repr

/-- What a call of `work` does. -/
structure WorkResult where
  block : TritonBlock
  ret : WorkReturn
  /-- The count passed to `produce_each`. -/
  produced : Nat
  request : InferRequest
  /-- Whether the callback will be made. -/
  calledBack : Bool
  deriving DecidableEq, Repr

namespace TritonBlock

/-- `get_output_sizes()[0] / get_output_signature()[0]`, converted to `size_t`. -/
def numItemsPerBatch (model : TritonModelImpl) : Option Nat :=
  match model.getOutputSizes.head?, model.getOutputSignature.head? with
  | some size, some signature =>
      if signature = 0 then none else some (sizeOfInt (size.tdiv signature))
  | _, _ => none

/-- The constructor of the block. -/
def make (statics : Statics) (modelName : String) (async healthy : Bool)
    (inputs outputs : List IoMetadata) : Option TritonBlock := do
  let model ← (TritonModelImpl.make statics modelName async healthy inputs outputs).1
  let outputMultiple ← numItemsPerBatch model
  return { model, outputMultiple }

def setAsyncCallback (b : TritonBlock) (cb : Callback) : TritonBlock :=
  { b with callback := cb }

/-- `work` with the buffers of its ports. It looks at two input ports and one
output port whatever the model. -/
def work (b : TritonBlock) (inBufs : List BufferTritonReader) (outBufs : List BufferTriton)
    (noutputItems : Nat) (outcome : ClientOutcome) : Option WorkResult :=
  if outBufs.length < 1 || inBufs.length < 2 then none
  else do
    let numItemsPerBatch ← numItemsPerBatch b.model
    if numItemsPerBatch = 0 then none
    else do
      let (model, request, calledBack) ← b.model.inferBatchZerocopy inBufs outBufs
        (noutputItems / numItemsPerBatch) b.callback outcome
      return { block := { b with model }, ret := .ok, produced := noutputItems, request
               calledBack }

/-- A call of `work` that returns went through all its checks. -/
theorem work_eq_some {b : TritonBlock} {inBufs : List BufferTritonReader}
    {outBufs : List BufferTriton} {noutputItems : Nat} {outcome : ClientOutcome}
    {result : WorkResult} (worked : b.work inBufs outBufs noutputItems outcome = some result) :
    1 ≤ outBufs.length ∧ 2 ≤ inBufs.length ∧
      ∃ batchItems inputs outputs, numItemsPerBatch b.model = some batchItems ∧ batchItems ≠ 0 ∧
        TritonModelImpl.shareInputs (noutputItems / batchItems) b.model.inputPtrs inBufs =
          some inputs ∧
        TritonModelImpl.shareOutputs b.model.outputPtrs outBufs = some outputs ∧
        result = ⟨{ b with model := { b.model with inputPtrs := inputs, outputPtrs := outputs } },
          .ok, noutputItems, ⟨b.model.modelName, inputs, outputs,
            if b.model.async then some b.callback else none⟩,
          b.model.async && outcome ≠ .callError⟩ := by
  obtain ⟨ports, worked⟩ := Option.ite_none_left_eq_some.mp worked
  obtain ⟨batchItems, perBatch, worked⟩ := Option.bind_eq_some_iff.mp worked
  obtain ⟨nonzero, worked⟩ := Option.ite_none_left_eq_some.mp worked
  obtain ⟨inferred, infers, same⟩ := Option.bind_eq_some_iff.mp worked
  obtain ⟨inputs, sharesIn, infers⟩ := Option.bind_eq_some_iff.mp infers
  obtain ⟨outputs, sharesOut, infers⟩ := Option.bind_eq_some_iff.mp infers
  cases infers
  cases same
  rw [Bool.or_eq_true, decide_eq_true_eq, decide_eq_true_eq] at ports
  exact ⟨by omega, by omega, batchItems, inputs, outputs, perBatch, nonzero, sharesIn, sharesOut,
    rfl⟩

/-- Whether a call of `work` returns does not depend on the callback. -/
theorem isSome_work_setAsyncCallback (b : TritonBlock) (cb : Callback)
    (inBufs : List BufferTritonReader) (outBufs : List BufferTriton) (noutputItems : Nat)
    (outcome : ClientOutcome) :
    ((b.setAsyncCallback cb).work inBufs outBufs noutputItems outcome).isSome =
      (b.work inBufs outBufs noutputItems outcome).isSome := by
  unfold work setAsyncCallback TritonModelImpl.inferBatchZerocopy
  split
  · rfl
  · cases numItemsPerBatch b.model with
    | none => rfl
    | some batchItems =>
        simp only [Option.bind_eq_bind, Option.bind_some]
        split
        · rfl
        · cases TritonModelImpl.shareInputs (noutputItems / batchItems) b.model.inputPtrs
            inBufs with
          | none => rfl
          | some inputs => cases TritonModelImpl.shareOutputs b.model.outputPtrs outBufs <;> rfl

end TritonBlock

end TorchDsp
