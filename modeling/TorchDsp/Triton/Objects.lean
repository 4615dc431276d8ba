import TorchDsp.Foundation.Heap
import TorchDsp.Triton.History

/-! # Model objects and the tensors they share

A `triton_model_impl` with all its members. It holds shared pointers to its tensor
objects, which live in a store of their own and are rewritten in place by every call.
An object whose pointers are distinct behaves as a model that keeps its tensors to
itself (`TorchDsp.ModelObject.Holds.sent_eq`, `TorchDsp.ModelObject.Holds.infer`).
-/

namespace TorchDsp

/-- The members of `tc::InferOptions` that are ever set. -/
structure InferOptions where
  modelName : String
  modelVersion : String := ""
  deriving DecidableEq, Repr

/-- An object of `triton_model_impl`. A null pointer, and a member that has not been
initialised, have no value. -/
structure ModelObject where
  /-- The server that the client talks to. -/
  client : Option String
  modelName : String
  inputPtrs : List Nat := []
  outputPtrs : List Nat := []
  inputs : List IoMemory := []
  outputs : List IoMemory := []
  registeredInputNames : List String := []
  registeredOutputNames : List String := []
  results : Option Nat := none
  async : Option Bool
  options : InferOptions
  deriving DecidableEq, Repr

/-- The model objects of a process, in the order of their construction, and the tensor
objects they point to. -/
structure ModelStore where
  statics : Statics := {}
  inputObjects : List InferInput := []
  outputObjects : List InferRequestedOutput := []
  objects : List ModelObject := []
  /-- Whether an object has been moved from and not been assigned to since. -/
  movedFrom : Nat → Bool := fun _ => false

namespace ModelObject

open TritonModelImpl

/-! ## Inference -/

def rewriteInput (batchSize : Nat) (buffer : BufferTritonReader) (input : InferInput) :
    Option InferInput :=
  if input.shape.isEmpty then none else some (shareInput batchSize buffer input)

def rewriteOutput (buffer : BufferTriton) (output : InferRequestedOutput) :
    Option InferRequestedOutput :=
  some (shareOutput buffer output)

/-- `infer_batch_zerocopy` through the pointers of an object. -/
def infer (object : ModelObject) (store : ModelStore) (call : InferCall) :
    Option (ModelStore × InferRequest × Bool) := do
  let inputObjects ← Heap.rewriteAll (rewriteInput call.batchSize) store.inputObjects
    object.inputPtrs call.inBuffers
  let outputObjects ← Heap.rewriteAll rewriteOutput store.outputObjects object.outputPtrs
    call.outBuffers
  let inputs ← Heap.read inputObjects object.inputPtrs
  let outputs ← Heap.read outputObjects object.outputPtrs
  let async ← object.async
  let _client ← object.client
  return ({ store with inputObjects, outputObjects },
    { modelName := object.options.modelName, inputs, outputs
      callback := if async then some call.cb else none },
    async && call.outcome ≠ .callError)

/-- The request that a call sends. -/
def sent (object : ModelObject) (store : ModelStore) (call : InferCall) : Option InferRequest :=
  (object.infer store call).map fun result => result.2.1

private theorem rewriteList_input (batchSize : Nat) (inputs : List InferInput)
    (buffers : List BufferTritonReader) :
    Heap.rewriteList (rewriteInput batchSize) inputs buffers =
      shareInputs batchSize inputs buffers := by
  induction inputs generalizing buffers with
  | nil => rfl
  | cons input inputs ih =>
      cases buffers with
      | nil => rfl
      | cons buffer later =>
          rw [Heap.rewriteList, shareInputs, rewriteInput, ih]
          split
          · rfl
          · cases shareInputs batchSize inputs later <;> rfl

private theorem rewriteList_output (outputs : List InferRequestedOutput)
    (buffers : List BufferTriton) :
    Heap.rewriteList rewriteOutput outputs buffers = shareOutputs outputs buffers := by
  induction outputs generalizing buffers with
  | nil => rfl
  | cons output outputs ih =>
      cases buffers with
      | nil => rfl
      | cons buffer later =>
          rw [Heap.rewriteList, shareOutputs, rewriteOutput, ih]
          cases shareOutputs outputs later <;> rfl

/-- An object holds a model: its pointers are distinct and point to the model's
tensors. -/
structure Holds (object : ModelObject) (store : ModelStore) (model : TritonModelImpl) :
    Prop where
  client : object.client.isSome = true
  modelName : object.options.modelName = model.modelName
  mode : object.async = some model.async
  inputs : Heap.Points store.inputObjects object.inputPtrs model.inputPtrs
  outputs : Heap.Points store.outputObjects object.outputPtrs model.outputPtrs
  inputsApart : object.inputPtrs.Nodup
  outputsApart : object.outputPtrs.Nodup

/-- What a call writes through the pointers of an object is what it makes of the tensors of its
model. -/
theorem Holds.rewrites {object : ModelObject} {store : ModelStore} {model : TritonModelImpl}
    (holds : object.Holds store model) (call : InferCall) :
    ((Heap.rewriteAll (rewriteInput call.batchSize) store.inputObjects object.inputPtrs
        call.inBuffers).bind fun after => Heap.read after object.inputPtrs) =
      shareInputs call.batchSize model.inputPtrs call.inBuffers ∧
    ((Heap.rewriteAll rewriteOutput store.outputObjects object.outputPtrs
        call.outBuffers).bind fun after => Heap.read after object.outputPtrs) =
      shareOutputs model.outputPtrs call.outBuffers := by
  rw [← rewriteList_input, ← rewriteList_output]
  exact ⟨Heap.rewriteAll_read _ holds.inputs holds.inputsApart _,
    Heap.rewriteAll_read _ holds.outputs holds.outputsApart _⟩

/-- **An object sends the requests of the model it holds.** -/
theorem Holds.sent_eq {object : ModelObject} {store : ModelStore} {model : TritonModelImpl}
    (holds : object.Holds store model) (call : InferCall) :
    object.sent store call = model.built call := by
  obtain ⟨inputs, outputs⟩ := holds.rewrites call
  obtain ⟨client, connected⟩ := Option.isSome_iff_exists.mp holds.client
  unfold sent infer built inferBatchZerocopy
  simp only [Option.bind_eq_bind, holds.mode, connected, holds.modelName, Option.bind_some,
    ← inputs, ← outputs]
  cases Heap.rewriteAll (rewriteInput call.batchSize) store.inputObjects object.inputPtrs
      call.inBuffers with
  | none => rfl
  | some inputObjects =>
      simp only [Option.bind_some]
      cases Heap.rewriteAll rewriteOutput store.outputObjects object.outputPtrs
          call.outBuffers with
      | none => cases Heap.read inputObjects object.inputPtrs <;> rfl
      | some outputObjects =>
          simp only [Option.bind_some]
          cases Heap.read inputObjects object.inputPtrs with
          | none => rfl
          | some tensors => cases Heap.read outputObjects object.outputPtrs <;> rfl

/-- **A call leaves an object with what it leaves of the model.** -/
theorem Holds.infer {object : ModelObject} {store store' : ModelStore} {model : TritonModelImpl}
    {request : InferRequest} {calledBack : Bool} (holds : object.Holds store model)
    {call : InferCall} (inferred : object.infer store call = some (store', request, calledBack)) :
    ∃ after, model.infer call = some after ∧ object.Holds store' after := by
  obtain ⟨inputs, outputs⟩ := holds.rewrites call
  obtain ⟨inputObjects, rewritesIn, inferred⟩ := Option.bind_eq_some_iff.mp inferred
  obtain ⟨outputObjects, rewritesOut, inferred⟩ := Option.bind_eq_some_iff.mp inferred
  obtain ⟨tensors, readsIn, inferred⟩ := Option.bind_eq_some_iff.mp inferred
  obtain ⟨requested, readsOut, inferred⟩ := Option.bind_eq_some_iff.mp inferred
  obtain ⟨async, _, inferred⟩ := Option.bind_eq_some_iff.mp inferred
  obtain ⟨_, _, inferred⟩ := Option.bind_eq_some_iff.mp inferred
  cases inferred
  rw [rewritesIn, Option.bind_some, readsIn] at inputs
  rw [rewritesOut, Option.bind_some, readsOut] at outputs
  refine ⟨{ model with inputPtrs := tensors, outputPtrs := requested }, ?_, ?_⟩
  · rw [TritonModelImpl.infer, inferBatchZerocopy, ← inputs, ← outputs]
    rfl
  · exact ⟨holds.client, holds.modelName, holds.mode, Heap.read_eq_some_iff.mp readsIn,
      Heap.read_eq_some_iff.mp readsOut, holds.inputsApart, holds.outputsApart⟩

end ModelObject

end TorchDsp
