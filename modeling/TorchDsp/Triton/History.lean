import TorchDsp.Triton.Request

/-! # Requests without a memory

A model keeps one object for each tensor and rewrites it in every call, starting
from the shape that the call before has left. What earlier calls can have changed
is the batch dimension and the shared memory, and a call overwrites both: it builds
the request that a new model would build
(`TorchDsp.TritonModelImpl.history_independent`).
-/

namespace TorchDsp

/-- A request but for the callback. -/
def InferRequest.body (request : InferRequest) : InferRequest :=
  { request with callback := none }

namespace TritonModelImpl

/-- A call of `infer_batch_zerocopy`, and what becomes of its request. -/
structure InferCall where
  inBuffers : List BufferTritonReader
  outBuffers : List BufferTriton
  batchSize : Nat
  cb : Callback
  outcome : ClientOutcome

/-- The model that a call leaves. -/
def infer (model : TritonModelImpl) (call : InferCall) : Option TritonModelImpl :=
  (model.inferBatchZerocopy call.inBuffers call.outBuffers call.batchSize call.cb
    call.outcome).map fun result => result.1

/-- The request that a call builds. -/
def built (model : TritonModelImpl) (call : InferCall) : Option InferRequest :=
  (model.inferBatchZerocopy call.inBuffers call.outBuffers call.batchSize call.cb
    call.outcome).map fun result => result.2.1

/-- Both calls are on the same buffers and of the same batch size. -/
structure InferCall.Same (call other : InferCall) : Prop where
  inBuffers : other.inBuffers = call.inBuffers
  outBuffers : other.outBuffers = call.outBuffers
  batchSize : other.batchSize = call.batchSize

/-! ## What a call overwrites -/

/-- The rewritten object does not depend on what a call can have changed before. -/
theorem SameTensor.shareInput_eq {first second : InferInput} (same : SameTensor first second)
    (batchSize : Nat) (buffer : BufferTritonReader) :
    shareInput batchSize buffer second = shareInput batchSize buffer first := by
  unfold shareInput
  rw [same.dimensions, InferInput.mk.injEq]
  exact ⟨same.name, rfl, same.datatype, rfl⟩

private theorem shareInputs_congr (batchSize : Nat) {inputs others : List InferInput}
    (same : List.Forall₂ SameTensor inputs others) (buffers : List BufferTritonReader) :
    shareInputs batchSize others buffers = shareInputs batchSize inputs buffers := by
  induction same generalizing buffers with
  | nil => rfl
  | @cons first second inputs others tensor _ ih =>
      cases buffers with
      | nil => rfl
      | cons buffer later =>
          have empty : second.shape.isEmpty = first.shape.isEmpty := by
            rw [Bool.eq_iff_iff, List.isEmpty_iff, List.isEmpty_iff]
            exact tensor.ranked
          rw [shareInputs, shareInputs, empty, ih later, tensor.shareInput_eq]

/-- Rewriting leaves the names of the outputs, in their order. -/
theorem names_of_shareOutputs {outputs shared : List InferRequestedOutput}
    {buffers : List BufferTriton} (shares : shareOutputs outputs buffers = some shared) :
    shared.map InferRequestedOutput.name = outputs.map InferRequestedOutput.name := by
  induction outputs generalizing buffers shared with
  | nil => cases shares; rfl
  | cons output outputs ih =>
      cases buffers with
      | nil => cases shares
      | cons buffer later =>
          obtain ⟨rest, shares, same⟩ := Option.map_eq_some_iff.mp shares
          rw [← same, List.map_cons, List.map_cons, ih shares]
          rfl

private theorem shareOutputs_congr {outputs others : List InferRequestedOutput}
    (same : others.map InferRequestedOutput.name = outputs.map InferRequestedOutput.name)
    (buffers : List BufferTriton) : shareOutputs others buffers = shareOutputs outputs buffers := by
  induction outputs generalizing others buffers with
  | nil => rw [List.map_eq_nil_iff.mp same]
  | cons output outputs ih =>
      obtain ⟨other, rest, rfl, name, same⟩ := List.map_eq_cons_iff.mp same
      cases buffers with
      | nil => rfl
      | cons buffer later =>
          have object : shareOutput buffer other = shareOutput buffer output := by
            rw [shareOutput, shareOutput, name]
          rw [shareOutputs, shareOutputs, ih same later, object]

/-- What every sequence of calls keeps of a model. -/
structure Retains (fresh model : TritonModelImpl) : Prop where
  modelName : model.modelName = fresh.modelName
  inputs : List.Forall₂ SameTensor fresh.inputPtrs model.inputPtrs
  outputs : model.outputPtrs.map InferRequestedOutput.name =
    fresh.outputPtrs.map InferRequestedOutput.name

/-- A model retains itself. -/
theorem Retains.refl (model : TritonModelImpl) : Retains model model :=
  ⟨rfl, List.forall₂_same.mpr fun input _ => .refl input, rfl⟩

/-- What a call of `infer_batch_zerocopy` does to the tensors. -/
theorem infer_eq_some {model after : TritonModelImpl} {call : InferCall}
    (inferred : model.infer call = some after) :
    ∃ inputs outputs,
      shareInputs call.batchSize model.inputPtrs call.inBuffers = some inputs ∧
      shareOutputs model.outputPtrs call.outBuffers = some outputs ∧
      after = { model with inputPtrs := inputs, outputPtrs := outputs } := by
  obtain ⟨result, infers, same⟩ := Option.map_eq_some_iff.mp inferred
  obtain ⟨inputs, sharesIn, infers⟩ := Option.bind_eq_some_iff.mp infers
  obtain ⟨outputs, sharesOut, infers⟩ := Option.bind_eq_some_iff.mp infers
  cases infers
  exact ⟨inputs, outputs, sharesIn, sharesOut, same.symm⟩

/-- A call keeps the name of the model and rewrites its tensors in place. -/
theorem Retains.infer {fresh model after : TritonModelImpl} {call : InferCall}
    (retains : Retains fresh model) (inferred : model.infer call = some after) :
    Retains fresh after := by
  obtain ⟨inputs, outputs, sharesIn, sharesOut, rfl⟩ := infer_eq_some inferred
  refine ⟨retains.modelName, ?_, (names_of_shareOutputs sharesOut).trans retains.outputs⟩
  exact retains.inputs.comp (sameTensors_of_shareInputs sharesIn) fun _ _ _ => .trans

private theorem retains_of_calls {fresh model : TritonModelImpl} {calls : List InferCall}
    (history : Transition.follow infer fresh calls = some model) : Retains fresh model := by
  obtain ⟨taken, run, _⟩ := Transition.Run.of_follow history
  exact run.invariant_of_step (Retains fresh) (.refl fresh)
    fun _ _ _ inferred retains => retains.infer inferred

/-! ## The last call -/

/-- The request of a call, from the objects as they are rewritten. -/
theorem built_body (model : TritonModelImpl) (call : InferCall) :
    (model.built call).map InferRequest.body =
      (shareInputs call.batchSize model.inputPtrs call.inBuffers).bind fun inputs =>
        (shareOutputs model.outputPtrs call.outBuffers).map fun outputs =>
          ⟨model.modelName, inputs, outputs, none⟩ := by
  unfold built inferBatchZerocopy
  cases shareInputs call.batchSize model.inputPtrs call.inBuffers with
  | none => rfl
  | some inputs => cases shareOutputs model.outputPtrs call.outBuffers <;> rfl

private theorem Retains.built_eq {fresh model : TritonModelImpl} (retains : Retains fresh model)
    {call other : InferCall} (same : call.Same other) :
    (model.built other).map InferRequest.body = (fresh.built call).map InferRequest.body := by
  rw [built_body, built_body, same.inBuffers, same.outBuffers, same.batchSize, retains.modelName,
    shareInputs_congr _ retains.inputs, shareOutputs_congr retains.outputs]

private theorem isSome_built (model : TritonModelImpl) (call : InferCall) :
    (model.built call).isSome ↔
      model.inputPtrs.length ≤ call.inBuffers.length ∧
        (∀ input ∈ model.inputPtrs, input.shape ≠ []) ∧
        model.outputPtrs.length ≤ call.outBuffers.length := by
  have body : (model.built call).isSome = ((model.built call).map InferRequest.body).isSome :=
    Option.isSome_map.symm
  rw [body, built_body, ← isSome_shareOutputs, ← and_assoc,
    ← isSome_shareInputs call.batchSize]
  cases shareInputs call.batchSize model.inputPtrs call.inBuffers with
  | none => exact iff_of_false Bool.false_ne_true fun both => Bool.false_ne_true both.1
  | some inputs =>
      rw [Option.bind_some, Option.isSome_map]
      exact (and_iff_right rfl).symm

/-! ## Models of the same metadata -/

/-- The constructor names the model after its argument. -/
theorem modelName_of_create (statics : Statics) (modelName : String) (async healthy : Bool)
    (inputs outputs : List IoMetadata) :
    (create statics modelName async healthy inputs outputs).1.modelName = modelName := by
  cases healthy with
  | false => rfl
  | true =>
      calc (create statics modelName async true inputs outputs).1.modelName
          = (configureInputs statics { modelName, async } inputs).1.modelName :=
            configures_outputs.keeps TritonModelImpl.modelName (fun _ _ _ => rfl) _ _ outputs
        _ = modelName :=
            configures_inputs.keeps TritonModelImpl.modelName (fun _ _ _ => rfl) _ _ inputs

/-- The numbers that a constructor draws do not show in requests. -/
theorem retains_of_create (statics other : Statics) (modelName : String) (async healthy : Bool)
    (inputs outputs : List IoMetadata) :
    Retains (create statics modelName async healthy inputs outputs).1
      (create other modelName async healthy inputs outputs).1 := by
  have names := (modelName_of_create other modelName async healthy inputs outputs).trans
    (modelName_of_create statics modelName async healthy inputs outputs).symm
  cases healthy with
  | false => exact .refl _
  | true =>
      have first := configured_of_create statics modelName async inputs outputs
      have second := configured_of_create other modelName async inputs outputs
      refine ⟨names, ?_, ?_⟩
      · rw [first.inputPtrs, second.inputPtrs]
        exact List.forall₂_same.mpr fun input _ => .refl input
      · rw [first.outputPtrs, second.outputPtrs]

private theorem ranked_of_create {statics : Statics} {modelName : String} {async healthy : Bool}
    {inputs outputs : List IoMetadata} (ranked : ∀ ioMeta ∈ accepted inputs, ioMeta.shape ≠ []) :
    ∀ input ∈ (create statics modelName async healthy inputs outputs).1.inputPtrs,
      input.shape ≠ [] := by
  cases healthy with
  | false => exact fun input absurd => (List.not_mem_nil absurd).elim
  | true =>
      rw [(configured_of_create statics modelName async inputs outputs).inputPtrs,
        List.forall_mem_map]
      exact ranked

/-- **The request of the last call does not depend on the calls before it.** -/
theorem history_independent {statics : Statics} (other : Statics) {modelName : String}
    {async healthy : Bool} {inputs outputs : List IoMetadata} {first second : TritonModelImpl}
    {calls calls' : List InferCall} {call call' : InferCall}
    (ranked : ∀ ioMeta ∈ accepted inputs, ioMeta.shape ≠ [])
    (history : Transition.follow infer
      (create statics modelName async healthy inputs outputs).1 calls = some first)
    (history' : Transition.follow infer
      (create statics modelName async healthy inputs outputs).1 calls' = some second)
    (same : call.Same call') :
    (first.built call).map InferRequest.body = (second.built call').map InferRequest.body ∧
      (first.built call).map InferRequest.body =
        ((create other modelName async healthy inputs outputs).1.built call).map
          InferRequest.body ∧
      ((first.built call).isSome ↔
        first.inputPtrs.length ≤ call.inBuffers.length ∧
          first.outputPtrs.length ≤ call.outBuffers.length) := by
  have here : call.Same call := ⟨rfl, rfl, rfl⟩
  have retains := retains_of_calls history
  have asFresh := retains.built_eq here
  refine ⟨?_, ?_, ?_⟩
  · rw [asFresh, (retains_of_calls history').built_eq same]
  · rw [asFresh, (retains_of_create statics other ..).built_eq here]
  · have shapes : ∀ input ∈ first.inputPtrs, input.shape ≠ [] :=
      (retains.inputs.forall_mem_congr fun _ _ tensor => not_congr tensor.ranked).mpr
        (ranked_of_create ranked)
    rw [isSome_built, and_iff_right shapes]

open TritonBlock in
/-- A batch of two, and one that the client rejects. -/
def earlierCalls : List InferCall :=
  [⟨[twoBatches, twoBatches], [roomForThree], 2, .nothing, .success⟩,
    ⟨[oneBatch, twoBatches], [roomForThree], 1, .pass 3, .callError⟩]

open TritonBlock in
def oneBatchCall (cb : Callback) : InferCall :=
  ⟨[oneBatch, oneBatch], [roomForThree], 1, cb, .success⟩

/-- After a batch of two and a rejected call, a request is that of a fresh model. -/
theorem earlier_calls_forgotten :
    ∃ model, Transition.follow infer TritonBlock.pairBlock.model earlierCalls = some model ∧
      (model.built (oneBatchCall .nothing)).map InferRequest.body =
        (TritonBlock.pairBlock.model.built (oneBatchCall (.pass 7))).map InferRequest.body := by
  have follows :
      (Transition.follow infer TritonBlock.pairBlock.model earlierCalls).isSome = true := by
    decide +kernel
  obtain ⟨model, history⟩ := Option.isSome_iff_exists.mp follows
  have fresh : TritonBlock.pairBlock.model = (create {} "simple" false true TritonBlock.pairInputs
      TritonBlock.pairOutputs).1 := by decide +kernel
  have none : Transition.follow infer TritonBlock.pairBlock.model [] =
      some TritonBlock.pairBlock.model := rfl
  refine ⟨model, history, ?_⟩
  rw [fresh] at history none ⊢
  exact (history_independent {} (by decide) history none ⟨rfl, rfl, rfl⟩).1

end TritonModelImpl

end TorchDsp
