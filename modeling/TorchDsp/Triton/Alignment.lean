import Mathlib.Algebra.GroupWithZero.Nat
import TorchDsp.Triton.Request

/-! # Streams and the boundaries of tensors

A call of `work` sends one batch and publishes the items it was asked for. Being a
sync block, it consumes as many from each of its inputs. This count comes from the
first output tensor alone, while the server reads and writes every tensor by its own
shape. The streams stay at tensor boundaries exactly for models all of whose tensors
have the elements of that one (`TorchDsp.TritonBlock.streams_aligned_iff`).
-/

namespace TorchDsp

namespace TritonBlock

open TritonModelImpl

/-- What the calls of `work` in a sequence of calls do, one after the other. -/
def results : TritonBlock → List BlockCall → Option (List WorkResult)
  | _, [] => some []
  | b, .setAsyncCallback cb :: rest => results (b.setAsyncCallback cb) rest
  | b, .work inBufs outBufs noutputItems outcome :: rest => do
      let result ← b.work inBufs outBufs noutputItems outcome
      let later ← results result.block rest
      return result :: later

/-- `work` is asked for a positive multiple of the output multiple. -/
def Whole (multiple : Nat) : BlockCall → Prop
  | .setAsyncCallback _ => True
  | .work _ _ noutputItems _ =>
      0 < noutputItems ∧ noutputItems < 2 ^ 64 ∧ multiple ∣ noutputItems

/-- The items that pass every port in a call are those of the batch it sends. A sync
block consumes from each input what it publishes. -/
structure Aligned (inputs outputs : List IoMetadata) (result : WorkResult) (batchSize : Int) :
    Prop where
  sends : result.request.inputs ≠ []
  sent : ∀ tensor ∈ result.request.inputs, tensor.shape.head? = some batchSize
  consumed : ∀ ioMeta ∈ inputs, (result.produced : Int) = batchSize * numElements ioMeta.shape
  published : ∀ ioMeta ∈ outputs, (result.produced : Int) = batchSize * numElements ioMeta.shape

/-- Every call is aligned, and so are the streams after all of them: what passed each
port are the tensors of all batches that were sent. -/
def StreamsAligned (inputs outputs : List IoMetadata) (results : List WorkResult) : Prop :=
  ∃ batchSizes, List.Forall₂ (Aligned inputs outputs) results batchSizes ∧
    ∀ ioMeta ∈ inputs ++ outputs, ((results.map WorkResult.produced).sum : Int) =
      batchSizes.sum * numElements ioMeta.shape

/-- All tensors have the elements that the call counts as a batch, and the batch fits
the dimension it is sent in. -/
def EvenlyAsked (inputs outputs : List IoMetadata) (multiple : Nat) : BlockCall → Prop
  | .setAsyncCallback _ => True
  | .work _ _ noutputItems _ => noutputItems / multiple < 2 ^ 63 ∧
      ∀ ioMeta ∈ inputs ++ outputs, numElements ioMeta.shape = multiple

private theorem head_of_shareInputs {batchSize : Nat} {inputs shared : List InferInput}
    {buffers : List BufferTritonReader}
    (shares : shareInputs batchSize inputs buffers = some shared) :
    ∀ tensor ∈ shared, tensor.shape.head? = some (int64OfSize batchSize) := by
  induction inputs generalizing buffers shared with
  | nil =>
      cases shares
      intro tensor absurd
      exact (List.not_mem_nil absurd).elim
  | cons first inputs ih =>
      obtain ⟨buffer, later, rest, rfl, _, onward, rfl⟩ := shareInputs_cons_eq_some shares
      exact List.forall_mem_cons.mpr ⟨rfl, ih onward⟩

/-- A count splits into batches of the elements of a tensor only when the call counts
the same elements. -/
theorem batch_mul_iff {noutputItems multiple elements : Nat} (positive : 0 < noutputItems)
    (size : noutputItems < 2 ^ 64) (divides : multiple ∣ noutputItems) :
    (noutputItems : Int) = int64OfSize (noutputItems / multiple) * elements ↔
      noutputItems / multiple < 2 ^ 63 ∧ elements = multiple := by
  have whole : noutputItems / multiple * multiple = noutputItems := Nat.div_mul_cancel divides
  constructor
  · intro split
    have forward : 0 < int64OfSize (noutputItems / multiple) := by
      by_contra backward
      have product := Int.mul_le_mul_of_nonneg_right (Int.not_lt.mp backward)
        (Int.natCast_nonneg elements)
      rw [← split, Int.zero_mul] at product
      omega
    have fits := lt_of_int64OfSize_pos (Nat.lt_of_le_of_lt (Nat.div_le_self _ _) size) forward
    refine ⟨fits, ?_⟩
    rw [int64OfSize_of_lt fits] at forward split
    rw [← Int.natCast_mul] at split
    apply Nat.eq_of_mul_eq_mul_left (Int.natCast_pos.mp forward)
    rw [whole]
    exact (Int.natCast_inj.mp split).symm
  · rintro ⟨fits, rfl⟩
    rw [int64OfSize_of_lt fits, ← Int.natCast_mul, whole]

private theorem aligned_iff {b : TritonBlock} {inputs outputs : List IoMetadata} {batchItems : Nat}
    {inBufs : List BufferTritonReader} {outBufs : List BufferTriton} {noutputItems : Nat}
    {outcome : ClientOutcome} {result : WorkResult} (someInput : inputs ≠ [])
    (someTensor : b.model.inputPtrs ≠ []) (perBatch : numItemsPerBatch b.model = some batchItems)
    (whole : Whole batchItems (.work inBufs outBufs noutputItems outcome))
    (worked : b.work inBufs outBufs noutputItems outcome = some result) :
    (∃ batchSize, Aligned inputs outputs result batchSize) ↔
      EvenlyAsked inputs outputs batchItems (.work inBufs outBufs noutputItems outcome) := by
  obtain ⟨_, _, found, tensors, _, same, _, sharesIn, _, rfl⟩ := work_eq_some worked
  rw [perBatch] at same
  cases same
  obtain ⟨positive, size, divides⟩ := whole
  have heads := head_of_shareInputs sharesIn
  have lengths := (sameTensors_of_shareInputs sharesIn).length_eq
  have sends : tensors ≠ [] := fun none => by
    rw [none, List.length_nil, List.length_eq_zero_iff] at lengths
    exact someTensor lengths
  have splits (ioMeta : IoMetadata) :=
    @batch_mul_iff noutputItems batchItems (numElements ioMeta.shape) positive size divides
  constructor
  · rintro ⟨batchSize, aligned⟩
    obtain ⟨tensor, member⟩ := List.exists_mem_of_ne_nil tensors sends
    have same : batchSize = int64OfSize (noutputItems / batchItems) :=
      Option.some.inj ((aligned.sent tensor member).symm.trans (heads tensor member))
    rw [same] at aligned
    have each : ∀ ioMeta ∈ inputs ++ outputs, (noutputItems : Int) =
        int64OfSize (noutputItems / batchItems) * numElements ioMeta.shape :=
      List.forall_mem_append.mpr ⟨aligned.consumed, aligned.published⟩
    obtain ⟨first, listed⟩ := List.exists_mem_of_ne_nil inputs someInput
    refine ⟨((splits first).mp (each first (List.mem_append_left _ listed))).1, ?_⟩
    intro ioMeta member
    exact ((splits ioMeta).mp (each ioMeta member)).2
  · rintro ⟨fits, evenly⟩
    refine ⟨_, sends, heads, fun ioMeta member => ?_, fun ioMeta member => ?_⟩
    · exact (splits ioMeta).mpr ⟨fits, evenly ioMeta (List.mem_append_left _ member)⟩
    · exact (splits ioMeta).mpr ⟨fits, evenly ioMeta (List.mem_append_right _ member)⟩

private theorem allAligned_iff {fresh b : TritonBlock} {inputs outputs : List IoMetadata}
    {batchItems : Nat} {calls : List BlockCall} {rs : List WorkResult} (someInput : inputs ≠ [])
    (someTensor : fresh.model.inputPtrs ≠ [])
    (perBatch : numItemsPerBatch fresh.model = some batchItems) (keeps : Keeps fresh b)
    (whole : ∀ action ∈ calls, Whole batchItems action) (performed : results b calls = some rs) :
    (∃ batchSizes, List.Forall₂ (Aligned inputs outputs) rs batchSizes) ↔
      ∀ action ∈ calls, EvenlyAsked inputs outputs batchItems action := by
  induction calls generalizing b rs with
  | nil =>
      cases performed
      exact iff_of_true ⟨[], .nil⟩ fun action absurd => (List.not_mem_nil absurd).elim
  | cons action rest ih =>
      obtain ⟨first, others⟩ := List.forall_mem_cons.mp whole
      rw [List.forall_mem_cons]
      cases action with
      | setAsyncCallback cb =>
          have kept : Keeps fresh (b.setAsyncCallback cb) :=
            ⟨keeps.memories, keeps.inputs, keeps.tensors, keeps.multiple⟩
          rw [ih kept others performed]
          exact (and_iff_right trivial).symm
      | work inBufs outBufs noutputItems outcome =>
          obtain ⟨result, worked, continued⟩ := Option.bind_eq_some_iff.mp performed
          obtain ⟨later, onward, same⟩ := Option.bind_eq_some_iff.mp continued
          cases same
          have called : b.call (.work inBufs outBufs noutputItems outcome) = some result.block := by
            rw [call, worked, Option.map_some]
          have held : b.model.inputPtrs ≠ [] := fun none => by
            have lengths := keeps.inputs.length_eq
            rw [none, List.length_nil, List.length_eq_zero_iff] at lengths
            exact someTensor lengths
          rw [← aligned_iff someInput held (keeps.perBatch perBatch) first worked,
            ← ih (keeps.call called) others onward]
          constructor
          · rintro ⟨batchSizes, aligned⟩
            cases aligned with
            | cons now after => exact ⟨⟨_, now⟩, _, after⟩
          · rintro ⟨⟨batchSize, now⟩, batchSizes, after⟩
            exact ⟨batchSize :: batchSizes, .cons now after⟩

/-- What passes a port in aligned calls are the tensors of their batches. -/
theorem passed_of_aligned {inputs outputs : List IoMetadata} {rs : List WorkResult}
    {batchSizes : List Int} (aligned : List.Forall₂ (Aligned inputs outputs) rs batchSizes)
    {ioMeta : IoMetadata} (member : ioMeta ∈ inputs ++ outputs) :
    ((rs.map WorkResult.produced).sum : Int) = batchSizes.sum * numElements ioMeta.shape := by
  induction aligned with
  | nil => rw [List.map_nil, List.sum_nil, List.sum_nil, Int.zero_mul]; rfl
  | cons first _ ih =>
      have one : ((_ : Nat) : Int) = _ := (List.mem_append.mp member).elim (first.consumed ioMeta)
        (first.published ioMeta)
      rw [List.map_cons, List.sum_cons, List.sum_cons, Int.natCast_add, Int.add_mul, ih, one]

/-- **When the streams stay aligned.** -/
theorem streams_aligned_iff {statics : Statics} {modelName : String} {async healthy : Bool}
    {inputs outputs : List IoMetadata} {fresh : TritonBlock} {calls : List BlockCall}
    {rs : List WorkResult}
    (constructed : make statics modelName async healthy inputs outputs = some fresh)
    (whole : ∀ action ∈ calls, Whole fresh.outputMultiple action)
    (performed : results fresh calls = some rs) :
    StreamsAligned (accepted inputs) (accepted outputs) rs ↔
      ∀ action ∈ calls, EvenlyAsked (accepted inputs) (accepted outputs) fresh.outputMultiple
        action := by
  obtain ⟨made, perBatch⟩ := make_eq_some constructed
  obtain ⟨_, someInput, _⟩ := make_eq_some_iff.mp made
  have someTensor : fresh.model.inputPtrs ≠ [] := by
    rw [(make_spec made).inputPtrs]
    exact mt List.map_eq_nil_iff.mp someInput
  rw [← allAligned_iff someInput someTensor perBatch (.refl fresh) whole performed]
  constructor
  · rintro ⟨batchSizes, aligned, _⟩
    exact ⟨batchSizes, aligned⟩
  · rintro ⟨batchSizes, aligned⟩
    exact ⟨batchSizes, aligned, fun ioMeta => passed_of_aligned aligned⟩

/-! ## Models with other lengths -/

def pairCalls : List BlockCall :=
  [.work [oneBatch, oneBatch] [roomForThree] 4 .success, .setAsyncCallback (.pass 1),
    .work [twoBatches, twoBatches] [roomForThree] 8 .success]

/-- Three batches in two calls of a model all of whose tensors have four elements. -/
theorem pair_aligned : ∃ rs, results pairBlock pairCalls = some rs ∧
    StreamsAligned (accepted pairInputs) (accepted pairOutputs) rs := by
  have made : make {} "simple" false true pairInputs pairOutputs = some pairBlock :=
    (Option.some_get _).symm
  obtain ⟨rs, performed⟩ := Option.isSome_iff_exists.mp
    (show (results pairBlock pairCalls).isSome from by decide +kernel)
  refine ⟨rs, performed, (streams_aligned_iff made ?_ performed).mpr ?_⟩
  · refine List.forall_mem_cons.mpr ⟨?_, List.forall_mem_cons.mpr ⟨trivial,
      List.forall_mem_cons.mpr ⟨?_, fun action absurd => (List.not_mem_nil absurd).elim⟩⟩⟩
    · exact ⟨by decide, by decide, 1, rfl⟩
    · exact ⟨by decide, by decide, 2, rfl⟩
  · refine List.forall_mem_cons.mpr ⟨?_, List.forall_mem_cons.mpr ⟨trivial,
      List.forall_mem_cons.mpr ⟨?_, fun action absurd => (List.not_mem_nil absurd).elim⟩⟩⟩
    · exact ⟨by decide, by decide⟩
    · exact ⟨by decide, by decide⟩

/-- A model that reduces two inputs of sixteen items to one item. -/
def reducingInputs : List IoMetadata :=
  [⟨parseIoShape [-1, 16], "left", "FP32"⟩, ⟨parseIoShape [-1, 16], "right", "FP32"⟩]

def reducingOutputs : List IoMetadata := [⟨parseIoShape [-1, 1], "power", "FP32"⟩]

/-- One item is consumed from each input, and the request sends a batch of sixteen. -/
theorem reducing_drifts : ∃ fresh rs,
    make {} "simple" false true reducingInputs reducingOutputs = some fresh ∧
      Whole fresh.outputMultiple (.work [oneBatch, oneBatch] [roomForThree] 1 .success) ∧
      results fresh [.work [oneBatch, oneBatch] [roomForThree] 1 .success] = some rs ∧
      rs.map (fun result => (result.produced, result.request.inputs.map InferInput.shape)) =
        [(1, [[1, 16], [1, 16]])] ∧
      ¬ StreamsAligned (accepted reducingInputs) (accepted reducingOutputs) rs := by
  have works : (make {} "simple" false true reducingInputs reducingOutputs).bind (fun fresh =>
      (results fresh [.work [oneBatch, oneBatch] [roomForThree] 1 .success]).map fun rs =>
        (fresh.outputMultiple,
          rs.map fun result => (result.produced, result.request.inputs.map InferInput.shape))) =
      some (1, [(1, [[1, 16], [1, 16]])]) := by decide +kernel
  obtain ⟨fresh, made, works⟩ := Option.bind_eq_some_iff.mp works
  obtain ⟨rs, performed, values⟩ := Option.map_eq_some_iff.mp works
  obtain ⟨multiple, values⟩ := Prod.mk.inj values
  have whole : Whole fresh.outputMultiple
      (.work [oneBatch, oneBatch] [roomForThree] 1 .success) := by
    rw [multiple]
    exact ⟨by decide, by decide, 1, rfl⟩
  refine ⟨fresh, rs, made, whole, performed, values, ?_⟩
  rintro ⟨batchSizes, _, streams⟩
  have total := streams ⟨[1, 16], "left", "FP32"⟩ (by decide)
  have items : numElements [1, 16] = 16 := by decide
  have one : rs.map WorkResult.produced = [1] := by
    have firsts := congrArg (List.map Prod.fst) values
    rwa [List.map_map] at firsts
  rw [one, items, List.sum_singleton] at total
  omega

end TritonBlock

end TorchDsp
