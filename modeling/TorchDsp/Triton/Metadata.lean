import TorchDsp.Triton.Request

/-! # Models and the metadata they are made from

The bytes of a tensor pass through four integer types. The sizes that a model
reports are exact when the bytes of every listed tensor fit an `int`, and a block can be
made of the model when there is an output (`TorchDsp.TritonModelImpl.sizes_exact_iff`).
The constructor drops a tensor whose bytes are zero as a `size_t` together with all that
follow it in its list, and a model is returned if any input is left
(`TorchDsp.TritonModelImpl.makes_exactly_iff`).
-/

namespace TorchDsp

namespace IoMetadata

/-- The tensor as the constructor parses it. -/
def parse (listed : IoMetadata) : IoMetadata :=
  { listed with shape := TritonModelImpl.parseIoShape listed.shape }

/-- Parsing leaves the datatype. -/
@[simp]
theorem parse_datatype (listed : IoMetadata) : listed.parse.datatype = listed.datatype := rfl

/-- The product of the magnitudes of the listed dimensions. -/
def elements (listed : IoMetadata) : Nat :=
  (listed.shape.map Int.natAbs).prod

/-- The bytes of all elements. -/
def bytes (listed : IoMetadata) : Nat :=
  listed.elements * TritonModelImpl.itemsize listed.datatype

end IoMetadata

namespace TritonModelImpl

/-! ## Products of dimensions -/

/-- Wrapping after every factor is wrapping once. -/
theorem foldl_bmod_emod (dims : List Int) {product : Int} {exact : Nat}
    (same : product % 2 ^ 64 = (exact : Int) % 2 ^ 64) :
    (parseIoShape dims).foldl (fun product dimSize => Int.bmod (product * dimSize) (2 ^ 64))
        product % 2 ^ 64 = ((exact * (dims.map Int.natAbs).prod : Nat) : Int) % 2 ^ 64 := by
  induction dims generalizing product exact with
  | nil => rwa [List.map_nil, List.prod_nil, Nat.mul_one]
  | cons first rest ih =>
      rw [List.map_cons, List.prod_cons, ← Nat.mul_assoc]
      apply ih
      have wrapped : Int.bmod (product * (first.natAbs : Int)) (2 ^ 64) % 2 ^ 64 =
          product * (first.natAbs : Int) % 2 ^ 64 := Int.bmod_emod
      rw [wrapped, Int.mul_emod, same, ← Int.mul_emod, Int.natCast_mul]

private theorem numElements_parseIoShape (dims : List Int) :
    numElements (parseIoShape dims) = (dims.map Int.natAbs).prod % 2 ^ 64 := by
  have wrapped := @foldl_bmod_emod dims 1 1 rfl
  rw [Nat.one_mul] at wrapped
  unfold numElements sizeOfInt
  rw [wrapped]
  omega

/-- The bytes that a model keeps of a tensor are exact up to the size of a `size_t`. -/
theorem elementByteSize_parse (listed : IoMetadata) :
    elementByteSize listed.parse = listed.bytes % 2 ^ 64 := by
  unfold elementByteSize IoMetadata.bytes IoMetadata.elements IoMetadata.parse
  rw [numElements_parseIoShape, Nat.mod_mul_mod]

private theorem elementByteSize_parse_ne_zero_iff {listed : IoMetadata} :
    elementByteSize listed.parse ≠ 0 ↔ ¬ 2 ^ 64 ∣ listed.bytes := by
  rw [elementByteSize_parse, Nat.dvd_iff_mod_eq_zero]

private theorem accepted_eq_self_iff {listed : List IoMetadata} :
    accepted (listed.map IoMetadata.parse) = listed.map IoMetadata.parse ↔
      ∀ ioMeta ∈ listed, ¬ 2 ^ 64 ∣ ioMeta.bytes := by
  unfold accepted
  rw [List.takeWhile_eq_self_iff, List.forall_mem_map]
  simp only [decide_eq_true_eq, elementByteSize_parse_ne_zero_iff]

private theorem accepted_eq_nil_iff {listed : List IoMetadata} :
    accepted (listed.map IoMetadata.parse) = [] ↔
      ∀ first, listed.head? = some first → 2 ^ 64 ∣ first.bytes := by
  cases listed with
  | nil => exact iff_of_true rfl fun first absurd => by cases absurd
  | cons first rest =>
      by_cases empty : elementByteSize first.parse = 0
      · rw [List.map_cons, accepted_cons_of_no_bytes _ empty]
        refine iff_of_true rfl fun other same => ?_
        cases same
        by_contra bytes
        exact elementByteSize_parse_ne_zero_iff.mpr bytes empty
      · rw [List.map_cons, accepted_cons_of_bytes _ empty]
        refine iff_of_false (List.cons_ne_nil _ _) fun all => ?_
        exact elementByteSize_parse_ne_zero_iff.mp empty (all first rfl)

/-! ## What a model reports -/

private theorem sizes_of_kept {memories : List IoMemory} {kept : List IoMetadata}
    (same : keptSizes memories = listedSizes kept) :
    (memories.map fun memory => intOfSize memory.elementByteSize) =
        (kept.map fun ioMeta => intOfSize (elementByteSize ioMeta)) ∧
      (memories.map fun memory => intOfSize memory.itemSize) =
        kept.map fun ioMeta => intOfSize (itemsize ioMeta.datatype) := by
  have sizes := congrArg (List.map fun sizes => intOfSize sizes.2) same
  have signature := congrArg (List.map fun sizes => intOfSize sizes.1) same
  simp only [keptSizes, listedSizes, List.map_map, Function.comp_def] at sizes signature
  exact ⟨sizes, signature⟩

/-! ## Which models are returned -/

/-- Metadata that describes a model: tensors on both sides, all of a supported
datatype and with elements. -/
structure Describable (inputs outputs : List IoMetadata) : Prop where
  someInput : inputs ≠ []
  someOutput : outputs ≠ []
  supported : ∀ listed ∈ inputs ++ outputs, itemsize listed.datatype ≠ 0
  elements : ∀ listed ∈ inputs ++ outputs, listed.elements ≠ 0

/-- A model has one entry for every listed tensor, in listing order. -/
structure OneEntryEach (inputs outputs : List IoMetadata) (model : TritonModelImpl) : Prop where
  inputSignature : model.getInputSignature =
    inputs.map fun listed => intOfSize (itemsize listed.datatype)
  inputSizes : model.getInputSizes =
    inputs.map fun listed => intOfSize (elementByteSize listed.parse)
  inputTensors : model.inputPtrs = inputs.map fun listed => inputOf listed.parse
  outputSignature : model.getOutputSignature =
    outputs.map fun listed => intOfSize (itemsize listed.datatype)
  outputSizes : model.getOutputSizes =
    outputs.map fun listed => intOfSize (elementByteSize listed.parse)
  outputTensors : model.outputPtrs = outputs.map fun listed => outputOf listed.parse

/-- Against a healthy server, `make` returns a model exactly for the metadata that
describes one, and the model has an entry for each tensor. -/
def MakesExactly (statics : Statics) (modelName : String) (async : Bool)
    (inputs outputs : List IoMetadata) : Prop :=
  ((make statics modelName async true (inputs.map IoMetadata.parse)
      (outputs.map IoMetadata.parse)).1.isSome ↔ Describable inputs outputs) ∧
    ∀ model, (make statics modelName async true (inputs.map IoMetadata.parse)
      (outputs.map IoMetadata.parse)).1 = some model → OneEntryEach inputs outputs model

private theorem describable_of_bytes {inputs outputs : List IoMetadata} (someInput : inputs ≠ [])
    (someOutput : outputs ≠ [])
    (bytes : ∀ listed ∈ inputs ++ outputs, ¬ 2 ^ 64 ∣ listed.bytes) :
    Describable inputs outputs := by
  refine ⟨someInput, someOutput, fun listed member zero => ?_, fun listed member zero => ?_⟩
  · apply bytes listed member
    rw [IoMetadata.bytes, zero, Nat.mul_zero]
    exact Nat.dvd_zero _
  · apply bytes listed member
    rw [IoMetadata.bytes, zero, Nat.zero_mul]
    exact Nat.dvd_zero _

/-- Only a list without a tensor to drop is kept in full. -/
theorem bytes_of_length {listed : List IoMetadata}
    (full : (accepted (listed.map IoMetadata.parse)).length = listed.length) :
    ∀ ioMeta ∈ listed, ¬ 2 ^ 64 ∣ ioMeta.bytes := by
  apply accepted_eq_self_iff.mp
  have front : accepted (listed.map IoMetadata.parse) <+: listed.map IoMetadata.parse :=
    List.takeWhile_prefix _
  exact front.eq_of_length (full.trans (List.length_map _).symm)

private theorem oneEntryEach_of_configured {inputs outputs : List IoMetadata}
    {model : TritonModelImpl}
    (configured : Configured (inputs.map IoMetadata.parse) (outputs.map IoMetadata.parse) model)
    (bytes : ∀ listed ∈ inputs ++ outputs, ¬ 2 ^ 64 ∣ listed.bytes) :
    OneEntryEach inputs outputs model := by
  have inputsKept := accepted_eq_self_iff.mpr fun listed member =>
    bytes listed (List.mem_append_left outputs member)
  have outputsKept := accepted_eq_self_iff.mpr fun listed member =>
    bytes listed (List.mem_append_right inputs member)
  obtain ⟨inputSizes, outputSizes, inputPtrs, outputPtrs⟩ := configured
  rw [inputsKept] at inputSizes inputPtrs
  rw [outputsKept] at outputSizes outputPtrs
  refine ⟨?_, ?_, ?_, ?_, ?_, ?_⟩
  · rw [getInputSignature, (sizes_of_kept inputSizes).2]
    simp only [List.map_map, Function.comp_def, IoMetadata.parse_datatype]
  · rw [getInputSizes, (sizes_of_kept inputSizes).1, List.map_map, Function.comp_def]
  · rw [inputPtrs, List.map_map, Function.comp_def]
  · rw [getOutputSignature, (sizes_of_kept outputSizes).2]
    simp only [List.map_map, Function.comp_def, IoMetadata.parse_datatype]
  · rw [getOutputSizes, (sizes_of_kept outputSizes).1, List.map_map, Function.comp_def]
  · rw [outputPtrs, List.map_map, Function.comp_def]

/-- **Which metadata is turned into its model.** -/
theorem makes_exactly_iff (statics : Statics) (modelName : String) (async : Bool)
    (inputs outputs : List IoMetadata) :
    MakesExactly statics modelName async inputs outputs ↔
      (inputs ≠ [] ∧ outputs ≠ [] ∧ ∀ listed ∈ inputs ++ outputs, ¬ 2 ^ 64 ∣ listed.bytes) ∨
        (∀ first, inputs.head? = some first → 2 ^ 64 ∣ first.bytes) ∧
          ¬ Describable inputs outputs := by
  have returns : (make statics modelName async true (inputs.map IoMetadata.parse)
      (outputs.map IoMetadata.parse)).1.isSome ↔
        ¬ ∀ first, inputs.head? = some first → 2 ^ 64 ∣ first.bytes := by
    rw [Option.isSome_iff_exists, ← accepted_eq_nil_iff]
    constructor
    · rintro ⟨model, made⟩
      exact (make_eq_some_iff.mp made).2.1
    · intro kept
      exact ⟨_, make_eq_some_iff.mpr ⟨rfl, kept, rfl⟩⟩
  unfold MakesExactly
  rw [returns]
  constructor
  · rintro ⟨exactly, entries⟩
    by_cases empty : ∀ first, inputs.head? = some first → 2 ^ 64 ∣ first.bytes
    · exact Or.inr ⟨empty, fun describable => exactly.mpr describable empty⟩
    · obtain ⟨model, made⟩ := Option.isSome_iff_exists.mp (returns.mpr empty)
      obtain ⟨someInput, someOutput, _, _⟩ := exactly.mp empty
      have configured := make_spec made
      have each := entries model made
      have inputsKept := congrArg List.length (configured.inputPtrs.symm.trans each.inputTensors)
      have outputsKept := congrArg List.length
        (configured.outputPtrs.symm.trans each.outputTensors)
      rw [List.length_map, List.length_map] at inputsKept outputsKept
      refine Or.inl ⟨someInput, someOutput, fun listed member => ?_⟩
      rcases List.mem_append.mp member with input | output
      · exact bytes_of_length inputsKept listed input
      · exact bytes_of_length outputsKept listed output
  · rintro (⟨someInput, someOutput, bytes⟩ | ⟨empty, none⟩)
    · refine ⟨iff_of_true (fun empty => ?_) (describable_of_bytes someInput someOutput bytes),
        fun model made => oneEntryEach_of_configured (make_spec made) bytes⟩
      obtain ⟨first, rest, rfl⟩ := List.exists_cons_of_ne_nil someInput
      exact bytes first List.mem_cons_self (empty first rfl)
    · refine ⟨iff_of_false (not_not_intro empty) none, fun model made => ?_⟩
      exact (returns.mp (by rw [made]; rfl) empty).elim

/-- A server that lists a second input of a datatype without item size. -/
def halfInputs : List IoMetadata := [⟨[-1, 4], "left", "FP32"⟩, ⟨[-1, 4], "right", "FP16"⟩]

/-- The model is made of the first input alone. -/
theorem truncated_model :
    (∃ model, (make {} "simple" false true (halfInputs.map IoMetadata.parse)
        ([⟨[-1, 4], "sum", "FP32"⟩].map IoMetadata.parse)).1 = some model ∧
      model.inputPtrs.map InferInput.name = ["left"]) ∧
    ¬ MakesExactly {} "simple" false halfInputs [⟨[-1, 4], "sum", "FP32"⟩] := by
  have kept : ((make {} "simple" false true (halfInputs.map IoMetadata.parse)
      ([⟨[-1, 4], "sum", "FP32"⟩].map IoMetadata.parse)).1.map
        fun model => model.inputPtrs.map InferInput.name) = some ["left"] := by decide
  obtain ⟨model, made, names⟩ := Option.map_eq_some_iff.mp kept
  refine ⟨⟨model, made, names⟩, fun exactly => ?_⟩
  have each := (exactly.2 model made).inputTensors
  rw [each] at names
  revert names
  decide

/-! ## Sizes without wrapping -/

/-- The reported size of a tensor is exact: no integer on its way wraps, and it is
the item size times the number of elements. -/
structure SizeExact (listed : IoMetadata) (size item : Int) : Prop where
  product : listed.parse.shape.foldl
    (fun product dimSize => Int.bmod (product * dimSize) (2 ^ 64)) 1 = listed.elements
  byteSize : elementByteSize listed.parse = listed.bytes
  converted : size = listed.bytes
  quotient : size.tdiv item = listed.elements
  positive : 0 < size.tdiv item

/-- Every listed tensor has an exact size. -/
def EachExact (listed : List IoMetadata) (sizes signature : List Int) : Prop :=
  ∀ (i : Nat) (ioMeta : IoMetadata), listed[i]? = some ioMeta →
    ∃ size item, sizes[i]? = some size ∧ signature[i]? = some item ∧ SizeExact ioMeta size item

/-- No division by the multiple of a block is by zero, neither in `round_down`, where
it is an `unsigned int`, nor in `work`. -/
structure Divides (b : TritonBlock) : Prop where
  positive : 0 < b.outputMultiple
  rounding : b.outputMultiple % 2 ^ 32 ≠ 0
  batches : ∃ batchItems, TritonBlock.numItemsPerBatch b.model = some batchItems ∧ batchItems ≠ 0

/-- All sizes of a model are exact, a block can be made of it, and the block divides by
no zero after any calls. -/
structure SizesExact (statics : Statics) (modelName : String) (async healthy : Bool)
    (inputs outputs : List IoMetadata) (model : TritonModelImpl) : Prop where
  ofInputs : EachExact inputs model.getInputSizes model.getInputSignature
  ofOutputs : EachExact outputs model.getOutputSizes model.getOutputSignature
  constructs : (TritonBlock.make statics modelName async healthy
    (inputs.map IoMetadata.parse) (outputs.map IoMetadata.parse)).isSome = true
  ofBlocks : ∀ fresh calls b, TritonBlock.make statics modelName async healthy
      (inputs.map IoMetadata.parse) (outputs.map IoMetadata.parse) = some fresh →
    Transition.follow TritonBlock.call fresh calls = some b → Divides b

/-- While the exact product is small, no factor wraps it. -/
theorem foldl_bmod_of_lt (dims : List Int) {exact : Nat}
    (positive : 0 < (dims.map Int.natAbs).prod)
    (small : exact * (dims.map Int.natAbs).prod < 2 ^ 63) :
    (parseIoShape dims).foldl (fun product dimSize => Int.bmod (product * dimSize) (2 ^ 64))
      (exact : Int) = ((exact * (dims.map Int.natAbs).prod : Nat) : Int) := by
  induction dims generalizing exact with
  | nil => rw [List.map_nil, List.prod_nil, Nat.mul_one]; rfl
  | cons first rest ih =>
      rw [List.map_cons, List.prod_cons] at positive small
      rw [List.map_cons, List.prod_cons, ← Nat.mul_assoc]
      rw [← Nat.mul_assoc] at small
      have others : 0 < (rest.map Int.natAbs).prod := Nat.pos_of_mul_pos_left positive
      have partly : exact * first.natAbs < 2 ^ 63 :=
        Nat.lt_of_le_of_lt (Nat.le_mul_of_pos_right _ others) small
      have kept : Int.bmod ((exact : Int) * (first.natAbs : Int)) (2 ^ 64) =
          ((exact * first.natAbs : Nat) : Int) := by
        rw [← Int.natCast_mul]
        exact int64OfSize_of_lt partly
      rw [parseIoShape, List.map_cons, List.foldl_cons, kept]
      exact ih others small

/-- A size is exact when it fits an `int`. -/
theorem sizeExact_iff {listed : IoMetadata} :
    SizeExact listed (intOfSize (elementByteSize listed.parse))
        (intOfSize (itemsize listed.datatype)) ↔
      itemsize listed.datatype ≠ 0 ∧ 0 < listed.elements ∧ listed.bytes ≤ intMax := by
  constructor
  · rintro ⟨_, _, converted, quotient, positive⟩
    refine ⟨fun unsupported => ?_, ?_, ?_⟩
    · rw [unsupported] at positive
      exact absurd positive (by rw [show intOfSize 0 = 0 from rfl, Int.tdiv_zero]; decide)
    · rw [quotient] at positive
      omega
    · have range := intOfSize_le_intMax (elementByteSize listed.parse)
      rw [converted] at range
      omega
  · rintro ⟨supported, positive, fits⟩
    have item : 0 < itemsize listed.datatype := Nat.pos_of_ne_zero supported
    have elements : listed.elements ≤ listed.bytes := Nat.le_mul_of_pos_right _ item
    have width : itemsize listed.datatype ≤ listed.bytes := Nat.le_mul_of_pos_left _ positive
    have byteSize : elementByteSize listed.parse = listed.bytes := by
      rw [elementByteSize_parse]
      unfold intMax at fits
      omega
    have quotient : (listed.bytes : Int).tdiv (itemsize listed.datatype) = listed.elements := by
      rw [IoMetadata.bytes, Int.natCast_mul]
      exact Int.mul_tdiv_cancel _ (by omega)
    rw [byteSize, intOfSize_of_le fits, intOfSize_of_le (Nat.le_trans width fits)]
    refine ⟨?_, byteSize, rfl, quotient, quotient ▸ by omega⟩
    have product := @foldl_bmod_of_lt listed.shape 1 positive (by
      rw [Nat.one_mul]
      unfold intMax IoMetadata.elements at *
      omega)
    rwa [Nat.one_mul] at product

/-- The sizes kept of a list are exact when each fits an `int`. -/
theorem eachExact_iff {listed : List IoMetadata} {memories : List IoMemory}
    (kept : keptSizes memories = listedSizes (accepted (listed.map IoMetadata.parse))) :
    EachExact listed (memories.map fun memory => intOfSize memory.elementByteSize)
        (memories.map fun memory => intOfSize memory.itemSize) ↔
      ∀ ioMeta ∈ listed, itemsize ioMeta.datatype ≠ 0 ∧ 0 < ioMeta.elements ∧
        ioMeta.bytes ≤ intMax := by
  have front : accepted (listed.map IoMetadata.parse) <+: listed.map IoMetadata.parse :=
    List.takeWhile_prefix _
  rw [(sizes_of_kept kept).1, (sizes_of_kept kept).2]
  constructor
  · intro exactly ioMeta member
    obtain ⟨i, here⟩ := List.mem_iff_getElem?.mp member
    obtain ⟨size, item, sized, signed, exactSize⟩ := exactly i ioMeta here
    rw [List.getElem?_map] at sized signed
    obtain ⟨parsed, held, rfl⟩ := Option.map_eq_some_iff.mp sized
    rw [held, Option.map_some, Option.some.injEq] at signed
    obtain ⟨within, rfl⟩ := List.getElem?_eq_some_iff.mp held
    have same := List.prefix_iff_getElem?.mp front i within
    rw [List.getElem?_map, here, Option.map_some, Option.some.injEq] at same
    rw [← signed, ← same, IoMetadata.parse_datatype] at exactSize
    exact sizeExact_iff.mp exactSize
  · intro each i ioMeta here
    have whole : accepted (listed.map IoMetadata.parse) = listed.map IoMetadata.parse := by
      apply accepted_eq_self_iff.mpr
      intro other member divides
      obtain ⟨supported, positive, fits⟩ := each other member
      have bytes : 0 < other.bytes := Nat.mul_pos positive (Nat.pos_of_ne_zero supported)
      have large := Nat.le_of_dvd bytes divides
      unfold intMax at fits
      omega
    refine ⟨_, _, ?_, ?_, sizeExact_iff.mpr (each ioMeta (List.mem_of_getElem? here))⟩
    · simp only [whole, List.getElem?_map, here, Option.map_some]
    · simp only [whole, List.getElem?_map, here, Option.map_some, IoMetadata.parse_datatype]

/-- An exact size is divided by an item size that is not zero. -/
theorem SizeExact.item_ne_zero {listed : IoMetadata} {size item : Int}
    (exactSize : SizeExact listed size item) : item ≠ 0 := by
  intro zero
  have positive := exactSize.positive
  rw [zero, Int.tdiv_zero] at positive
  exact Int.lt_irrefl _ positive

/-- A block whose first output has an exact size divides by no zero. -/
theorem divides_of_exact {b : TritonBlock} {listed : IoMetadata} {size item : Int}
    (sized : b.model.getOutputSizes.head? = some size)
    (signed : b.model.getOutputSignature.head? = some item)
    (perBatch : TritonBlock.numItemsPerBatch b.model = some b.outputMultiple)
    (exactSize : SizeExact listed size item) (fits : listed.elements ≤ intMax) : Divides b := by
  have multiple : b.outputMultiple = listed.elements := by
    rw [TritonBlock.numItemsPerBatch, sized, signed] at perBatch
    simp only [if_neg exactSize.item_ne_zero, Option.some.injEq] at perBatch
    rw [← perBatch, exactSize.quotient, sizeOfInt_of_le fits]
  have positive : 0 < listed.elements := by
    have quotient := exactSize.positive
    rw [exactSize.quotient] at quotient
    omega
  unfold intMax at fits
  exact ⟨by omega, by omega, _, perBatch, by omega⟩

/-- A block is made of a model whose first output has an exact size. -/
theorem constructs_of_exact {statics : Statics} {modelName : String} {async healthy : Bool}
    {inputs outputs : List IoMetadata} {model : TritonModelImpl} {first : IoMetadata}
    {rest : List IoMetadata} (made : (make statics modelName async healthy
      (inputs.map IoMetadata.parse) (outputs.map IoMetadata.parse)).1 = some model)
    (listed : outputs = first :: rest)
    (exactly : EachExact outputs model.getOutputSizes model.getOutputSignature) :
    (TritonBlock.make statics modelName async healthy (inputs.map IoMetadata.parse)
      (outputs.map IoMetadata.parse)).isSome = true := by
  obtain ⟨size, item, sized, signed, exactSize⟩ := exactly 0 first (by rw [listed]; rfl)
  have perBatch : TritonBlock.numItemsPerBatch model = some (sizeOfInt (size.tdiv item)) := by
    rw [TritonBlock.numItemsPerBatch, List.head?_eq_getElem?, List.head?_eq_getElem?, sized,
      signed]
    exact if_neg exactSize.item_ne_zero
  rw [TritonBlock.make, made, Option.bind_eq_bind, Option.bind_some, perBatch]
  rfl

/-- No block is made of a model without outputs. -/
theorem outputs_ne_nil_of_constructs {statics : Statics} {modelName : String}
    {async healthy : Bool} {inputs outputs : List IoMetadata}
    (constructs : (TritonBlock.make statics modelName async healthy
      (inputs.map IoMetadata.parse) (outputs.map IoMetadata.parse)).isSome = true) :
    outputs ≠ [] := by
  intro listed
  obtain ⟨fresh, constructed⟩ := Option.isSome_iff_exists.mp constructs
  obtain ⟨made, perBatch⟩ := TritonBlock.make_eq_some constructed
  have none := (make_spec made).length_outputs
  rw [listed, List.map_nil, accepted, List.takeWhile_nil, List.length_nil,
    List.length_eq_zero_iff] at none
  rw [TritonBlock.numItemsPerBatch, getOutputSizes, none] at perBatch
  cases perBatch

/-- **When the sizes of a model are exact.** -/
theorem sizes_exact_iff {statics : Statics} {modelName : String} {async healthy : Bool}
    {inputs outputs : List IoMetadata} {model : TritonModelImpl}
    (made : (make statics modelName async healthy (inputs.map IoMetadata.parse)
      (outputs.map IoMetadata.parse)).1 = some model) :
    SizesExact statics modelName async healthy inputs outputs model ↔
      outputs ≠ [] ∧ ∀ listed ∈ inputs ++ outputs, itemsize listed.datatype ≠ 0 ∧
        0 < listed.elements ∧ listed.bytes ≤ intMax := by
  have configured := make_spec made
  have inputsExact : EachExact inputs model.getInputSizes model.getInputSignature ↔ _ :=
    eachExact_iff configured.inputSizes
  have outputsExact : EachExact outputs model.getOutputSizes model.getOutputSignature ↔ _ :=
    eachExact_iff configured.outputSizes
  rw [List.forall_mem_append, ← inputsExact, ← outputsExact]
  constructor
  · intro exactly
    exact ⟨outputs_ne_nil_of_constructs exactly.constructs, exactly.ofInputs, exactly.ofOutputs⟩
  · rintro ⟨someOutput, ofInputs, ofOutputs⟩
    obtain ⟨first, rest, listed⟩ := List.exists_cons_of_ne_nil someOutput
    refine ⟨ofInputs, ofOutputs, constructs_of_exact made listed ofOutputs,
      fun fresh calls b constructed history => ?_⟩
    have perBatch := TritonBlock.numItemsPerBatch_of_calls constructed history
    have same : b.model.outputs = model.outputs := by
      have constructed := (TritonBlock.make_eq_some constructed).1
      rw [made] at constructed
      cases constructed
      exact (TritonBlock.keeps_of_calls history).memories
    have here : outputs[0]? = some first := by rw [listed]; rfl
    obtain ⟨size, item, sized, signed, exactSize⟩ := ofOutputs 0 first here
    rw [← List.head?_eq_getElem?, getOutputSizes, ← same] at sized
    rw [← List.head?_eq_getElem?, getOutputSignature, ← same] at signed
    obtain ⟨supported, _, fits⟩ := outputsExact.mp ofOutputs first (List.mem_of_getElem? here)
    refine divides_of_exact sized signed perBatch exactSize (Nat.le_trans ?_ fits)
    exact Nat.le_mul_of_pos_right _ (Nat.pos_of_ne_zero supported)

/-- The sizes of a model with two inputs of four items are exact. -/
theorem pair_sizes_exact : ∃ model,
    (make {} "simple" false true
      ([⟨[-1, 4], "left", "FP32"⟩, ⟨[-1, 4], "right", "FP32"⟩].map IoMetadata.parse)
      ([⟨[-1, 4], "sum", "FP32"⟩].map IoMetadata.parse)).1 = some model ∧
    SizesExact {} "simple" false true
      [⟨[-1, 4], "left", "FP32"⟩, ⟨[-1, 4], "right", "FP32"⟩] [⟨[-1, 4], "sum", "FP32"⟩] model := by
  obtain ⟨model, made⟩ := Option.isSome_iff_exists.mp (show (make {} "simple" false true
    ([⟨[-1, 4], "left", "FP32"⟩, ⟨[-1, 4], "right", "FP32"⟩].map IoMetadata.parse)
    ([⟨[-1, 4], "sum", "FP32"⟩].map IoMetadata.parse)).1.isSome from by decide)
  exact ⟨model, made, (sizes_exact_iff made).mpr ⟨by decide, by decide⟩⟩

/-- An output of `2 ^ 30` elements of four bytes: a model and a block are made, and
the block has the output multiple zero. -/
theorem wrapped_size :
    ∃ model block, (make {} "wide" false true ([⟨[-1, 4], "samples", "FP32"⟩].map IoMetadata.parse)
        ([⟨[65536, 16384], "spectrum", "FP32"⟩].map IoMetadata.parse)).1 = some model ∧
      TritonBlock.make {} "wide" false true
        ([⟨[-1, 4], "samples", "FP32"⟩].map IoMetadata.parse)
        ([⟨[65536, 16384], "spectrum", "FP32"⟩].map IoMetadata.parse) = some block ∧
      model.getOutputSizes = [0] ∧ block.outputMultiple = 0 ∧
      ¬ SizesExact {} "wide" false true [⟨[-1, 4], "samples", "FP32"⟩]
        [⟨[65536, 16384], "spectrum", "FP32"⟩] model := by
  have blocks : (TritonBlock.make {} "wide" false true
      ([⟨[-1, 4], "samples", "FP32"⟩].map IoMetadata.parse)
      ([⟨[65536, 16384], "spectrum", "FP32"⟩].map IoMetadata.parse)).map
        (fun block => (block.model.getOutputSizes, block.outputMultiple)) = some ([0], 0) := by
    decide +kernel
  obtain ⟨block, constructed, values⟩ := Option.map_eq_some_iff.mp blocks
  obtain ⟨sizes, multiple⟩ := Prod.mk.inj values
  refine ⟨block.model, block, (TritonBlock.make_eq_some constructed).1, constructed, sizes,
    multiple, fun exactly => ?_⟩
  have positive := (exactly.ofBlocks block [] block constructed rfl).positive
  rw [multiple] at positive
  cases positive

end TritonModelImpl

end TorchDsp
