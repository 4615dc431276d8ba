import TorchDsp.Triton.Metadata

/-! # Models from the server's document

The constructor reads the tensors of a model out of the JSON document that the server
answers with. It reads an entry only when it gets to it, and it gets no further than the
first tensor without bytes: what stands behind may be of any kind
(`TorchDsp.TritonModelImpl.makeFrom_returns_iff`). The document belongs to a library
whose operations are a parameter here. Where one of them fails an assertion, there is no
model.
-/

namespace TorchDsp

/-- What the constructor asks of a document, whose values have the type `Value`. Without
a result an operation fails an assertion. -/
structure DocumentLibrary (Value : Type) where
  /-- `operator[]` with a name. -/
  member : Value → String → Option Value
  /-- The items that a loop over `GetArray` goes through. -/
  getArray : Value → Option (List Value)
  getInt64 : Value → Option Int
  /-- The characters that `GetString` points to. -/
  getString : Value → Option String

/-- A C string ends before its first NUL. -/
def cString (text : String) : String :=
  String.ofList (text.toList.takeWhile (· ≠ Char.ofNat 0))

namespace DocumentLibrary

variable {Value : Type}

/-- The entry lists the tensor: it has a shape of integers, of which only the magnitudes
count, and two texts. -/
structure Lists (library : DocumentLibrary Value) (entry : Value) (ioMeta : IoMetadata) :
    Prop where
  shape : ∃ value dimensions, ∃ listed : List Int, library.member entry "shape" = some value ∧
    library.getArray value = some dimensions ∧
    dimensions.map library.getInt64 = listed.map some ∧
    ioMeta.shape = TritonModelImpl.parseIoShape listed
  name : ∃ value text, library.member entry "name" = some value ∧
    library.getString value = some text ∧ ioMeta.name = cString text
  datatype : ∃ value text, library.member entry "datatype" = some value ∧
    library.getString value = some text ∧ ioMeta.datatype = cString text

end DocumentLibrary

namespace TritonModelImpl

variable {Value : Type} (library : DocumentLibrary Value)

/-! ## Parsing -/

/-- `parse_io_shape`, with the reading of the dimensions. -/
def parseIoShapeFrom (entry : Value) : Option (List Int) := do
  let dimensions ← library.getArray (← library.member entry "shape")
  return parseIoShape (← dimensions.mapM library.getInt64)

/-- `parse_io_name`, whose result is a `std::string`. -/
def parseIoName (entry : Value) : Option String := do
  return cString (← library.getString (← library.member entry "name"))

/-- `parse_io_datatype` -/
def parseIoDatatype (entry : Value) : Option String := do
  return cString (← library.getString (← library.member entry "datatype"))

/-- The tensor that an entry of the document stands for. -/
def ioMetadataOf (entry : Value) : Option IoMetadata := do
  let shape ← parseIoShapeFrom library entry
  let name ← parseIoName library entry
  let datatype ← parseIoDatatype library entry
  return { shape, name, datatype }

/-- The loop over the inputs of the document. -/
def configureInputsFrom :
    Statics → TritonModelImpl → List Value → Option (TritonModelImpl × Statics)
  | statics, model, [] => some (model, statics)
  | statics, model, entry :: rest => do
      let ioMeta ← ioMetadataOf library entry
      let (ioMem, statics) := allocateShm statics ioMeta
      if ioMem.elementByteSize = 0 then return (model, statics)
      else
        let model := { model with inputs := model.inputs ++ [ioMem] }
        let (model, statics) := createTritonInput statics model ioMeta
        configureInputsFrom statics model rest

/-- The loop over the outputs of the document. -/
def configureOutputsFrom :
    Statics → TritonModelImpl → List Value → Option (TritonModelImpl × Statics)
  | statics, model, [] => some (model, statics)
  | statics, model, entry :: rest => do
      let ioMeta ← ioMetadataOf library entry
      let (ioMem, statics) := allocateShm statics ioMeta
      if ioMem.elementByteSize = 0 then return (model, statics)
      else
        let model := { model with outputs := model.outputs ++ [ioMem] }
        let (model, statics) := createTritonOutput statics model ioMeta
        configureOutputsFrom statics model rest

/-- The constructor, from the document that the server answers with. -/
def createFrom (statics : Statics) (modelName : String) (async healthy : Bool)
    (document : Value) : Option (TritonModelImpl × Statics) :=
  if !healthy then some ({ modelName, async }, statics)
  else do
    let inputs ← library.getArray (← library.member document "inputs")
    let (model, statics) ← configureInputsFrom library statics { modelName, async } inputs
    let outputs ← library.getArray (← library.member document "outputs")
    configureOutputsFrom library statics model outputs

/-- `triton_model::make`, from the document. -/
def makeFrom (statics : Statics) (modelName : String) (async healthy : Bool)
    (document : Value) : Option (Option TritonModelImpl × Statics) := do
  let (model, statics) ← createFrom library statics modelName async healthy document
  return (if model.inputs.length = 0 then none else some model, statics)

variable {library}

/-- A loop that reads every value gets one result for each. -/
private theorem mapM_eq_some_iff {α β : Type} {read : α → Option β} {values : List α}
    {results : List β} : values.mapM read = some results ↔ values.map read = results.map some := by
  induction values generalizing results with
  | nil =>
      rw [List.mapM_nil, List.map_nil]
      exact ⟨fun same => by cases same; rfl, fun same => by
        rw [List.map_eq_nil_iff.mp same.symm]; rfl⟩
  | cons first rest ih =>
      simp only [List.mapM_cons, bind, Option.bind_eq_some_iff, pure, Option.some.injEq,
        List.map_cons]
      constructor
      · rintro ⟨result, here, others, later, rfl⟩
        rw [List.map_cons, here, ih.mp later]
      · intro same
        cases results with
        | nil => cases same
        | cons result others =>
            obtain ⟨here, later⟩ := List.cons.inj same
            exact ⟨result, here, others, ih.mpr later, rfl⟩

/-- **What an entry stands for.** -/
theorem ioMetadataOf_eq_some_iff {entry : Value} {ioMeta : IoMetadata} :
    ioMetadataOf library entry = some ioMeta ↔ library.Lists entry ioMeta := by
  simp only [ioMetadataOf, parseIoShapeFrom, parseIoName, parseIoDatatype, bind, pure,
    Option.bind_eq_some_iff, Option.some.injEq, mapM_eq_some_iff]
  constructor
  · rintro ⟨_, ⟨value, found, dimensions, items, listed, read, rfl⟩, _, ⟨value', found', text,
      named, rfl⟩, _, ⟨value'', found'', text', typed, rfl⟩, rfl⟩
    exact ⟨⟨value, dimensions, listed, found, items, read, rfl⟩, ⟨value', text, found', named, rfl⟩,
      ⟨value'', text', found'', typed, rfl⟩⟩
  · intro lists
    obtain ⟨value, dimensions, listed, found, items, read, shape⟩ := lists.shape
    obtain ⟨value', text, found', named, name⟩ := lists.name
    obtain ⟨value'', text', found'', typed, datatype⟩ := lists.datatype
    refine ⟨_, ⟨value, found, dimensions, items, listed, read, rfl⟩, _,
      ⟨value', found', text, named, rfl⟩, _, ⟨value'', found'', text', typed, rfl⟩, ?_⟩
    rw [← shape, ← name, ← datatype]

/-- An entry lists one tensor. -/
private theorem lists_unique {entry : Value} {listed ioMeta : IoMetadata}
    (lists : library.Lists entry listed) (read : ioMetadataOf library entry = some ioMeta) :
    listed = ioMeta :=
  Option.some.inj ((ioMetadataOf_eq_some_iff.mpr lists).symm.trans read)

/-! ## Reading entry by entry -/

/-- The tensors that a loop of the constructor reads from the entries of an array. -/
inductive Reads (library : DocumentLibrary Value) : List Value → List IoMetadata → Prop
  | nil : Reads library [] []
  /-- Nothing is asked of the entries behind a tensor without bytes. -/
  | stop {entry : Value} {ioMeta : IoMetadata} (rest : List Value)
      (lists : library.Lists entry ioMeta) (empty : elementByteSize ioMeta = 0) :
      Reads library (entry :: rest) [ioMeta]
  | next {entry : Value} {ioMeta : IoMetadata} {rest : List Value} {listed : List IoMetadata}
      (lists : library.Lists entry ioMeta) (bytes : elementByteSize ioMeta ≠ 0)
      (onward : Reads library rest listed) : Reads library (entry :: rest) (ioMeta :: listed)

/-- A loop of the constructor over the entries of a document. -/
structure ConfiguresFrom (library : DocumentLibrary Value)
    (loop : Statics → TritonModelImpl → List Value → Option (TritonModelImpl × Statics))
    (take : Statics → TritonModelImpl → IoMetadata → TritonModelImpl × Statics) : Prop where
  ends : ∀ statics model, loop statics model [] = some (model, statics)
  fails : ∀ statics model entry rest, ioMetadataOf library entry = none →
    loop statics model (entry :: rest) = none
  stops : ∀ statics model entry ioMeta rest, ioMetadataOf library entry = some ioMeta →
    elementByteSize ioMeta = 0 →
      loop statics model (entry :: rest) = some (model, (allocateShm statics ioMeta).2)
  goes : ∀ statics model entry ioMeta rest, ioMetadataOf library entry = some ioMeta →
    elementByteSize ioMeta ≠ 0 →
      loop statics model (entry :: rest) =
        loop (take statics model ioMeta).2 (take statics model ioMeta).1 rest

private theorem configures_inputsFrom :
    ConfiguresFrom library (configureInputsFrom library) takeInput := by
  refine ⟨fun _ _ => rfl, fun _ _ _ _ unread => ?_, fun _ _ _ _ _ read empty => ?_,
    fun _ _ _ _ _ read bytes => ?_⟩
  · rw [configureInputsFrom, unread]
    rfl
  · rw [configureInputsFrom, read]
    exact if_pos empty
  · rw [configureInputsFrom, read]
    exact if_neg bytes

private theorem configures_outputsFrom :
    ConfiguresFrom library (configureOutputsFrom library) takeOutput := by
  refine ⟨fun _ _ => rfl, fun _ _ _ _ unread => ?_, fun _ _ _ _ _ read empty => ?_,
    fun _ _ _ _ _ read bytes => ?_⟩
  · rw [configureOutputsFrom, unread]
    rfl
  · rw [configureOutputsFrom, read]
    exact if_pos empty
  · rw [configureOutputsFrom, read]
    exact if_neg bytes

/-- Of the list after an unreadable entry nothing is read. -/
private theorem not_reads_of_none {entry : Value} {rest : List Value} {listed : List IoMetadata}
    (unread : ioMetadataOf library entry = none) : ¬ Reads library (entry :: rest) listed := by
  intro reads
  cases reads with
  | stop _ lists | next lists =>
      rw [ioMetadataOf_eq_some_iff.mpr lists] at unread
      cases unread

/-- Of the list after a tensor without bytes only that tensor is read. -/
private theorem reads_cons_iff_of_empty {entry : Value} {rest : List Value} {ioMeta : IoMetadata}
    {listed : List IoMetadata} (read : ioMetadataOf library entry = some ioMeta)
    (empty : elementByteSize ioMeta = 0) :
    Reads library (entry :: rest) listed ↔ listed = [ioMeta] := by
  constructor
  · intro reads
    cases reads with
    | stop _ lists => rw [lists_unique lists read]
    | next lists bytes => exact (bytes (lists_unique lists read ▸ empty)).elim
  · rintro rfl
    exact .stop rest (ioMetadataOf_eq_some_iff.mp read) empty

/-- After a tensor with bytes the reading goes on. -/
private theorem reads_cons_iff_of_bytes {entry : Value} {rest : List Value} {ioMeta : IoMetadata}
    {listed : List IoMetadata} (read : ioMetadataOf library entry = some ioMeta)
    (bytes : elementByteSize ioMeta ≠ 0) :
    Reads library (entry :: rest) listed ↔
      ∃ later, Reads library rest later ∧ listed = ioMeta :: later := by
  constructor
  · intro reads
    cases reads with
    | stop _ lists stops => exact (bytes (lists_unique lists read ▸ stops)).elim
    | next lists _ onward => exact ⟨_, onward, by rw [lists_unique lists read]⟩
  · rintro ⟨later, onward, rfl⟩
    exact .next (ioMetadataOf_eq_some_iff.mp read) bytes onward

/-- **A loop over the document.** It is the loop over the tensors that it reads. -/
theorem ConfiguresFrom.eq_some_iff
    {loop : Statics → TritonModelImpl → List IoMetadata → TritonModelImpl × Statics}
    {loopFrom : Statics → TritonModelImpl → List Value → Option (TritonModelImpl × Statics)}
    {take : Statics → TritonModelImpl → IoMetadata → TritonModelImpl × Statics}
    (configuresFrom : ConfiguresFrom library loopFrom take) (configures : Configures loop take)
    {statics : Statics} {model : TritonModelImpl} {entries : List Value}
    {result : TritonModelImpl × Statics} :
    loopFrom statics model entries = some result ↔
      ∃ listed, Reads library entries listed ∧ result = loop statics model listed := by
  induction entries generalizing statics model with
  | nil =>
      rw [configuresFrom.ends]
      constructor
      · intro same
        cases same
        exact ⟨[], .nil, (configures.ends _ _).symm⟩
      · rintro ⟨listed, reads, rfl⟩
        cases reads
        rw [configures.ends]
  | cons entry rest ih =>
      cases read : ioMetadataOf library entry with
      | none =>
          rw [configuresFrom.fails _ _ _ _ read]
          exact iff_of_false (fun absurd => by cases absurd)
            fun ⟨_, reads, _⟩ => not_reads_of_none read reads
      | some ioMeta =>
          by_cases empty : elementByteSize ioMeta = 0
          · rw [configuresFrom.stops _ _ _ _ _ read empty]
            constructor
            · intro same
              cases same
              exact ⟨[ioMeta], (reads_cons_iff_of_empty read empty).mpr rfl,
                (configures.stops _ _ _ _ empty).symm⟩
            · rintro ⟨listed, reads, rfl⟩
              obtain rfl := (reads_cons_iff_of_empty read empty).mp reads
              rw [configures.stops _ _ _ _ empty]
          · rw [configuresFrom.goes _ _ _ _ _ read empty, ih]
            constructor
            · rintro ⟨listed, reads, rfl⟩
              exact ⟨ioMeta :: listed, (reads_cons_iff_of_bytes read empty).mpr ⟨_, reads, rfl⟩,
                (configures.goes _ _ _ _ empty).symm⟩
            · rintro ⟨listed, reads, rfl⟩
              obtain ⟨later, onward, rfl⟩ := (reads_cons_iff_of_bytes read empty).mp reads
              exact ⟨later, onward, configures.goes _ _ _ _ empty⟩

/-- The member of the document is an array from which the tensors are read. -/
def Holds (library : DocumentLibrary Value) (document : Value) (key : String)
    (listed : List IoMetadata) : Prop :=
  ∃ value entries, library.member document key = some value ∧
    library.getArray value = some entries ∧ Reads library entries listed

/-- The constructor gets through the document of a healthy server exactly if both lists
are arrays and their entries can be read as far as it reads them. -/
theorem createFrom_eq_some_iff (statics : Statics) (modelName : String) (async : Bool)
    (document : Value) (result : TritonModelImpl × Statics) :
    createFrom library statics modelName async true document = some result ↔
      ∃ inputs outputs, Holds library document "inputs" inputs ∧
        Holds library document "outputs" outputs ∧
        result = create statics modelName async true inputs outputs := by
  simp only [createFrom, Bool.not_true, Bool.false_eq_true, ↓reduceIte, bind,
    Option.bind_eq_some_iff, configures_inputsFrom.eq_some_iff configures_inputs,
    configures_outputsFrom.eq_some_iff configures_outputs]
  constructor
  · rintro ⟨value, found, entries, items, _, ⟨inputs, reads, rfl⟩, value', found', entries',
      items', outputs, reads', rfl⟩
    exact ⟨inputs, outputs, ⟨value, entries, found, items, reads⟩,
      ⟨value', entries', found', items', reads'⟩, rfl⟩
  · rintro ⟨inputs, outputs, ⟨value, entries, found, items, reads⟩,
      ⟨value', entries', found', items', reads'⟩, rfl⟩
    exact ⟨value, found, entries, items, _, ⟨inputs, reads, rfl⟩, value', found', entries',
      items', outputs, reads', rfl⟩

/-- **Which documents make a model.** A model is returned exactly if the server is
healthy, the constructor gets through its document, and the first input has bytes. -/
theorem makeFrom_returns_iff (statics statics' : Statics) (modelName : String)
    (async healthy : Bool) (document : Value) (model : TritonModelImpl) :
    makeFrom library statics modelName async healthy document = some (some model, statics') ↔
      healthy = true ∧ ∃ inputs outputs, Holds library document "inputs" inputs ∧
        Holds library document "outputs" outputs ∧ (∃ first rest, inputs = first :: rest ∧
          elementByteSize first ≠ 0) ∧
        (model, statics') = create statics modelName async true inputs outputs := by
  have first_iff (inputs : List IoMetadata) : accepted inputs ≠ [] ↔
      ∃ first rest, inputs = first :: rest ∧ elementByteSize first ≠ 0 := by
    cases inputs with
    | nil => simp [accepted]
    | cons first rest =>
        by_cases empty : elementByteSize first = 0
        · simp [accepted_cons_of_no_bytes rest empty, empty]
        · simp [accepted_cons_of_bytes rest empty, empty]
  have count (inputs outputs : List IoMetadata) :
      (create statics modelName async true inputs outputs).1.inputs.length = 0 ↔
        accepted inputs = [] := by
    have lengths := congrArg List.length
      (configured_of_create statics modelName async inputs outputs).inputSizes
    rw [keptSizes, listedSizes, List.length_map, List.length_map] at lengths
    rw [lengths, List.length_eq_zero_iff]
  cases healthy with
  | false => simp [makeFrom, createFrom]
  | true =>
      simp only [makeFrom, bind, Option.bind_eq_some_iff, createFrom_eq_some_iff, true_and,
        pure, Option.some.injEq, Prod.mk.injEq]
      constructor
      · rintro ⟨_, ⟨inputs, outputs, holds, holds', rfl⟩, returned, rfl⟩
        rw [Option.ite_none_left_eq_some, Option.some.injEq, count] at returned
        obtain ⟨some, rfl⟩ := returned
        exact ⟨inputs, outputs, holds, holds', (first_iff inputs).mp some, rfl⟩
      · rintro ⟨inputs, outputs, holds, holds', some, same⟩
        refine ⟨_, ⟨inputs, outputs, holds, holds', rfl⟩, ?_, ?_⟩
        · rw [if_neg (mt (count inputs outputs).mp ((first_iff inputs).mpr some)), ← same]
        · rw [← same]

end TritonModelImpl

end TorchDsp
