import Mathlib.Logic.Function.Basic
import TorchDsp.Triton.Objects

/-! # Moving model objects

The move constructor leaves the mode of the new object open and the move assignment
adds the source's tensors to those of the target; neither moves the registered names.
The lists of every object describe the same tensors, and every move hands over a model,
exactly in the runs that move nothing but objects without tensors, by assignment,
between objects of the same mode (`TorchDsp.ModelStore.faithful_iff`).
-/

namespace TorchDsp

namespace ModelObject

open TritonModelImpl

/-- The move constructor. It leaves `async_` uninitialised. -/
def moveFrom (other : ModelObject) : ModelObject where
  client := other.client
  options := { modelName := other.modelName }
  inputPtrs := other.inputPtrs
  outputPtrs := other.outputPtrs
  modelName := other.modelName
  inputs := other.inputs
  outputs := other.outputs
  results := other.results
  async := none

/-- The move assignment, from another object or from one without tensors. -/
def assign (this other : ModelObject) : ModelObject :=
  { this with
    client := other.client
    options := { this.options with modelName := other.modelName }
    inputPtrs := this.inputPtrs ++ other.inputPtrs
    outputPtrs := this.outputPtrs ++ other.outputPtrs
    modelName := other.modelName
    inputs := other.inputs
    outputs := other.outputs
    results := other.results }

/-- What a move leaves of its source: the shared pointers are copied, being constant. -/
def release (other : ModelObject) : ModelObject := { other with client := none }

def holdsTensors (object : ModelObject) : Bool :=
  !(object.inputPtrs.isEmpty && object.outputPtrs.isEmpty)

private theorem holdsTensors_eq_false_iff {object : ModelObject} :
    object.holdsTensors = false ↔ object.inputPtrs = [] ∧ object.outputPtrs = [] := by
  rw [holdsTensors, Bool.not_eq_false', Bool.and_eq_true, List.isEmpty_iff, List.isEmpty_iff]

/-! ## What the lists of an object describe -/

/-- Memory as `allocate_shm` returns it for a tensor. -/
def Allocated (ioMeta : IoMetadata) (memory : IoMemory) : Prop :=
  ∃ statics, memory = (allocateShm statics ioMeta).1

def Registered (word : String) (ioMeta : IoMetadata) (name : String) : Prop :=
  ∃ number : Nat, name = toString number ++ word ++ ioMeta.name

def InputBehind (heap : List InferInput) (ioMeta : IoMetadata) (ptr : Nat) : Prop :=
  ∃ input, heap[ptr]? = some input ∧ SameTensor (inputOf ioMeta) input

def OutputBehind (heap : List InferRequestedOutput) (ioMeta : IoMetadata) (ptr : Nat) : Prop :=
  ∃ output, heap[ptr]? = some output ∧ output.name = ioMeta.name

/-- Three lists describe the same tensors in the same order. -/
def Aligned (word : String) (behind : IoMetadata → Nat → Prop) (memories : List IoMemory)
    (ptrs : List Nat) (names : List String) : Prop :=
  ∃ metas, List.Forall₂ Allocated metas memories ∧ List.Forall₂ behind metas ptrs ∧
    List.Forall₂ (Registered word) metas names

/-- The representation invariant. -/
structure Represented (store : ModelStore) (object : ModelObject) : Prop where
  inputs : Aligned "input_" (InputBehind store.inputObjects) object.inputs object.inputPtrs
    object.registeredInputNames
  outputs : Aligned "output_" (OutputBehind store.outputObjects) object.outputs
    object.outputPtrs object.registeredOutputNames

section Aligned

variable {word : String} {behind behind' : IoMetadata → Nat → Prop} {memories : List IoMemory}
  {ptrs : List Nat} {names : List String}

/-- There are as many memories and names as pointers. -/
theorem Aligned.lengths (aligned : Aligned word behind memories ptrs names) :
    memories.length = ptrs.length ∧ names.length = ptrs.length := by
  obtain ⟨metas, allocated, pointed, registered⟩ := aligned
  rw [← allocated.length_eq, ← pointed.length_eq, ← registered.length_eq]
  exact ⟨rfl, rfl⟩

/-- Lists go on describing tensors that do not change. -/
theorem Aligned.mono (aligned : Aligned word behind memories ptrs names)
    (still : ∀ ioMeta ptr, behind ioMeta ptr → behind' ioMeta ptr) :
    Aligned word behind' memories ptrs names := by
  obtain ⟨metas, allocated, pointed, registered⟩ := aligned
  exact ⟨metas, allocated, pointed.imp still, registered⟩

/-- Without pointers there is nothing to describe. -/
theorem aligned_nil_iff :
    Aligned word behind memories [] names ↔ memories = [] ∧ names = [] := by
  constructor
  · intro aligned
    obtain ⟨noMemory, noName⟩ := aligned.lengths
    exact ⟨List.length_eq_zero_iff.mp noMemory, List.length_eq_zero_iff.mp noName⟩
  · rintro ⟨rfl, rfl⟩
    exact ⟨[], .nil, .nil, .nil⟩

/-- An assignment takes the memories of the source and leaves the names of the target. -/
theorem Aligned.assign_nil {memories' : List IoMemory} {names' : List String}
    (own : Aligned word behind memories [] names)
    (other : Aligned word behind' memories' [] names') :
    Aligned word behind memories' [] names :=
  aligned_nil_iff.mpr ⟨(aligned_nil_iff.mp other).1, (aligned_nil_iff.mp own).2⟩

/-- A target that ends up with the source's pointers has none of its own, and no names for
those that it takes. -/
theorem Aligned.nil_of_assign {memories' : List IoMemory} {ptrs' : List Nat}
    (own : Aligned word behind memories ptrs names)
    (after : Aligned word behind' memories' (ptrs ++ ptrs') names) (same : ptrs ++ ptrs' = ptrs') :
    ptrs = [] ∧ ptrs' = [] := by
  have none : ptrs = [] := List.append_left_eq_self.mp same
  have named := after.lengths.2
  rw [same, own.lengths.2, none] at named
  exact ⟨none, List.length_eq_zero_iff.mp named.symm⟩

end Aligned

/-- New tensor objects leave those behind the pointers as they are. -/
theorem Represented.grow {store store' : ModelStore} {object : ModelObject}
    {moreInputs : List InferInput} {moreOutputs : List InferRequestedOutput}
    (represented : Represented store object)
    (inputs : store'.inputObjects = store.inputObjects ++ moreInputs)
    (outputs : store'.outputObjects = store.outputObjects ++ moreOutputs) :
    Represented store' object := by
  constructor
  · refine represented.inputs.mono fun ioMeta ptr ⟨input, found, same⟩ => ⟨input, ?_, same⟩
    rw [inputs, List.getElem?_append_left (List.getElem?_eq_some_iff.mp found).1, found]
  · refine represented.outputs.mono fun ioMeta ptr ⟨output, found, same⟩ => ⟨output, ?_, same⟩
    rw [outputs, List.getElem?_append_left (List.getElem?_eq_some_iff.mp found).1, found]

/-! ## Objects that send the same requests -/

/-- What a call sends, by the members that it reads. -/
theorem sent_congr (object other : ModelObject) {store store' : ModelStore}
    (inputObjects : store'.inputObjects = store.inputObjects)
    (outputObjects : store'.outputObjects = store.outputObjects)
    (client : object.client = other.client) (async : object.async = other.async)
    (modelName : object.options.modelName = other.options.modelName)
    (inputPtrs : object.inputPtrs = other.inputPtrs)
    (outputPtrs : object.outputPtrs = other.outputPtrs) (call : InferCall) :
    object.sent store' call = other.sent store call := by
  simp only [sent, infer, Option.bind_eq_bind, Option.map_bind, Function.comp_def, inputObjects,
    outputObjects, client, async, modelName, inputPtrs, outputPtrs]
  rfl

/-- **A move assignment to an object without tensors hands the requests over.** -/
theorem sent_assign {this other : ModelObject} {store store' : ModelStore}
    (empty : this.holdsTensors = false) (mode : this.async = other.async)
    (options : other.options.modelName = other.modelName)
    (inputObjects : store'.inputObjects = store.inputObjects)
    (outputObjects : store'.outputObjects = store.outputObjects) (call : InferCall) :
    (this.assign other).sent store' call = other.sent store call := by
  obtain ⟨noInput, noOutput⟩ := holdsTensors_eq_false_iff.mp empty
  refine sent_congr (this.assign other) other inputObjects outputObjects rfl mode options.symm
    ?_ ?_ call
  · rw [assign, noInput, List.nil_append]
  · rw [assign, noOutput, List.nil_append]

/-- A move construction hands over all that a request needs but the mode. -/
theorem sent_moveFrom {other : ModelObject} {store store' : ModelStore}
    (options : other.options.modelName = other.modelName)
    (inputObjects : store'.inputObjects = store.inputObjects)
    (outputObjects : store'.outputObjects = store.outputObjects) (call : InferCall) :
    ({ other.moveFrom with async := other.async }).sent store' call = other.sent store call :=
  sent_congr { other.moveFrom with async := other.async } other inputObjects outputObjects rfl rfl
    options.symm rfl rfl call

end ModelObject

/-! ## Constructed objects -/

namespace TritonModelImpl

/-- A list that every accepted input adds an entry to. -/
theorem forall₂_inputs_of_create {γ : Type} (part : TritonModelImpl → List γ)
    (entry : IoMetadata → γ → Prop) {modelName : String} {async : Bool}
    (empty : part { modelName, async } = [])
    (added : ∀ statics model ioMeta, ∃ value, entry ioMeta value ∧
      part (takeInput statics model ioMeta).1 = part model ++ [value])
    (kept : ∀ statics model ioMeta, part (takeOutput statics model ioMeta).1 = part model)
    (statics : Statics) (inputs outputs : List IoMetadata) :
    List.Forall₂ entry (accepted inputs)
      (part (create statics modelName async true inputs outputs).1) := by
  obtain ⟨values, each, whole⟩ :=
    configures_inputs.grows part entry added statics { modelName, async } inputs
  rw [empty, List.nil_append] at whole
  have same : part (create statics modelName async true inputs outputs).1 = values :=
    (configures_outputs.keeps part kept _ _ outputs).trans whole
  rw [same]
  exact each

private theorem forall₂_outputs_of_create {γ : Type} (part : TritonModelImpl → List γ)
    (entry : IoMetadata → γ → Prop) {modelName : String} {async : Bool}
    (empty : part { modelName, async } = [])
    (added : ∀ statics model ioMeta, ∃ value, entry ioMeta value ∧
      part (takeOutput statics model ioMeta).1 = part model ++ [value])
    (kept : ∀ statics model ioMeta, part (takeInput statics model ioMeta).1 = part model)
    (statics : Statics) (inputs outputs : List IoMetadata) :
    List.Forall₂ entry (accepted outputs)
      (part (create statics modelName async true inputs outputs).1) := by
  obtain ⟨values, each, whole⟩ := configures_outputs.grows part entry added
    (configureInputs statics { modelName, async } inputs).2
    (configureInputs statics { modelName, async } inputs).1 outputs
  rw [configures_inputs.keeps part kept, empty, List.nil_append] at whole
  have same : part (create statics modelName async true inputs outputs).1 = values := whole
  rw [same]
  exact each

/-- The lists of a model describe the same tensors, whose objects are new. -/
structure Lists (inputs outputs : List IoMetadata) (model : TritonModelImpl) : Prop where
  inputMemories : List.Forall₂ ModelObject.Allocated inputs model.inputs
  outputMemories : List.Forall₂ ModelObject.Allocated outputs model.outputs
  inputPtrs : model.inputPtrs = inputs.map inputOf
  outputPtrs : model.outputPtrs = outputs.map outputOf
  inputNames : List.Forall₂ (ModelObject.Registered "input_") inputs model.registeredInputNames
  outputNames :
    List.Forall₂ (ModelObject.Registered "output_") outputs model.registeredOutputNames

private theorem lists_of_create (statics : Statics) (construction : Construction) :
    ∃ inputs outputs, Lists inputs outputs (construction.create statics).1 := by
  obtain ⟨modelName, async, healthy, inputs, outputs⟩ := construction
  cases healthy with
  | false => exact ⟨[], [], .nil, .nil, rfl, rfl, .nil, .nil⟩
  | true =>
      have configured := configured_of_create statics modelName async inputs outputs
      refine ⟨accepted inputs, accepted outputs, ?_, ?_, configured.inputPtrs,
        configured.outputPtrs, ?_, ?_⟩
      · exact forall₂_inputs_of_create TritonModelImpl.inputs _ rfl
          (fun statics _ _ => ⟨_, ⟨statics, rfl⟩, rfl⟩) (fun _ _ _ => rfl) statics inputs outputs
      · exact forall₂_outputs_of_create TritonModelImpl.outputs _ rfl
          (fun statics _ _ => ⟨_, ⟨statics, rfl⟩, rfl⟩) (fun _ _ _ => rfl) statics inputs outputs
      · exact forall₂_inputs_of_create TritonModelImpl.registeredInputNames _ rfl
          (fun statics _ _ => ⟨_, ⟨statics.inputNumber, rfl⟩, rfl⟩) (fun _ _ _ => rfl) statics
          inputs outputs
      · exact forall₂_outputs_of_create TritonModelImpl.registeredOutputNames _ rfl
          (fun statics _ _ => ⟨_, ⟨statics.outputNumber, rfl⟩, rfl⟩) (fun _ _ _ => rfl) statics
          inputs outputs

end TritonModelImpl

namespace ModelStore

/-- The object that a construction adds. -/
def constructed (store : ModelStore) (construction : TritonModelImpl.Construction)
    (tritonUrl : String) : ModelObject :=
  let model := (construction.create store.statics).1
  { client := some tritonUrl
    modelName := model.modelName
    inputPtrs := List.range' store.inputObjects.length model.inputPtrs.length
    outputPtrs := List.range' store.outputObjects.length model.outputPtrs.length
    inputs := model.inputs
    outputs := model.outputs
    registeredInputNames := model.registeredInputNames
    registeredOutputNames := model.registeredOutputNames
    async := some model.async
    options := { modelName := construction.modelName } }

/-- The constructor. Its tensor objects are new. -/
def construct (store : ModelStore) (construction : TritonModelImpl.Construction)
    (tritonUrl : String) : ModelStore :=
  let (model, statics) := construction.create store.statics
  { store with
    statics
    inputObjects := store.inputObjects ++ model.inputPtrs
    outputObjects := store.outputObjects ++ model.outputPtrs
    objects := store.objects ++ [store.constructed construction tritonUrl] }

variable (store : ModelStore) (construction : TritonModelImpl.Construction) (tritonUrl : String)

/-- **A constructed object holds its model.** -/
theorem holds_construct :
    (store.constructed construction tritonUrl).Holds (store.construct construction tritonUrl)
      (construction.create store.statics).1 where
  client := rfl
  modelName := (TritonModelImpl.modelName_of_create ..).symm
  mode := rfl
  inputs := Heap.points_range' store.inputObjects _
  outputs := Heap.points_range' store.outputObjects _
  inputsApart := List.nodup_range'
  outputsApart := List.nodup_range'

/-- It sends the requests that the model builds. -/
theorem sent_construct (call : TritonModelImpl.InferCall) :
    (store.constructed construction tritonUrl).sent (store.construct construction tritonUrl) call =
      (construction.create store.statics).1.built call :=
  (store.holds_construct construction tritonUrl).sent_eq call

/-- Its lists describe the same tensors. -/
theorem represented_construct :
    (store.constructed construction tritonUrl).Represented
      (store.construct construction tritonUrl) := by
  obtain ⟨inputs, outputs, lists⟩ := TritonModelImpl.lists_of_create store.statics construction
  have holds := store.holds_construct construction tritonUrl
  refine ⟨⟨inputs, lists.inputMemories, ?_, lists.inputNames⟩,
    ⟨outputs, lists.outputMemories, ?_, lists.outputNames⟩⟩
  · have points := holds.inputs
    rw [lists.inputPtrs, Heap.Points, List.forall₂_map_right_iff] at points
    exact points.flip.imp fun _ _ found => ⟨_, found, .refl _⟩
  · have points := holds.outputs
    rw [lists.outputPtrs, Heap.Points, List.forall₂_map_right_iff] at points
    exact points.flip.imp fun _ _ found => ⟨_, found, rfl⟩

end ModelStore

/-! ## Sequences of constructions and moves -/

/-- What a process does to its model objects, which are given by their positions. -/
inductive ModelOperation
  | construct (construction : TritonModelImpl.Construction) (tritonUrl : String)
  | moveConstruct (source : Nat)
  | moveAssign (target source : Nat)

/-- The objects of an operation have been constructed. -/
def ModelOperation.Within (store : ModelStore) : ModelOperation → Prop
  | .construct _ _ => True
  | .moveConstruct source => source < store.objects.length
  | .moveAssign target source =>
      target < store.objects.length ∧ source < store.objects.length

/-- The source and the target of a move. -/
def ModelOperation.ends (store : ModelStore) : ModelOperation → Option (Nat × Nat)
  | .construct _ _ => none
  | .moveConstruct source => some (source, store.objects.length)
  | .moveAssign target source => some (source, target)

namespace ModelStore

open ModelObject

/-- An object with tensors that is assigned to itself goes over vectors while it adds to
them, which has no result. -/
def apply (store : ModelStore) : ModelOperation → Option ModelStore
  | .construct construction tritonUrl => some (store.construct construction tritonUrl)
  | .moveConstruct source => do
      let other ← store.objects[source]?
      return { store with
        objects := store.objects.set source other.release ++ [other.moveFrom]
        movedFrom := Function.update store.movedFrom source true }
  | .moveAssign target source => do
      let this ← store.objects[target]?
      let other ← store.objects[source]?
      if target = source && this.holdsTensors then none
      else
        -- Without tensors, an assignment of an object to itself leaves it its client.
        return { store with
          objects := (store.objects.set source other.release).set target (this.assign other)
          movedFrom :=
            Function.update (Function.update store.movedFrom source true) target false }

/-- What a move hands over, and what the target then sends. -/
structure Transferred (store store' : ModelStore) (other this : ModelObject) : Prop where
  modelName : this.modelName = other.modelName
  mode : ∃ async, other.async = some async ∧ this.async = some async
  options : this.options = other.options
  inputs : this.inputs = other.inputs
  outputs : this.outputs = other.outputs
  inputPtrs : this.inputPtrs = other.inputPtrs
  outputPtrs : this.outputPtrs = other.outputPtrs
  sends : ∀ call, this.sent store' call = other.sent store call

/-- An operation leaves every object that has not been moved from represented, and a move
hands its source over. -/
structure Kept (store store' : ModelStore) (operation : ModelOperation) : Prop where
  represented : ∀ (index : Nat) (object : ModelObject), store'.objects[index]? = some object →
    store'.movedFrom index = false → object.Represented store'
  transferred : ∀ (source target : Nat) (other this : ModelObject),
    operation.ends store = some (source, target) → store.objects[source]? = some other →
      store'.objects[target]? = some this → Transferred store store' other this

/-- Every operation of a sequence has a result and keeps the objects. -/
def Faithful : ModelStore → List ModelOperation → Prop
  | _, [] => True
  | store, operation :: rest =>
      operation.Within store →
        ∃ store', store.apply operation = some store' ∧ Kept store store' operation ∧
          Faithful store' rest

/-- An assignment between objects without tensors that have the same mode. -/
def Bare (store : ModelStore) : ModelOperation → Prop
  | .construct _ _ => True
  | .moveConstruct _ => False
  | .moveAssign target source =>
      ∀ this other, store.objects[target]? = some this → store.objects[source]? = some other →
        this.holdsTensors = false ∧ other.holdsTensors = false ∧ this.async = other.async

/-- All moves of a sequence are bare. -/
def BareMoves : ModelStore → List ModelOperation → Prop
  | _, [] => True
  | store, operation :: rest =>
      operation.Within store →
        store.Bare operation ∧ ∀ store', store.apply operation = some store' →
          BareMoves store' rest

/-! ### What holds along the bare runs -/

/-- What the constructor sets up of an object. -/
structure Sound (store : ModelStore) (object : ModelObject) : Prop where
  represented : object.Represented store
  mode : ∃ async, object.async = some async
  options : object.options = { modelName := object.modelName }

def Good (store : ModelStore) : Prop := ∀ object ∈ store.objects, store.Sound object

private theorem sound_construct (store : ModelStore) (construction : TritonModelImpl.Construction)
    (tritonUrl : String) :
    (store.construct construction tritonUrl).Sound (store.constructed construction tritonUrl) := by
  refine ⟨store.represented_construct construction tritonUrl, ⟨_, rfl⟩, ?_⟩
  have name := TritonModelImpl.modelName_of_create store.statics construction.modelName
    construction.async construction.healthy construction.inputs construction.outputs
  exact congrArg (InferOptions.mk · "") name.symm

/-- A construction adds a good object and leaves the others good. -/
theorem Good.construct {store : ModelStore} (good : store.Good)
    (construction : TritonModelImpl.Construction) (tritonUrl : String) :
    (store.construct construction tritonUrl).Good := by
  intro object member
  rcases List.mem_append.mp member with before | added
  · have sound := good object before
    exact ⟨sound.represented.grow rfl rfl, sound.mode, sound.options⟩
  · rw [List.mem_singleton.mp added]
    exact store.sound_construct construction tritonUrl

/-- An assignment between objects without tensors leaves the target sound. -/
theorem sound_assign {store : ModelStore} {this other : ModelObject} (first : store.Sound this)
    (second : store.Sound other) (empty : this.holdsTensors = false)
    (bare : other.holdsTensors = false) : store.Sound (this.assign other) := by
  obtain ⟨noInput, noOutput⟩ := holdsTensors_eq_false_iff.mp empty
  obtain ⟨bareInput, bareOutput⟩ := holdsTensors_eq_false_iff.mp bare
  have ownInputs := first.represented.inputs
  have ownOutputs := first.represented.outputs
  have inputs := second.represented.inputs
  have outputs := second.represented.outputs
  rw [noInput] at ownInputs
  rw [noOutput] at ownOutputs
  rw [bareInput] at inputs
  rw [bareOutput] at outputs
  refine ⟨⟨?_, ?_⟩, first.mode, ?_⟩
  · simp only [assign, noInput, bareInput, List.append_nil]
    exact ownInputs.assign_nil inputs
  · simp only [assign, noOutput, bareOutput, List.append_nil]
    exact ownOutputs.assign_nil outputs
  · simp only [assign, first.options]

/-- What a move assignment does when it has a result. -/
theorem apply_moveAssign {store : ModelStore} {target source : Nat} {this other : ModelObject}
    (atTarget : store.objects[target]? = some this)
    (atSource : store.objects[source]? = some other)
    (moves : ¬(target = source ∧ this.holdsTensors = true)) :
    store.apply (.moveAssign target source) = some { store with
      objects := (store.objects.set source other.release).set target (this.assign other)
      movedFrom :=
        Function.update (Function.update store.movedFrom source true) target false } := by
  have check : ¬(decide (target = source) && this.holdsTensors) = true := by
    rwa [Bool.and_eq_true, decide_eq_true_eq]
  simp only [apply, atTarget, atSource, Option.bind_eq_bind, Option.bind_some, if_neg check]
  rfl

/-- An object with tensors cannot be assigned to itself. -/
theorem apply_moveAssign_self {store : ModelStore} {position : Nat} {this : ModelObject}
    (here : store.objects[position]? = some this) (tensors : this.holdsTensors = true) :
    store.apply (.moveAssign position position) = none := by
  simp only [apply, here, tensors, Option.bind_eq_bind, Option.bind_some, decide_true,
    Bool.and_self, if_true]

/-- Moves leave the tensor objects alone. -/
theorem Sound.frame {store : ModelStore} {object : ModelObject} (sound : store.Sound object)
    (objects : List ModelObject) (movedFrom : Nat → Bool) :
    ({ store with objects, movedFrom } : ModelStore).Sound object :=
  ⟨⟨sound.represented.inputs, sound.represented.outputs⟩, sound.mode, sound.options⟩

/-- An object that has been moved from is as sound as before. -/
theorem Sound.release {store : ModelStore} {object : ModelObject} (sound : store.Sound object) :
    store.Sound object.release :=
  ⟨⟨sound.represented.inputs, sound.represented.outputs⟩, sound.mode, sound.options⟩

/-- An operation between good stores keeps every object represented. -/
theorem Good.keeps {store store' : ModelStore} (good : store'.Good)
    {operation : ModelOperation}
    (transferred : ∀ (source target : Nat) (other this : ModelObject),
      operation.ends store = some (source, target) → store.objects[source]? = some other →
        store'.objects[target]? = some this → Transferred store store' other this) :
    Kept store store' operation :=
  ⟨fun _ object here _ => (good object (List.mem_of_getElem? here)).represented, transferred⟩

/-- An operation that is bare has a result, which is good again. -/
theorem Good.kept_of_bare {store : ModelStore} (good : store.Good) {operation : ModelOperation}
    (within : operation.Within store) (bare : store.Bare operation) :
    ∃ store', store.apply operation = some store' ∧ Kept store store' operation ∧
      store'.Good := by
  cases operation with
  | construct construction tritonUrl =>
      have later := good.construct construction tritonUrl
      refine ⟨_, rfl, later.keeps fun source target other this moved => ?_, later⟩
      cases moved
  | moveConstruct source => exact bare.elim
  | moveAssign target source =>
      obtain ⟨this, atTarget⟩ : ∃ this, store.objects[target]? = some this :=
        ⟨_, List.getElem?_eq_getElem within.1⟩
      obtain ⟨other, atSource⟩ : ∃ other, store.objects[source]? = some other :=
        ⟨_, List.getElem?_eq_getElem within.2⟩
      obtain ⟨empty, none, mode⟩ := bare this other atTarget atSource
      have first := good _ (List.mem_of_getElem? atTarget)
      have second := good _ (List.mem_of_getElem? atSource)
      have later : ({ store with
          objects := (store.objects.set source other.release).set target (this.assign other)
          movedFrom := Function.update (Function.update store.movedFrom source true) target
            false } : ModelStore).Good := by
        intro object member
        rcases List.mem_or_eq_of_mem_set member with member | rfl
        · rcases List.mem_or_eq_of_mem_set member with member | rfl
          · exact (good object member).frame _ _
          · exact second.release.frame _ _
        · exact (sound_assign first second empty none).frame _ _
      refine ⟨_, apply_moveAssign atTarget atSource ?_, later.keeps ?_, later⟩
      · rintro ⟨_, tensors⟩
        rw [empty] at tensors
        cases tensors
      · rintro _ _ _ this' ⟨⟩ found assigned
        cases Option.some.inj (atSource.symm.trans found)
        have longer : target < (store.objects.set source other.release).length := by
          rw [List.length_set]
          exact within.1
        rw [List.getElem?_set_self longer] at assigned
        cases assigned
        obtain ⟨noInput, noOutput⟩ := holdsTensors_eq_false_iff.mp empty
        obtain ⟨async, given⟩ := second.mode
        refine ⟨rfl, ⟨async, given, mode.trans given⟩, ?_, rfl, rfl, ?_, ?_, fun call => ?_⟩
        · simp only [assign, first.options, second.options]
        · rw [assign, noInput, List.nil_append]
        · rw [assign, noOutput, List.nil_append]
        · have name := congrArg InferOptions.modelName second.options
          refine sent_assign empty mode name ?_ ?_ call
          · rfl
          · rfl

/-- An operation that has a result and keeps the objects is bare. -/
theorem Good.bare_of_kept {store store' : ModelStore} (good : store.Good)
    {operation : ModelOperation} (within : operation.Within store)
    (applied : store.apply operation = some store') (kept : Kept store store' operation) :
    store.Bare operation := by
  cases operation with
  | construct construction tritonUrl => trivial
  | moveConstruct source =>
      -- The mode of the new object is open.
      obtain ⟨other, found, same⟩ := Option.bind_eq_some_iff.mp applied
      cases same
      have added : (store.objects.set source other.release ++ [other.moveFrom])[
          store.objects.length]? = some other.moveFrom := by
        rw [List.getElem?_append_right (Nat.le_of_eq List.length_set), List.length_set,
          Nat.sub_self]
        rfl
      obtain ⟨async, _, initialised⟩ :=
        (kept.transferred source store.objects.length other other.moveFrom rfl found added).mode
      cases initialised
  | moveAssign target source =>
      intro this other atTarget atSource
      by_cases own : target = source ∧ this.holdsTensors = true
      · obtain ⟨rfl, tensors⟩ := own
        rw [apply_moveAssign_self atTarget tensors] at applied
        cases applied
      · rw [apply_moveAssign atTarget atSource own] at applied
        cases applied
        have assigned : ((store.objects.set source other.release).set target
            (this.assign other))[target]? = some (this.assign other) := by
          rw [List.getElem?_set_self]
          rw [List.length_set]
          exact within.1
        have transferred := kept.transferred source target other _ rfl atSource assigned
        have represented := kept.represented target _ assigned (Function.update_self ..)
        obtain ⟨async, given, taken⟩ := transferred.mode
        have first := (good this (List.mem_of_getElem? atTarget)).represented
        obtain ⟨noInput, bareInput⟩ :=
          first.inputs.nil_of_assign represented.inputs transferred.inputPtrs
        obtain ⟨noOutput, bareOutput⟩ :=
          first.outputs.nil_of_assign represented.outputs transferred.outputPtrs
        exact ⟨holdsTensors_eq_false_iff.mpr ⟨noInput, noOutput⟩,
          holdsTensors_eq_false_iff.mpr ⟨bareInput, bareOutput⟩, taken.trans given.symm⟩

private theorem Good.faithful_iff_bareMoves {store : ModelStore} (good : store.Good)
    (operations : List ModelOperation) :
    store.Faithful operations ↔ store.BareMoves operations := by
  induction operations generalizing store with
  | nil => exact Iff.rfl
  | cons operation rest ih =>
      constructor
      · intro faithful within
        obtain ⟨store', applied, kept, onward⟩ := faithful within
        have bare := good.bare_of_kept within applied kept
        refine ⟨bare, fun next same => ?_⟩
        obtain ⟨reached, again, _, later⟩ := good.kept_of_bare within bare
        cases Option.some.inj (applied.symm.trans same)
        cases Option.some.inj (applied.symm.trans again)
        exact (ih later).mp onward
      · intro moves within
        obtain ⟨bare, onward⟩ := moves within
        obtain ⟨store', applied, kept, later⟩ := good.kept_of_bare within bare
        exact ⟨store', applied, kept, (ih later).mpr (onward store' applied)⟩

/-- **When the objects of a sequence keep their invariant and moves hand over their
source.** -/
theorem faithful_iff (operations : List ModelOperation) :
    Faithful {} operations ↔ BareMoves {} operations := by
  have good : Good {} := fun object absurd => (List.not_mem_nil absurd).elim
  exact good.faithful_iff_bareMoves operations

open TritonBlock in
/-- A model with two inputs and one output. -/
def pairConstruction (modelName : String) : TritonModelImpl.Construction :=
  ⟨modelName, true, true, pairInputs, pairOutputs⟩

/-- One model is assigned to another. -/
def pairAssigned : List ModelOperation :=
  [.construct (pairConstruction "first") "localhost:8000",
    .construct (pairConstruction "second") "localhost:8000", .moveAssign 0 1]

/-- The target has the inputs of both models, memory for two of them, and its own names. -/
theorem assigned_model_doubled :
    (∃ store this, Transition.follow apply {} pairAssigned = some store ∧
      store.objects[0]? = some this ∧ store.movedFrom 0 = false ∧
      this.inputPtrs = [0, 1, 2, 3] ∧ this.inputs.length = 2 ∧
      this.registeredInputNames = ["0input_left", "1input_right"]) ∧
      ¬ Faithful {} pairAssigned := by
  have computed : ((Transition.follow apply {} pairAssigned).bind fun store =>
      store.objects[0]?.map fun this => (store.movedFrom 0, this.inputPtrs, this.inputs.length,
        this.registeredInputNames)) =
      some (false, [0, 1, 2, 3], 2, ["0input_left", "1input_right"]) := by decide +kernel
  obtain ⟨store, follows, computed⟩ := Option.bind_eq_some_iff.mp computed
  obtain ⟨this, here, same⟩ := Option.map_eq_some_iff.mp computed
  simp only [Prod.mk.injEq] at same
  obtain ⟨moved, ptrs, memories, names⟩ := same
  refine ⟨⟨store, this, follows, here, moved, ptrs, memories, names⟩, fun faithful => ?_⟩
  obtain ⟨_, ⟨⟩, _, faithful⟩ := faithful trivial
  obtain ⟨_, ⟨⟩, _, faithful⟩ := faithful trivial
  obtain ⟨reached, applied, kept, _⟩ := faithful ⟨by decide +kernel, by decide +kernel⟩
  obtain rfl : store = reached := by
    have last := congrArg (Option.bind · some) applied
    exact Option.some.inj (follows.symm.trans last)
  have lengths := (kept.represented 0 this here moved).inputs.lengths.1
  rw [memories, ptrs] at lengths
  cases lengths

end ModelStore

end TorchDsp
